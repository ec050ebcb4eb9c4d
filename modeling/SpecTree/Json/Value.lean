import SpecTree.Table

/-!
# JSON values

Whole numbers are kept apart from numbers with a point or an exponent, and the members of an
object keep the order in which their names first came.
-/

namespace SpecTree

inductive Json where
  | null
  | bool (b : Bool)
  | int (n : Int)
  | float (x : Float)
  | str (s : String)
  | arr (items : List Json)
  | obj (members : List (String × Json))
  deriving Inhabited

namespace Json

def get? (j : Json) (name : String) : Option Json :=
  match j with
  | obj members => members.lookup name
  | _ => none

def isNull : Json → Bool
  | null => true
  | _ => false

/-- Whether a value counts as something: not null, false, zero or empty. -/
def isTruthy : Json → Bool
  | null => false
  | bool b => b
  | int n => n != 0
  | float x => x != 0
  | str s => !s.isEmpty
  | arr items => !items.isEmpty
  | obj members => !members.isEmpty

def texts (ss : List String) : Json := arr (ss.map str)

end Json

end SpecTree
