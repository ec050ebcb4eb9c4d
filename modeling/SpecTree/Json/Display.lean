import SpecTree.Decimal.Style
import SpecTree.Json.Value
import SpecTree.Text.Quoted

/-!
# Values as plain text

Where a text is expected and another value comes, the value is written out: words with a capital,
numbers in the plain style, arrays and objects in brackets with the texts in them quoted. A text
stands for itself.
-/

namespace SpecTree.Json

mutual

/-- A value inside an array or object. -/
def inner : Json → String
  | null => "None"
  | bool b => if b then "True" else "False"
  | int n => toString n
  | float x => Decimal.plain.text x
  | str s => Text.quoted s
  | arr items => "[" ++ String.intercalate ", " (innerItems items) ++ "]"
  | obj members => "\x7b" ++ String.intercalate ", " (innerMembers members) ++ "\x7d"

def innerItems : List Json → List String
  | [] => []
  | j :: rest => inner j :: innerItems rest

def innerMembers : List (String × Json) → List String
  | [] => []
  | (name, j) :: rest => (Text.quoted name ++ ": " ++ inner j) :: innerMembers rest

end

/-- The text of a value. -/
def display : Json → String
  | str s => s
  | j => j.inner

/-- The name of the kind of a value. -/
def kindName : Json → String
  | null => "NoneType"
  | bool _ => "bool"
  | int _ => "int"
  | float _ => "float"
  | str _ => "str"
  | arr _ => "list"
  | obj _ => "dict"

end SpecTree.Json
