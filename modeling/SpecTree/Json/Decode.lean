import SpecTree.Decimal.Number
import SpecTree.Json.Value

/-!
# Taking values out of JSON

Texts have to be texts. A flag may also be written as the number zero or one, or as one of a few
words in any case. A member that is absent takes its default; one that is null does so only where
null is allowed.
-/

namespace SpecTree.Json

def text? : Json → Option String
  | str s => some s
  | _ => none

def trueWords : List String := ["1", "t", "y", "on", "yes", "true"]

def falseWords : List String := ["0", "f", "n", "off", "no", "false"]

/-- The flag that a word stands for. -/
def flagOfWord? (word : String) : Option Bool :=
  let word := word.map Char.toLower
  if trueWords.contains word then some true
  else if falseWords.contains word then some false
  else none

def flag? : Json → Option Bool
  | bool b => some b
  | int n => if n = 0 then some false else if n = 1 then some true else none
  | float x => if x == 0 then some false else if x == 1 then some true else none
  | str s => flagOfWord? s
  | _ => none

def number? : Json → Option Number
  | int n => some (.whole n)
  | float x => some (.fractional x)
  | _ => none

/-- A number that counts are compared with: they reach it when they reach the next whole number. -/
def bound? : Json → Option Int
  | int n => some n
  | float x => Number.wholeOf? x.ceil
  | _ => none

def list? {α : Type} (item? : Json → Option α) : Json → Option (List α)
  | arr items => items.mapM item?
  | _ => none

/-- The members of an object under their names. -/
def table? {α : Type} (item? : Json → Option α) : Json → Option (Table α)
  | obj members => do
    let entries ← members.mapM fun (name, j) => (item? j).map (name, ·)
    return Table.ofList entries
  | _ => none

def isObject : Json → Bool
  | obj _ => true
  | _ => false

/-- A member that has to be there. -/
def member? {α : Type} (j : Json) (name : String) (value? : Json → Option α) : Option α := do
  value? (← j.get? name)

/-- A member with a default. -/
def memberOr {α : Type} (j : Json) (name : String) (value? : Json → Option α) (fallback : α) :
    Option α :=
  match j.get? name with
  | some value => value? value
  | none => if j.isObject then some fallback else none

/-- The value of an option, or its usual one. -/
def option {α : Type} (options : Json) (name : String) (value? : Json → Option α) (usual : α) : α :=
  ((options.get? name).bind value?).getD usual

/-- A member that may be absent or null. -/
def optional? {α : Type} (j : Json) (name : String) (value? : Json → Option α) :
    Option (Option α) :=
  match j.get? name with
  | some null => some none
  | some value => (value? value).map some
  | none => if j.isObject then some none else none

mutual

/-- Without the members of objects that are null, at any depth. -/
def dropNulls : Json → Json
  | arr items => arr (dropNullsItems items)
  | obj members => obj (dropNullsMembers members)
  | j => j

def dropNullsItems : List Json → List Json
  | [] => []
  | j :: rest => dropNulls j :: dropNullsItems rest

def dropNullsMembers : List (String × Json) → List (String × Json)
  | [] => []
  | (name, j) :: rest =>
    match j with
    | null => dropNullsMembers rest
    | j => (name, dropNulls j) :: dropNullsMembers rest

end

end SpecTree.Json
