import SpecTree.Settings.Basic
import SpecTree.Text.Lowercase

/-!
# Settings from the environment

A variable gives the setting of its name after the mark `AID_`; the key also has a variable
without the mark. Case does not matter. Values given directly come before variables.
-/

namespace SpecTree.Settings

def mark : String := "aid_"

/-- The setting that a variable gives. -/
def nameOfVariable? (v : String) : Option String :=
  let v := Text.lower v
  if v = preferredKeyName ∨ v = "openai_api_key" then some v
  else names.find? fun name => v = mark ++ name

/-- Without the key under either of its names. -/
def dropKey (values : List (String × Json)) : List (String × Json) :=
  values.filter fun (name, _) => name ≠ preferredKeyName ∧ name ≠ "openai_api_key"

/-- Values under their names in lower case; of two under one name the first counts. -/
def lowered (values : List (String × Json)) : List (String × Json) :=
  (values.map fun (name, j) => (Text.lower name, j)).reverse

/-- Settings from variables and from values given directly. -/
def read? (environment : List (String × String)) (values : List (String × Json)) :
    Option Settings :=
  let values := lowered values
  let outer := environment.filterMap fun (v, text) => (nameOfVariable? v).map (·, Json.str text)
  let hasKey := values.length ≠ (dropKey values).length
  ofValues? (Table.ofList ((if hasKey then dropKey outer else outer) ++ values))

end SpecTree.Settings
