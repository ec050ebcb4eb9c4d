import SpecTree.Context.Basic
import SpecTree.Json.Printer

/-!
# Fingerprints and changes of contexts

1. A fingerprint is a text that decides whether two contexts compile alike. Where something came from
   does not matter, and neither does the order of constraints, suggestions, utilities and interfaces.
2. `changes` is what a reader is told about a node that is compiled again: the names that came and
   went.
-/

namespace SpecTree.Context

/-! ## Fingerprints -/

/-- Texts in the order of their code points. -/
def sortTexts (xs : List String) : List String := xs.mergeSort fun a b => a ≤ b

def strings (xs : List String) : Json := .arr (xs.map Json.str)

/-- A constraint's rule, marked if it is important. -/
def constraintKey (c : Constraint) : String := (if c.important then "!" else "") ++ c.rule

def utilityKey (u : Utility) : String := u.name ++ ":" ++ u.signature

/-- Everything in a context that matters, in one order. -/
def canonicalJson (c : Context) : Json :=
  .obj [("constraints", strings (sortTexts (c.constraints.map constraintKey))),
    ("forwarding", c.forwarding.elim .null strings),
    ("interfaces", .obj ((c.interfaces.entries.mergeSort fun a b => a.1 ≤ b.1).map
      fun (name, i) => (name, strings [i.source, i.definition]))),
    ("suggestions", strings (sortTexts (c.suggestions.map Suggestion.rule))),
    ("utilities", strings (sortTexts (c.utilities.map utilityKey)))]

/-- The digest of a context under the digest of texts. -/
def fingerprint (digest : String → String) (c : Context) : String :=
  digest c.canonicalJson.compact

/-! ## Changes -/

/-- Without repetitions, in the order of code points. -/
def distinctSorted (xs : List String) : List String := sortTexts xs.eraseDups

/-- The items only `new` has and those only `old` has, cut to fifty characters. -/
def compare (label : String) (old new : List String) : List String :=
  let line (verb item : String) :=
    verb ++ " " ++ label ++ ": " ++ String.ofList (item.toList.take 50)
  (distinctSorted (new.filter (!old.contains ·))).map (line "Added")
    ++ (distinctSorted (old.filter (!new.contains ·))).map (line "Removed")

/-- What changed from one context to another; without an old one the node is new. -/
def changes (old? : Option Context) (new : Context) : List String :=
  match old? with
  | none => ["New node (no previous compilation)"]
  | some old =>
    let found :=
      compare "interface" old.interfaces.names new.interfaces.names
        ++ compare "constraint" (old.constraints.map Constraint.rule)
            (new.constraints.map Constraint.rule)
        ++ compare "utility" (old.utilities.map Utility.name) (new.utilities.map Utility.name)
    if found.isEmpty then ["Minor changes (no interface/constraint/utility changes)"] else found

end SpecTree.Context
