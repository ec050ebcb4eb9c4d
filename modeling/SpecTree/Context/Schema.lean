import SpecTree.Context.Basic
import SpecTree.Json.Decode

/-!
# Contexts as JSON
-/

namespace SpecTree

open Json (text? flag? list? table?)

namespace Interface

def toJson (i : Interface) : Json :=
  .obj [("source", .str i.source), ("definition", .str i.definition)]

def ofJson? (j : Json) : Option Interface := do
  return ⟨← j.member? "source" text?, ← j.member? "definition" text?⟩

end Interface

namespace Constraint

def toJson (c : Constraint) : Json :=
  .obj [("rule", .str c.rule), ("source", .str c.source), ("important", .bool c.important)]

def ofJson? (j : Json) : Option Constraint := do
  return ⟨← j.member? "rule" text?, ← j.memberOr "source" text? "",
    ← j.memberOr "important" flag? false⟩

end Constraint

namespace Suggestion

def toJson (s : Suggestion) : Json := .obj [("rule", .str s.rule), ("source", .str s.source)]

def ofJson? (j : Json) : Option Suggestion := do
  return ⟨← j.member? "rule" text?, ← j.memberOr "source" text? ""⟩

end Suggestion

namespace Utility

def toJson (u : Utility) : Json :=
  .obj [("name", .str u.name), ("signature", .str u.signature), ("location", .str u.location),
    ("source", .str u.source)]

def ofJson? (j : Json) : Option Utility := do
  return ⟨← j.member? "name" text?, ← j.memberOr "signature" text? "",
    ← j.memberOr "location" text? "", ← j.memberOr "source" text? ""⟩

end Utility

namespace Context

def toJson (c : Context) : Json :=
  .obj [("interfaces", .obj (c.interfaces.entries.map fun (name, i) => (name, i.toJson))),
    ("constraints", .arr (c.constraints.map Constraint.toJson)),
    ("suggestions", .arr (c.suggestions.map Suggestion.toJson)),
    ("utilities", .arr (c.utilities.map Utility.toJson)),
    ("forwarding", c.forwarding.elim .null fun names => .arr (names.map Json.str))]

def ofJson? (j : Json) : Option Context := do
  return {
    interfaces := ← j.memberOr "interfaces" (table? Interface.ofJson?) {}
    constraints := ← j.memberOr "constraints" (list? Constraint.ofJson?) []
    suggestions := ← j.memberOr "suggestions" (list? Suggestion.ofJson?) []
    utilities := ← j.memberOr "utilities" (list? Utility.ofJson?) []
    forwarding := ← j.optional? "forwarding" (list? text?) }

end Context

end SpecTree
