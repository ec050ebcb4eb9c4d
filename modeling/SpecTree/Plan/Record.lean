import SpecTree.Decimal.Style
import SpecTree.Provider.Schema
import SpecTree.Time.Stamp

/-!
# Records of compiled nodes

What a compilation leaves behind for the next one: what was compiled, into what, and when. A node
whose provider failed leaves no record.
-/

namespace SpecTree.Plan

structure Record where
  nodePath : String
  specHash : String
  contextHash : String
  isLeaf : Bool
  context : Context := {}
  children : List ChildSpec := []
  interfaces : List Declaration := []
  constraints : List Constraint := []
  suggestions : List Suggestion := []
  utilities : List Utility := []
  /-- A time stamp. -/
  compiledAt : String
  deriving DecidableEq, Inhabited

namespace Record

open Json (text? flag? list?)

/-- The members of a record but for its time stamp. -/
def members (r : Record) : List (String × Json) :=
  [("node_path", .str r.nodePath), ("spec_hash", .str r.specHash),
   ("context_hash", .str r.contextHash), ("is_leaf", .bool r.isLeaf),
   ("context", r.context.toJson), ("children", .arr (r.children.map ChildSpec.toJson)),
   ("interfaces", .arr (r.interfaces.map Declaration.toJson)),
   ("constraints", .arr (r.constraints.map Constraint.toJson)),
   ("suggestions", .arr (r.suggestions.map Suggestion.toJson)),
   ("utilities", .arr (r.utilities.map Utility.toJson))]

def toJson (r : Record) : Json := .obj (r.members ++ [("compiled_at", .str r.compiledAt)])

/-- The text of a time stamp, which may also be given as a number. -/
def stamp? : Json → Option String
  | .str s => if Stamp.isStamp s then some s else none
  | .int n => if Stamp.isCount n then some (toString n) else none
  | .float x => if Stamp.isRealCount x then some (Decimal.plain.text x) else none
  | _ => none

def ofJson? (j : Json) : Option Record := do
  return {
    nodePath := ← j.member? "node_path" text?
    specHash := ← j.member? "spec_hash" text?
    contextHash := ← j.member? "context_hash" text?
    isLeaf := ← j.member? "is_leaf" flag?
    context := ← j.memberOr "context" Context.ofJson? {}
    children := ← j.memberOr "children" (list? ChildSpec.ofJson?) []
    interfaces := ← j.memberOr "interfaces" (list? Declaration.ofJson?) []
    constraints := ← j.memberOr "constraints" (list? Constraint.ofJson?) []
    suggestions := ← j.memberOr "suggestions" (list? Suggestion.ofJson?) []
    utilities := ← j.memberOr "utilities" (list? Utility.ofJson?) []
    compiledAt := ← j.member? "compiled_at" stamp? }

end Record

end SpecTree.Plan
