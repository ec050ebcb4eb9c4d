import SpecTree.Plan.Report

/-!
# Compilations as JSON

The form in which results, reports and comparisons are handed on.
-/

namespace SpecTree.Plan

namespace NodeResult

def toJson (r : NodeResult) : Json :=
  .obj [("node_path", .str r.nodePath), ("ancestry", .texts r.ancestry),
    ("is_leaf", .bool r.isLeaf), ("children", .arr (r.children.map ChildSpec.toJson)),
    ("questions", .arr (r.questions.map Question.toJson)),
    ("considerations", .arr (r.considerations.map Consideration.toJson)),
    ("errors", .texts r.errors), ("transitions", .texts (r.stages.map Stage.name)),
    ("provider_called", .bool r.providerCalled), ("cache_hit", .bool r.cacheHit),
    ("skipped", .bool r.skipped),
    ("cache_status", r.cacheStatus.elim .null fun c => .str c.message),
    ("state", .str r.stage.name)]

end NodeResult

namespace TreeReport

def toJson (r : TreeReport) : Json :=
  .obj [("nodes", .arr (r.nodes.map NodeResult.toJson)), ("errors", .texts r.errors),
    ("questions", .arr (r.questions.map Question.toJson)),
    ("considerations", .arr (r.considerations.map Consideration.toJson)),
    ("nodes_visited", .int r.nodes.length), ("provider_calls", .int r.calls),
    ("cache_hits", .int r.cacheHits),
    ("budget_exceeded", r.exceeded.elim .null fun c => .str c.name),
    ("skipped_nodes", .texts r.skipped), ("leaf_count", .int r.leafCount),
    ("success", .bool r.succeeded)]

end TreeReport

namespace Difference

/-- The record goes along without its time stamp. -/
def toJson (d : Difference) : Json :=
  .obj [("needs_recompile", .bool d.isStale), ("reason", .str d.reason.message),
    ("spec_hash", .str d.specHash), ("context_hash", .str d.contextHash),
    ("previous", d.previous.elim .null fun r => .obj r.members)]

end Difference

end SpecTree.Plan
