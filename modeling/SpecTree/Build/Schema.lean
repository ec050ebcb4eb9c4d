import SpecTree.Build.Report
import SpecTree.Provider.Schema

/-!
# Builds as JSON

The form in which leaves and reports are handed on.
-/

namespace SpecTree.Build

namespace Leaf

def toJson (l : Leaf) : Json :=
  .obj [("node_path", .str l.nodePath), ("spec_path", .str l.specPath),
    ("context_path", .str l.contextPath)]

end Leaf

def filesJson (files : List GeneratedFile) : Json := .arr (files.map GeneratedFile.toJson)

def questionsJson (questions : List Question) : Json := .arr (questions.map Question.toJson)

def considerationsJson (considerations : List Consideration) : Json :=
  .arr (considerations.map Consideration.toJson)

namespace LeafResult

def toJson (r : LeafResult) : Json :=
  .obj [("node_path", .str r.nodePath), ("files", filesJson r.files),
    ("questions", questionsJson r.questions),
    ("considerations", considerationsJson r.considerations),
    ("errors", .texts r.errors), ("success", .bool r.success),
    ("skipped", .bool r.skipped)]

end LeafResult

namespace BuildReport

def toJson (r : BuildReport) : Json :=
  .obj [("total_leaves", .int r.total), ("success_count", .int r.successes),
    ("failure_count", .int r.failures), ("batches", .int r.batches), ("files", filesJson r.files),
    ("questions", questionsJson r.questions),
    ("considerations", considerationsJson r.considerations),
    ("errors", .texts r.errors),
    ("results", .arr (r.results.map LeafResult.toJson)), ("aborted", .bool r.aborted)]

end BuildReport

end SpecTree.Build
