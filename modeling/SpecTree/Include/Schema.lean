import SpecTree.Include.Resolve
import SpecTree.Spec.Printer
import SpecTree.Spec.Schema

/-!
# Resolved specs as JSON

The form in which tools see what became of a file and of the files it includes.
-/

namespace SpecTree.Include

/-- The path, the text of the include, whether it is a spec, and its text or its document. -/
def Import.toJson (path : String) (i : Import) : Json :=
  let (content, document) : Json × Json :=
    match i.body with
    | .spec d => (.null, d.toJson)
    | .text t => (.str t, .null)
  .arr [.str path, .str i.written, .str path, .bool content.isNull, content, document]

def sorted (names : List String) : Json := .texts (names.mergeSort fun a b => a ≤ b)

/-- Imports in the order of their paths. -/
def importsJson (imports : Table Import) : Json :=
  .arr ((imports.entries.mergeSort fun a b => a.1 ≤ b.1).map fun (path, i) => i.toJson path)

/-- The tree and what is wrong with it. -/
def Resolved.members (r : Resolved) : List (String × Json) :=
  [("ast", r.document.toJson), ("errors", .arr (r.problems.map Spec.Diagnostic.toJson)),
   ("has_errors", .bool r.hasErrors)]

/-- All of it, with what the session has seen. -/
def Resolved.toJson (r : Resolved) (s : Session) : Json :=
  .obj (r.members ++
    [("text", .str r.document.render), ("read_count", .int s.reads),
     ("resolving", sorted s.resolving), ("imports", importsJson s.imports)])

end SpecTree.Include
