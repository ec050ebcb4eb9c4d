import SpecTree.Plan.Name
import SpecTree.Store.Basic

/-!
# Leaves of a plan

A directory of a plan belongs to a leaf when it holds a context file. `discover` finds all leaves
below a plan directory, through links too, and puts the root first.
-/

namespace SpecTree.Build

/-- A leaf as it was found. -/
structure Leaf where
  nodePath : String
  specPath : String
  contextPath : String
  deriving Repr, DecidableEq

/-- Whether an entry of a directory leads to a directory. -/
def leadsInside (s : Store) (path : String) : Entry → Except FileError Bool
  | .directory => .ok true
  | .file _ => .ok false
  | .link _ =>
    match s.find true path with
    | .ok (_, e) => .ok (e matches .directory)
    | .error (.missing _) => .ok false
    | .error e => .error e

/-- The leaf whose context file lies in a directory. -/
def leafIn (s : Store) (directory node file : String) : Except FileError (List Leaf) := do
  let specPath := Path.assemble [directory, file]
  let contextPath := specPath ++ Plan.contextSuffix
  if ← s.isFile contextPath then return [⟨node, specPath, contextPath⟩] else return []

/-- The leaves below a node, down to some depth. A directory that cannot be read has none. -/
def scan (s : Store) (plan : String) : Nat → String → Except FileError (List Leaf)
  | 0, _ => .ok []
  | depth + 1, node =>
    let directory := Path.assemble [plan, node]
    match s.list directory with
    | .error e => if e.isSystem then .ok [] else .error e
    | .ok entries => do
      let found ← entries.mapM fun (name, entry) => do
        let inside := Path.assemble [directory, name]
        if ← leadsInside s inside entry then
          let child := if node.isEmpty then name else node ++ "/" ++ name
          return (← leafIn s inside child Plan.nodeFile) ++ (← scan s plan depth child)
        else return []
      return found.flatten

/-- The root comes first, the others follow by their paths. -/
def precedes (a b : Leaf) : Bool :=
  if a.nodePath = Plan.rootName then true
  else b.nodePath ≠ Plan.rootName && a.nodePath ≤ b.nodePath

/-- All leaves of a plan directory. No path is longer than the limit, so none is deeper. -/
def discover (s : Store) (plan : String) : Except FileError (List Leaf) := do
  let root ← leafIn s plan Plan.rootName Plan.rootFile
  let others ← scan s plan Store.pathLimit ""
  return (root ++ others).mergeSort precedes

end SpecTree.Build
