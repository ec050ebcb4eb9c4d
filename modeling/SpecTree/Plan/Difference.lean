import SpecTree.Context.Changes
import SpecTree.Plan.Artifacts

/-!
# What changed since the last compilation

A node is compiled again unless its spec and context have the digests of its record and the
artifacts that the record promises are there.
-/

namespace SpecTree.Plan

/-- Why a node has to be compiled again, or need not be. -/
inductive Reason where
  | notCompiled
  | specChanged
  | contextChanged
  | specMissing
  | contextMissing
  | unchanged
  deriving Repr, DecidableEq

def Reason.message : Reason → String
  | .notCompiled => "No cached compilation found"
  | .specChanged => "Spec content has changed"
  | .contextChanged => "Parent context has changed"
  | .specMissing => "Spec artifact is missing"
  | .contextMissing => "Leaf context artifact is missing"
  | .unchanged => "Cached compilation is valid"

/-- A node compared with its record. -/
structure Difference where
  reason : Reason
  specHash : String
  contextHash : String
  previous : Option Record := none
  deriving DecidableEq

namespace Difference

def isStale (d : Difference) : Bool := d.reason ≠ .unchanged

/-- The record that may be used instead of compiling. -/
def reusable? (d : Difference) : Option Record := if d.isStale then none else d.previous

end Difference

/-- Why a node with a record has to be compiled again, or need not be. -/
def reasonFor (s : Store) (directory node specHash contextHash : String) (r : Record) :
    Except FileError Reason := do
  if r.specHash ≠ specHash then return .specChanged
  if r.contextHash ≠ contextHash then return .contextChanged
  if !(← s.isFile (planPath directory node)) then return .specMissing
  if r.isLeaf then
    if !(← s.isFile (contextPath directory node)) then return .contextMissing
  return .unchanged

/-- Compares a node with its record, under a digest of texts. -/
def difference (digest : String → String) (s : Store) (directory node spec : String)
    (context : Context) : Except FileError (Difference × List Log.Line) := do
  let specHash := digest spec
  let contextHash := context.fingerprint digest
  let (previous, lines) ← readRecord s directory node
  match previous with
  | none => return (⟨.notCompiled, specHash, contextHash, none⟩, lines)
  | some r =>
    let reason ← reasonFor s directory node specHash contextHash r
    return (⟨reason, specHash, contextHash, some r⟩, lines)

end SpecTree.Plan
