import SpecTree.Log.Record
import SpecTree.Plan.Schedule

/-!
# Compilations as a whole

`compileTree` makes the plan directory, runs a compilation to its end and reports what came of it.
A failure at the root leaves nothing to report and is the failure of the whole.
-/

namespace SpecTree.Plan

open Spec

/-- What a compilation came to. -/
structure TreeReport where
  nodes : List NodeResult := []
  errors : List String := []
  /-- The calls that were allowed. -/
  calls : Nat := 0
  exceeded : Option Ceiling := none
  skipped : List String := []

namespace TreeReport

def questions (r : TreeReport) : List Question := r.nodes.flatMap NodeResult.questions

def considerations (r : TreeReport) : List Consideration :=
  r.nodes.flatMap NodeResult.considerations

def cacheHits (r : TreeReport) : Nat := r.nodes.countP NodeResult.cacheHit

def leafCount (r : TreeReport) : Nat := r.nodes.countP NodeResult.isLeaf

def succeeded (r : TreeReport) : Bool := r.errors.isEmpty && r.exceeded.isNone

/-- The lines that close a compilation. -/
def closingLines (r : TreeReport) : List Log.Line :=
  let stop (c : Ceiling) : Log.Line :=
    ⟨.warning, "Compilation stopped: " ++ c.name ++ " limit reached, " ++ toString r.skipped.length
      ++ " node(s) not compiled"⟩
  let sound := r.nodes.countP fun n => n.errors.isEmpty
  r.exceeded.toList.map stop
    ++ [Log.tallyLine "tree compilation" r.nodes.length sound]

end TreeReport

namespace TreeState

def report (s : TreeState) : TreeReport where
  nodes := s.results
  errors := s.errors ++ s.results.flatMap NodeResult.errors
  calls := s.calls
  exceeded := s.exceeded
  skipped := s.skipped

/-- The failure of the root, if the root failed. -/
def rootFailure? (s : TreeState) : Option FileError :=
  s.failures.findSome? fun (v, e) => if v.ancestry = [rootName] then some e else none

/-- Closes the log. -/
def close (s : TreeState) : TreeState := s.tell s.report.closingLines

end TreeState

/-- Compiles a tree from its root down. -/
def compileTree (p : TreePolicy) (store : Store) (root : Document) (metrics : Metrics) (pace : Pace)
    (provider : Request → Except Failure Expansion) : TreeState × Except FileError TreeReport :=
  match store.makeDirectories p.directory with
  | (store, some e) => (.initial store root metrics, .error e)
  | (store, none) =>
    let s := (TreeState.initial store root metrics).complete p pace provider
    match s.rootFailure? with
    | some e => (s, .error e)
    | none => (s.close, .ok s.report)

end SpecTree.Plan
