import SpecTree.Include.Resolve
import SpecTree.Plan.Report
import SpecTree.Project.Basic
import SpecTree.Store.Reader

/-!
# Compiling a project

The root spec is read and its includes are resolved. If anything is wrong with them, nothing is
compiled and every error is told; otherwise the tree is compiled into the plan directory.
-/

namespace SpecTree.Project

open Plan (TreePolicy TreeReport compileTree)
open Spec (Diagnostic)

/-- How the tree of a project is compiled. -/
def treePolicy (e : Surroundings) (settings : Settings) (plan : String) : TreePolicy where
  directory := plan
  maxNodes := settings.maxNodes
  maxCalls := settings.maxCalls
  concurrency := settings.concurrency
  node :=
    { smallSpec := settings.smallSpec, useCache := settings.useCache, digest := e.digest,
      stamp := e.stamp }
  provider := e.provider

/-- The status of a compilation and what is wrong with it. -/
def compileStatus (r : TreeReport) : String × Option String :=
  match r.exceeded, r.errors with
  | some c, _ => ("budget_exceeded", some (c.name ++ " limit reached"))
  | none, error :: _ => ("failed", some error)
  | none, [] => ("completed", none)

/-- Compiles what the root spec stands for. -/
def compileWith (e : Surroundings) (s : Store) (main : String) (settings : Settings)
    (provider : Request → Except Failure Expansion) : ProjectRun TreeReport :=
  let metrics := freshMetrics e "compile"
  let idle : ProjectRun TreeReport :=
    { store := s, metrics, result := .error (.file .zeroCharacter) }
  let session : Include.Session := { extension := settings.specExtension }
  let (resolved, _) := Include.resolveFile s.reader main session
  if resolved.hasUnusablePath then idle
  else
    let (errors, warnings) := resolved.problems.partition Diagnostic.isError
    let warned : List Log.Line := warnings.map fun d => ⟨.warning, d.format⟩
    if !errors.isEmpty then
      let message := toString errors.length ++ " parse error(s)"
      { idle with
        metrics := metrics.complete "failed" (some message) e.ended
        lines := warned ++ errors.map fun d => ⟨.error, d.format⟩
        result := .ok { errors := errors.map Diagnostic.format } }
    else
      match directories s main settings with
      | .error error => { idle with lines := warned, result := .error (.file error) }
      | .ok (plan, _) =>
        let (state, report) := compileTree (treePolicy e settings plan) s resolved.document metrics
          e.pace provider
        let metrics :=
          match report with
          | .error _ => state.metrics
          | .ok r => state.metrics.complete (compileStatus r).1 (compileStatus r).2 e.ended
        { store := state.store
          requests := state.requests
          peak := state.peak
          metrics
          lines := warned ++ state.lines
          result := report.mapError .file }

/-- Compiles a project under given settings or its own. -/
def compile (e : Surroundings) (s : Store) (main : String) (given : Option Settings)
    (provider : Request → Except Failure Expansion) : ProjectRun TreeReport :=
  match settings s main given with
  | (.error error, lines) =>
    { store := s, metrics := freshMetrics e "compile", lines, result := .error error }
  | (.ok (settings, level), lines) =>
    let run := compileWith e s main settings provider
    { run with lines := lines ++ Log.atLeast level run.lines }

end SpecTree.Project
