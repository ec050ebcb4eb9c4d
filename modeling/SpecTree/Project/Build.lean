import SpecTree.Build.Report
import SpecTree.Project.Basic

/-!
# Building a project

Every leaf in the plan directory is generated into the output directory.
-/

namespace SpecTree.Project

open Build (BuildPolicy BuildReport runBuild)

/-- The status of a build and what is wrong with it. -/
def buildStatus (r : BuildReport) : String × Option String :=
  if r.aborted then ("aborted", r.errors.head?)
  else
    match r.errors with
    | error :: _ => ("failed", some error)
    | [] => ("completed", none)

/-- Builds a project; its output directory may be removed first. -/
def buildWith (e : Surroundings) (s : Store) (main : String) (settings : Settings) (clean : Bool)
    (provider : Request → Except Failure Production) : ProjectRun BuildReport :=
  let metrics := freshMetrics e "build"
  match directories s main settings with
  | .error error => { store := s, metrics, result := .error (.file error) }
  | .ok (plan, output) =>
    let policy : BuildPolicy :=
      { site := { plan, output, addHeaders := settings.addHeaders }
        parallelism := settings.parallelism
        clean }
    let (state, report) := runBuild policy s metrics e.pace provider
    let metrics :=
      match report with
      | .error _ => state.metrics
      | .ok r => state.metrics.complete (buildStatus r).1 (buildStatus r).2 e.ended
    { store := state.store
      requests := state.requests
      peak := state.peak
      metrics
      result := report.mapError .file }

/-- Builds a project under given settings or its own. -/
def build (e : Surroundings) (s : Store) (main : String) (given : Option Settings) (clean : Bool)
    (provider : Request → Except Failure Production) : ProjectRun BuildReport :=
  match settings s main given with
  | (.error error, lines) =>
    { store := s, metrics := freshMetrics e "build", lines, result := .error error }
  | (.ok (settings, _), lines) =>
    let run := buildWith e s main settings clean provider
    { run with lines := lines ++ run.lines }

end SpecTree.Project
