import SpecTree.Build.Run

/-!
# Builds as a whole

`runBuild` clears and makes the output directory, finds the leaves, runs the build to its end and
reports what came of it. A failure before the first batch leaves nothing to report.
-/

namespace SpecTree.Build

open Plan (Pace)

/-- What a build came to. -/
structure BuildReport where
  total : Nat := 0
  batches : Nat := 0
  results : List LeafResult := []
  errors : List String := []
  aborted : Bool := false

namespace BuildReport

def files (r : BuildReport) : List GeneratedFile := r.results.flatMap LeafResult.files

def questions (r : BuildReport) : List Question := r.results.flatMap LeafResult.questions

def considerations (r : BuildReport) : List Consideration :=
  r.results.flatMap LeafResult.considerations

def successes (r : BuildReport) : Nat := r.results.countP LeafResult.success

def failures (r : BuildReport) : Nat := r.results.countP fun l => !l.success

/-- There was nothing to build. -/
def nothing (plan : String) : BuildReport :=
  { errors := ["No leaf nodes found in " ++ plan ++ ". Run compilation first."] }

end BuildReport

/-- How a build is run. -/
structure BuildPolicy where
  site : Site
  parallelism : Int := 5
  /-- Whether the output directory is removed first. -/
  clean : Bool := false

/-- The output directory as the build finds it. -/
def prepareOutput (p : BuildPolicy) (s : Store) : Store × Option FileError :=
  let output := p.site.output
  let cleared : Except FileError Store := do
    if p.clean then
      if ← s.isPresent output then return ← s.removeTree output
    return s
  match cleared with
  | .ok s => s.makeDirectories output
  | .error e => (s, some e)

namespace BuildState

def initial (store : Store) (batches : List (List Leaf)) (metrics : Metrics) : BuildState :=
  { store, later := batches, metrics }

def abortMessages (s : BuildState) : List String :=
  s.leftOut.toList.map fun left =>
    "Build aborted after batch " ++ toString s.batches ++ ": " ++ toString left
      ++ " leaf node(s) not executed"

def report (s : BuildState) (total : Nat) : BuildReport where
  total
  batches := s.batches
  results := s.results
  errors := s.results.flatMap LeafResult.errors ++ s.abortMessages
  aborted := s.leftOut.isSome

end BuildState

/-- Builds all leaves of a plan. -/
def runBuild (p : BuildPolicy) (store : Store) (metrics : Metrics) (pace : Pace)
    (provider : Request → Except Failure Production) : BuildState × Except FileError BuildReport :=
  match prepareOutput p store with
  | (store, some e) => (.initial store [] metrics, .error e)
  | (store, none) =>
    match discover store p.site.plan with
    | .error e => (.initial store [] metrics, .error e)
    | .ok [] => (.initial store [] metrics, .ok (.nothing p.site.plan))
    | .ok leaves =>
      let s := (BuildState.initial store (batches p.parallelism leaves) metrics).complete
        p.site pace provider
      (s, .ok (s.report leaves.length))

end SpecTree.Build
