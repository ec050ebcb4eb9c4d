import SpecTree.Log.Level
import SpecTree.Metrics.Basic
import SpecTree.Plan.Schedule
import SpecTree.Settings.File

/-!
# Projects

A project is a root spec with a plan directory and an output directory beside it. Its settings are
given or read from the file beside the root spec; settings that are read also say which lines are
kept in the log.
-/

namespace SpecTree

/-- Why a project cannot be worked on. -/
inductive ProjectError where
  | settings (error : SettingsError)
  | unknownLevel (name : String)
  | file (error : FileError)

/-- What a run is given from outside. -/
structure Surroundings where
  /-- The number of the run. -/
  run : String
  /-- The name of the provider. -/
  provider : String
  /-- When the provider replies. -/
  pace : Plan.Pace
  digest : String → String
  /-- The time stamp of records. -/
  stamp : String
  began : Instant
  ended : Instant

/-- A run with all that can be seen of it. -/
structure ProjectRun (α : Type) where
  store : Store
  /-- The calls in the order in which they were made. -/
  requests : List Request := []
  /-- The most calls that were in flight at once. -/
  peak : Nat := 0
  metrics : Metrics
  lines : List Log.Line := []
  result : Except ProjectError α

namespace Project

/-- The directory of the root spec, without links and detours. -/
def directory (s : Store) (main : String) : Except FileError String :=
  if main.contains '\x00' then .error .zeroCharacter
  else .ok (Path.directory (s.canonical main))

/-- The plan directory and the output directory. -/
def directories (s : Store) (main : String) (settings : Settings) :
    Except FileError (String × String) :=
  (directory s main).map fun d =>
    (Path.assemble [d, settings.planDirectory], Path.assemble [d, settings.outputDirectory])

/-- The settings of a project and the level from which lines are kept. -/
def settings (s : Store) (main : String) (given : Option Settings) :
    Except ProjectError (Settings × Log.Level) × List Log.Line :=
  match given with
  | some settings => (.ok (settings, .unset), [])
  | none =>
    match directory s main with
    | .error e => (.error (.file e), [])
    | .ok d =>
      match Settings.load s d {} with
      | (.error e, lines) => (.error (.settings e), lines)
      | (.ok settings, lines) =>
        match Log.Level.ofName? settings.logLevel with
        | some level => (.ok (settings, level), lines)
        | none => (.error (.unknownLevel settings.logLevel), lines)

/-- The metrics of a run that begins. -/
def freshMetrics (e : Surroundings) (phase : String) : Metrics :=
  Metrics.start { run := e.run, phase } e.began

end Project

end SpecTree
