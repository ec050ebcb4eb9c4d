import SpecTree.Log.Level
import SpecTree.Path.Basic
import SpecTree.Settings.Basic
import SpecTree.Store.Basic
import SpecTree.Yaml.Reader

/-!
# Settings of a project

A file beside the root spec overrides settings. What it says beyond the known names is reported
and ignored.
-/

namespace SpecTree

/-- Why settings cannot be read. -/
inductive SettingsError where
  | file (error : FileError)
  | unreadable (problem : Yaml.Problem)
  /-- A value is of the wrong kind. -/
  | invalid
  deriving Repr

namespace Settings

def fileName : String := "aid.config.yaml"

/-- The values under known names, and a warning for every other one. -/
def known (path : String) :
    List (Yaml.Value × Yaml.Value) → List (String × Json) × List Log.Line
  | [] => ([], [])
  | (key, value) :: rest =>
    let (values, lines) := known path rest
    let name := canonicalName key.display
    if names.contains name then ((name, value.setting) :: values, lines)
    else
      let complaint := "Unknown setting '" ++ key.display ++ "' in " ++ path ++ ", ignoring"
      (values, ⟨.warning, complaint⟩ :: lines)

/-- Settings with what the file of a project says. -/
def load (s : Store) (directory : String) (base : Settings) :
    Except SettingsError Settings × List Log.Line :=
  let path := Path.assemble [directory, fileName]
  match s.isFile path with
  | .error e => (.error (.file e), [])
  | .ok false => (.ok base, [])
  | .ok true =>
    match s.readText path with
    | .error e => (.error (.file e), [])
    | .ok text =>
      match Yaml.read text with
      | .error e => (.error (.unreadable e), [])
      | .ok (.map entries) =>
        let (values, lines) := known path entries
        match base.override? values with
        | some settings => (.ok settings, lines)
        | none => (.error .invalid, lines)
      | .ok value =>
        if value.isTruthy then
          (.ok base,
            [⟨.warning, "Ignoring " ++ path ++ ": expected a mapping, got " ++ value.kindName⟩])
        else (.ok ((base.override? []).getD base), [])

end Settings

end SpecTree
