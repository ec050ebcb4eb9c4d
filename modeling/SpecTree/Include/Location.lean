import SpecTree.Path.Basic

/-!
# Where an include leads

The path of an include statement, as written, becomes the absolute path of a file: relative paths
start at the directory of the including file, and a path without an extension names a spec file.
-/

namespace SpecTree.Include

/-- Spec files end with this unless a project says otherwise. -/
def defaultExtension : String := ".aid"

def isAlphanumeric (c : Char) : Bool :=
  ('a' ≤ c && c ≤ 'z') || ('A' ≤ c && c ≤ 'Z') || ('0' ≤ c && c ≤ '9')

/-- A dot and letters or digits at the end of a path, where one final line end does not count. -/
def hasExtension (path : List Char) : Bool :=
  let backwards :=
    match path.reverse with
    | '\n' :: rest => rest
    | all => all
  let after := backwards.dropWhile isAlphanumeric
  after.length < backwards.length && after.head? == some '.'

/-- A path that says from where it starts. -/
def isAnchored (path : List Char) : Bool :=
  ['.', '/'].isPrefixOf path || ['.', '.', '/'].isPrefixOf path || Path.isAbsoluteChars path

/-- The file that an include of `path` in the directory `base` stands for. -/
def target (extension base path : String) : String :=
  let anchored := if isAnchored path.toList then path else "./" ++ path
  let complete := if hasExtension anchored.toList then anchored else anchored ++ extension
  Path.normalize (Path.join base complete)

/-- The path of a remote file. -/
def isRemote (path : String) : Bool := (path.splitOn "://").length > 1

end SpecTree.Include
