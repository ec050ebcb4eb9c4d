import SpecTree.Path.Basic
import SpecTree.Text.Blank

/-!
# Output paths

A generated file names its own path below the output root. `normalize` gives each accepted path
one spelling and refuses those that are blank, absolute on any system, or lead out of the root.
-/

namespace SpecTree.OutputPath

/-- Why a path is refused. -/
inductive Reason where
  | empty
  | absolute
  | escapes
  deriving Repr, DecidableEq

def Reason.text : Reason → String
  | .empty => "path is empty"
  | .absolute => "absolute paths are not allowed"
  | .escapes => "path escapes the output directory"

/-- A path that is refused. -/
structure Refusal where
  path : String
  reason : Reason
  deriving Repr, DecidableEq

def Refusal.message (r : Refusal) : String :=
  "Invalid output path '" ++ r.path ++ "': " ++ r.reason.text

def slashes (cs : List Char) : List Char := cs.map fun c => if c = '\\' then '/' else c

def isAsciiLetter (c : Char) : Bool := ('A' ≤ c && c ≤ 'Z') || ('a' ≤ c && c ≤ 'z')

/-- A letter and a colon in front name a drive. -/
def startsWithDrive : List Char → Bool
  | c :: ':' :: _ => isAsciiLetter c
  | _ => false

/-- Two slashes, a machine, and a share on it after a single slash. -/
def startsWithShare (cs : List Char) : Bool :=
  match cs with
  | '/' :: '/' :: rest =>
    let (machine, after) := Text.splitWhile (· != '/') rest
    match after with
    | '/' :: share => !machine.isEmpty && share.head? != some '/'
    | _ => false
  | _ => false

/-- The mark for long names in front of a path, if it is there, and the path behind it; the word
for shares after the mark stands for one slash. -/
def splitMark (cs : List Char) : Bool × List Char :=
  match cs with
  | '/' :: '/' :: '?' :: '/' :: rest =>
    match rest with
    | 'U' :: 'N' :: 'C' :: '/' :: share => (true, '/' :: '/' :: share)
    | _ => (true, rest)
  | _ => (false, cs)

/-- Absolute where drives and shares are named: a share, or a slash after a drive or after the mark
for long names. Backslashes count as slashes. -/
def isDriveAbsolute (path : List Char) : Bool :=
  let (marked, body) := splitMark (slashes path)
  startsWithShare body
    || (if startsWithDrive body then (body.drop 2).head? == some '/'
        else marked && body.head? == some '/')

/-- A path that is the current directory or lies above it. -/
def leadsOut (cs : List Char) : Bool :=
  cs == Path.here || cs == Path.parent || ['.', '.', '/'].isPrefixOf cs

/-- The one spelling of a path below the output root. -/
def normalize (path : String) : Except Refusal String :=
  let cs := slashes (Text.stripChars path.toList)
  if cs.isEmpty then .error ⟨path, .empty⟩
  else if Path.isAbsoluteChars cs || startsWithDrive cs || isDriveAbsolute path.toList then
    .error ⟨path, .absolute⟩
  else
    let normal := Path.normalizeChars cs
    if leadsOut normal then .error ⟨path, .escapes⟩ else .ok (String.ofList normal)

end SpecTree.OutputPath
