import SpecTree.Path.Basic
import SpecTree.Text.Blank

/-!
# Stores of files

A store maps places to files, directories and links. A place is the list of the names from the
root down; the root itself is always a directory.

1. `locate` follows a path to a place, through links and parent steps.
2. Reading: `readText` gives a file's text with the line ends unified.
3. Writing: files, directories with all their parents, and removal of whole trees.

Operations fail for the causes a file system has.
-/

namespace SpecTree

/-- What a file holds: text, or bytes that are no text. -/
inductive Content where
  | text (s : String)
  | bytes (b : ByteArray)

namespace Content

/-- Bytes are text when they are well-formed. -/
def ofBytes (b : ByteArray) : Content :=
  match String.fromUTF8? b with
  | some s => .text s
  | none => .bytes b

end Content

inductive Entry where
  | file (content : Content)
  | directory
  | link (target : List String)

/-- Why an operation on files fails. -/
inductive FileError where
  | missing (path : String)
  | notDirectory (path : String)
  | isDirectory (path : String)
  | alreadyExists (path : String)
  | nameTooLong (path : String)
  | tooManyLinks (path : String)
  | linkedTree
  | notText
  | zeroCharacter
  deriving Repr, DecidableEq

namespace FileError

def message : FileError → String
  | missing p => "[Errno 2] No such file or directory: '" ++ p ++ "'"
  | alreadyExists p => "[Errno 17] File exists: '" ++ p ++ "'"
  | notDirectory p => "[Errno 20] Not a directory: '" ++ p ++ "'"
  | isDirectory p => "[Errno 21] Is a directory: '" ++ p ++ "'"
  | nameTooLong p => "[Errno 36] File name too long: '" ++ p ++ "'"
  | tooManyLinks p => "[Errno 40] Too many levels of symbolic links: '" ++ p ++ "'"
  | linkedTree => "[Errno 40] A link is not removed as a tree"
  | notText => "The file is not valid text"
  | zeroCharacter => "embedded null byte"

/-- Errors of the file system proper, as opposed to unusable names and contents. -/
def isSystem : FileError → Bool
  | notText | zeroCharacter => false
  | _ => true

/-- Errors that mean no more than that nothing is there. -/
def meansAbsent : FileError → Bool
  | missing _ | notDirectory _ | tooManyLinks _ | zeroCharacter => true
  | _ => false

end FileError

/-- The names from the root down. -/
abbrev Place := List String

/-- Entries in the order in which they were made. -/
structure Store where
  entries : List (Place × Entry)

namespace Store

/-- The bytes that a file name has at most. -/
def nameLimit : Nat := 255

/-- The bytes that a path has at most, with the mark at its end. -/
def pathLimit : Nat := 4096

/-- The links that one path leads through at most. -/
def linkLimit : Nat := 40

def empty : Store := ⟨[]⟩

def entry? (s : Store) (p : Place) : Option Entry :=
  if p.isEmpty then some .directory else s.entries.lookup p

def set (s : Store) (p : Place) (e : Entry) : Store :=
  if s.entries.any (·.1 == p) then
    ⟨s.entries.map fun (q, old) => if q = p then (q, e) else (q, old)⟩
  else ⟨s.entries ++ [(p, e)]⟩

/-- Without the entry at `p` and all that lies below it. -/
def prune (s : Store) (p : Place) : Store :=
  ⟨s.entries.filter fun (q, _) => !p.isPrefixOf q⟩

/-- The names directly inside a place, in ascending order, with their entries. -/
def childrenOf (s : Store) (p : Place) : List (String × Entry) :=
  let inside := s.entries.filterMap fun (q, e) =>
    match q.getLast? with
    | some name => if q.dropLast = p then some (name, e) else none
    | none => none
  inside.mergeSort fun a b => a.1 ≤ b.1

/-! ## Following paths -/

/-- Where the names in `todo` lead from the directory at `place`. The last name need not exist;
a link in its place is followed only if `follow`. -/
def walk (s : Store) (path : String) (follow : Bool) (links : Nat) (place : Place) :
    List String → Except FileError Place
  | [] => .ok place
  | name :: rest =>
    if name.utf8ByteSize > nameLimit then .error (.nameTooLong path)
    else if name = ".." then walk s path follow links place.dropLast rest
    else
      match s.entry? (place ++ [name]) with
      | some .directory => walk s path follow links (place ++ [name]) rest
      | some (.file _) =>
        if rest.isEmpty then .ok (place ++ [name]) else .error (.notDirectory path)
      | some (.link target) =>
        if rest.isEmpty && !follow then .ok (place ++ [name])
        else
          match links with
          | 0 => .error (.tooManyLinks path)
          | links + 1 => walk s path follow links [] (target ++ rest)
      | none => if rest.isEmpty then .ok (place ++ [name]) else .error (.missing path)
termination_by todo => (links, todo.length)

/-- Checks a path and follows it from the root; the last name's own link only if `follow`. -/
def locate (s : Store) (follow : Bool) (path : String) : Except FileError Place :=
  if path.contains '\x00' then .error .zeroCharacter
  else if path.utf8ByteSize ≥ pathLimit then .error (.nameTooLong path)
  else walk s path follow linkLimit [] (Path.parts path)

/-- The place and the entry that a path leads to. -/
def find (s : Store) (follow : Bool) (path : String) : Except FileError (Place × Entry) := do
  let place ← s.locate follow path
  match s.entry? place with
  | some e => return (place, e)
  | none => throw (.missing path)

/-- A question about the entry at a path; where nothing is, the answer is no. -/
def ask (s : Store) (question : Entry → Bool) (path : String) : Except FileError Bool :=
  match s.find true path with
  | .ok (_, e) => .ok (question e)
  | .error e => if e.meansAbsent then .ok false else .error e

def isFile (s : Store) (path : String) : Except FileError Bool :=
  s.ask (· matches .file _) path

def isDirectory (s : Store) (path : String) : Except FileError Bool :=
  s.ask (· matches .directory) path

def isPresent (s : Store) (path : String) : Except FileError Bool :=
  s.ask (fun _ => true) path

/-- The place that a path names when its links are followed as far as there are files. -/
def settle (s : Store) (links : Nat) (place : Place) : List String → Place
  | [] => place
  | name :: rest =>
    if name = ".." then settle s links place.dropLast rest
    else
      match s.entry? (place ++ [name]) with
      | some (.link target) =>
        match links with
        | 0 => settle s 0 (place ++ [name]) rest
        | links + 1 => settle s links [] (target ++ rest)
      | _ => settle s links (place ++ [name]) rest
termination_by todo => (links, todo.length)

def pathOf (place : Place) : String := "/" ++ String.intercalate "/" place

/-- The path without links and detours. -/
def canonical (s : Store) (path : String) : String :=
  pathOf (s.settle linkLimit [] (Path.parts path))

/-! ## Reading -/

/-- The text of a file, its line ends unified. -/
def readText (s : Store) (path : String) : Except FileError String := do
  match (← s.find true path).2 with
  | .file (.text t) => return String.ofList (Text.unifyLineEnds t.toList)
  | .file (.bytes _) => throw .notText
  | _ => throw (.isDirectory path)

/-- The names inside a directory, in ascending order, with what they stand for. -/
def list (s : Store) (path : String) : Except FileError (List (String × Entry)) := do
  match ← s.find true path with
  | (place, .directory) => return s.childrenOf place
  | _ => throw (.notDirectory path)

/-! ## Writing -/

/-- Puts content into a file, which is made if it does not exist. -/
def write (s : Store) (path : String) (content : Content) : Except FileError Store := do
  let place ← s.locate true path
  match s.entry? place with
  | some .directory => throw (.isDirectory path)
  | _ => return s.set place (.file content)

/-- Makes one directory in a directory that exists. -/
def makeDirectory (s : Store) (path : String) : Except FileError Store := do
  let place ← s.locate false path
  match s.entry? place with
  | some _ => throw (.alreadyExists path)
  | none => return s.set place .directory

/-- Makes a directory unless there is one already; its parent exists. -/
def ensureDirectory (s : Store) (path : String) : Except FileError Store :=
  match s.makeDirectory path with
  | .ok s => .ok s
  | .error e => do if ← s.isDirectory path then return s else throw e

/-- Makes the directory with the given names, last one first, and before it the directories that
lead to it, as far as they are missing. What was made before a failure stays. -/
def makePath (s : Store) : Place → Store × Option FileError
  | [] => (s, none)
  | name :: above =>
    let path := pathOf (name :: above).reverse
    match s.ensureDirectory path with
    | .ok s => (s, none)
    | .error (.missing _) =>
      match makePath s above with
      | (s, some e) => (s, some e)
      | (s, none) =>
        match s.ensureDirectory path with
        | .ok s => (s, none)
        | .error e => (s, some e)
    | .error e => (s, some e)

/-- Makes a directory and those that lead to it. -/
def makeDirectories (s : Store) (path : String) : Store × Option FileError :=
  makePath s (Path.parts path).reverse

/-- Puts content into a file and makes the directories that lead to it. -/
def writeDeep (s : Store) (path : String) (content : Content) : Store × Option FileError :=
  match s.makeDirectories (Path.directory path) with
  | (s, some e) => (s, some e)
  | (s, none) =>
    match s.write path content with
    | .ok s => (s, none)
    | .error e => (s, some e)

/-- Removes a directory with all that it holds; a link to one is refused. -/
def removeTree (s : Store) (path : String) : Except FileError Store := do
  match ← s.find false path with
  | (place, .directory) => return s.prune place
  | (_, .link _) => throw .linkedTree
  | (_, .file _) => throw (.notDirectory path)

/-- Removes a file or a link. -/
def removeFile (s : Store) (path : String) : Except FileError Store := do
  match ← s.find false path with
  | (_, .directory) => throw (.isDirectory path)
  | (place, _) => return s.prune place

end Store

end SpecTree
