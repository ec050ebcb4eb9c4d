import SpecTree.Text.Pieces

/-!
# Paths

Paths are texts whose components stand between slashes. Everything here is lexical: no file is
looked at.

1. `normalize` drops empty components and those for the same directory, and lets each parent step
   cancel the component before it.
2. `join` and `assemble` put paths together; an absolute part discards what precedes it.
3. `directory` and `extension?` take a path apart.
-/

namespace SpecTree.Path

def isAbsoluteChars (p : List Char) : Bool := ['/'].isPrefixOf p

/-! ## Components -/

def here : List Char := ['.']

def parent : List Char := ['.', '.']

/-- The components of a path, without empty ones and those for the same directory. -/
def components (p : List Char) : List (List Char) :=
  (Text.pieces '/' p).filter fun c => !c.isEmpty && c != here

/-- The components of a path; parent steps are kept. -/
def parts (p : String) : List String := (components p.toList).map String.ofList

/-- The leading slashes as they count: two of them are kept, more are the same as one. -/
def root (p : List Char) : List Char :=
  match p.takeWhile (· == '/') with
  | [] => []
  | ['/', '/'] => ['/', '/']
  | _ => ['/']

/-! ## Normal form -/

/-- One more component on the stack of those so far, last one first; above the root there is
nothing. -/
def push (rooted : Bool) (stack : List (List Char)) (c : List Char) : List (List Char) :=
  if c = parent then
    match stack with
    | [] => if rooted then [] else [parent]
    | top :: below => if top = parent then parent :: stack else below
  else c :: stack

/-- The components with the parent steps resolved as far as they can be. -/
def resolveParents (rooted : Bool) (cs : List (List Char)) : List (List Char) :=
  (cs.foldl (push rooted) []).reverse

def normalizeChars (p : List Char) : List Char :=
  let body := Text.joinPieces '/' (resolveParents (isAbsoluteChars p) (components p))
  match root p ++ body with
  | [] => here
  | text => text

/-- The same place without detours; the empty path is the current directory. -/
def normalize (p : String) : String := String.ofList (normalizeChars p.toList)

/-! ## Putting paths together -/

/-- `p` as seen from the directory `base`. -/
def joinChars (base p : List Char) : List Char :=
  if isAbsoluteChars p then p
  else if base.isEmpty || base.getLast? == some '/' then base ++ p
  else base ++ '/' :: p

def join (base p : String) : String := String.ofList (joinChars base.toList p.toList)

/-- The parts from the last absolute one on. -/
def fromLastAbsolute : List (List Char) → List (List Char)
  | [] => []
  | p :: ps => if ps.any isAbsoluteChars then fromLastAbsolute ps else p :: ps

def assembleChars (ps : List (List Char)) : List Char :=
  let used := fromLastAbsolute ps
  match root (used.headD []) ++ Text.joinPieces '/' (used.flatMap components) with
  | [] => here
  | text => text

/-- One path from several parts, parent steps kept as they are. -/
def assemble (ps : List String) : String := String.ofList (assembleChars (ps.map String.toList))

/-! ## Taking paths apart -/

/-- Everything before the last component. -/
def directory (p : String) : String :=
  let head := (p.toList.reverse.dropWhile (· != '/')).reverse
  if head.all (· == '/') then String.ofList head
  else String.ofList (head.reverse.dropWhile (· == '/')).reverse

/-- The last component. -/
def fileName (p : String) : String :=
  String.ofList (p.toList.reverse.takeWhile (· != '/')).reverse

/-- What follows the last dot of the last component; dots in front do not count. -/
def extension? (p : String) : Option String :=
  let name := (p.toList.reverse.takeWhile (· != '/')).reverse.dropWhile (· == '.')
  if name.contains '.' then
    some (String.ofList (name.reverse.takeWhile (· != '.')).reverse)
  else none

end SpecTree.Path
