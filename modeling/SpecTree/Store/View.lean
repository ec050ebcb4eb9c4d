import SpecTree.Store.Basic
import SpecTree.Text.Lossy

/-!
# Looking at a store from outside

What lies below a directory, and changes that a user of the files makes by hand.
-/

namespace SpecTree.Store

/-- What a file shows, also where it is no text. -/
def shownText : Content → String
  | .text t => t
  | .bytes b => String.ofList (Text.shown b.toList)

/-- What an entry with a name shows: the text of a file, and an empty directory as a name that ends
in a slash. Other directories show nothing; a link shows what it leads to. -/
def shownAs (s : Store) (name : String) (p : Place) :
    Except FileError (Option (String × Option String)) := do
  match ← s.find true (pathOf p) with
  | (_, .file content) => return some (name, some (shownText content))
  | (place, _) => return if (s.childrenOf place).isEmpty then some (name ++ "/", none) else none

/-- What lies below a directory, by its path from there. What lies behind linked directories is left
out, and a link has to lead somewhere. -/
def below (s : Store) (path : String) : Except FileError (List (String × Option String)) := do
  match s.find true path with
  | .ok (base, .directory) =>
    let inside := s.entries.filter fun (p, _) => p != base && base.isPrefixOf p
    let shown ← inside.filterMapM fun (p, _) =>
      s.shownAs (String.intercalate "/" (p.drop base.length)) p
    return shown.mergeSort fun a b => a.1 ≤ b.1
  | _ => return []

/-- Makes a link in a directory that exists. -/
def makeLink (s : Store) (path target : String) : Except FileError Store := do
  let place ← s.locate false path
  match s.entry? place with
  | some _ => throw (.alreadyExists path)
  | none => return s.set place (.link (Path.parts target))

/-- Removes what is at a path: a file, a link or a whole tree. -/
def remove (s : Store) (path : String) : Except FileError Store := do
  match ← s.find false path with
  | (place, _) => return s.prune place

end SpecTree.Store
