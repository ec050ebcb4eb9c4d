import SpecTree.Include.Location
import SpecTree.Spec.Diagnostic
import SpecTree.Spec.Statement
import SpecTree.Table

/-!
# Sessions

What one resolution of includes has seen so far: the files it has taken in, those it is inside of,
what is wrong with them, and how many it has opened.
-/

namespace SpecTree.Include

open Spec

/-- A file taken in by an include: a resolved spec, or any other text. -/
inductive Body where
  | spec (document : Document)
  | text (content : String)

structure Import where
  /-- The path as the first include wrote it. -/
  written : String
  body : Body

structure Session where
  extension : String := defaultExtension
  imports : Table Import := {}
  /-- The files being resolved, innermost first. -/
  resolving : List String := []
  problems : List Diagnostic := []
  reads : Nat := 0

namespace Session

def cached? (s : Session) (path : String) : Option Import := s.imports.get? path

def store (s : Session) (path : String) (i : Import) : Session :=
  { s with imports := s.imports.put path i }

/-- Goes inside a file; `none` if the session is inside of it already. -/
def enter? (s : Session) (path : String) : Option Session :=
  if path ∈ s.resolving then none else some { s with resolving := path :: s.resolving }

def leave (s : Session) (path : String) : Session :=
  { s with resolving := s.resolving.erase path }

def report (s : Session) (ds : List Diagnostic) : Session :=
  { s with problems := s.problems ++ ds }

def countRead (s : Session) : Session := { s with reads := s.reads + 1 }

@[simp] theorem resolving_store (s : Session) (path : String) (i : Import) :
    (s.store path i).resolving = s.resolving := rfl

@[simp] theorem resolving_report (s : Session) (ds : List Diagnostic) :
    (s.report ds).resolving = s.resolving := rfl

@[simp] theorem resolving_countRead (s : Session) : s.countRead.resolving = s.resolving := rfl

theorem resolving_leave_of_cons {s : Session} {path : String} {ps : List String}
    (h : s.resolving = path :: ps) : (s.leave path).resolving = ps := by
  simp [leave, h]

end Session

end SpecTree.Include
