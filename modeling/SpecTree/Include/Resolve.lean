import SpecTree.Include.Reader
import SpecTree.Include.Session
import SpecTree.Spec.Parser

/-!
# Resolving includes

Every include statement is replaced by what it stands for, at any depth of modules: a spec file by
its own statements, resolved in turn, any other file by one prose statement. A file is read and
resolved once in a session; a file that leads back into itself is reported and left out.

The recursion ends because each file it goes inside of is readable and not entered yet, and of
those there are finitely many.
-/

namespace SpecTree.Include

open Spec

/-- Statements and the session after them, which is inside the same files as before. -/
abbrev Resolving (s : Session) : Type :=
  { r : List Statement × Session // r.2.resolving = s.resolving }

/-- The statements that a file stands for at an include with the range `span`. -/
def Body.statements (span : Span) : Body → List Statement
  | .spec document => document.children
  | .text content => [.prose (Text.strip content) false span]

/-- The statements with every include replaced, in document order. -/
def resolveAll (r : Reader) (base : String) (statements : List Statement) (s : Session) :
    Resolving s :=
  match statements with
  | [] => ⟨([], s), rfl⟩
  | .inclusion written span :: rest =>
    let here : Resolving s :=
      if isRemote written then ⟨([], s.report [⟨.remoteImport, span⟩]), rfl⟩
      else
        let path := target s.extension base written
        if hcycle : path ∈ s.resolving then
          ⟨([], s.report [⟨.circularImport path, span⟩]), rfl⟩
        else
          match s.cached? path with
          | some found => ⟨(found.body.statements span, s), rfl⟩
          | none =>
            match hread : r.read? path with
            | none => ⟨([], s.countRead.report [⟨.unreadableImport path, span⟩]), rfl⟩
            | some content =>
              if path.endsWith s.extension then
                have hroom : r.room (path :: s.resolving) < r.room s.resolving :=
                  Reader.room_cons_lt hread hcycle
                let parsed := parseSource path content
                let inside : Session :=
                  { s.countRead.report parsed.problems with resolving := path :: s.resolving }
                let ⟨(children, after), h⟩ :=
                  resolveAll r (Path.directory path) parsed.document.children inside
                let document := { parsed.document with children }
                ⟨(children, (after.store path ⟨written, .spec document⟩).leave path),
                  Session.resolving_leave_of_cons h⟩
              else
                let body := Body.text content
                ⟨(body.statements span, s.countRead.store path ⟨written, body⟩), rfl⟩
    have hroom : r.room here.1.2.resolving = r.room s.resolving := by rw [here.2]
    let later := resolveAll r base rest here.1.2
    ⟨(here.1.1 ++ later.1.1, later.1.2), later.2.trans here.2⟩
  | .module header children span :: rest =>
    let here := resolveAll r base children s
    have hroom : r.room here.1.2.resolving = r.room s.resolving := by rw [here.2]
    let later := resolveAll r base rest here.1.2
    ⟨(.module header here.1.1 span :: later.1.1, later.1.2), later.2.trans here.2⟩
  | other :: rest =>
    let later := resolveAll r base rest s
    ⟨(other :: later.1.1, later.1.2), later.2⟩
termination_by (r.room s.resolving, sizeOf statements)
decreasing_by
  · exact Prod.Lex.left _ _ hroom
  · rw [hroom]
    exact Prod.Lex.right _ (by simp only [List.cons.sizeOf_spec]; omega)
  · exact Prod.Lex.right _
      (by simp only [List.cons.sizeOf_spec, Statement.module.sizeOf_spec]; omega)
  · rw [hroom]
    exact Prod.Lex.right _ (by simp only [List.cons.sizeOf_spec]; omega)
  · exact Prod.Lex.right _ (by simp only [List.cons.sizeOf_spec]; omega)

/-- A document without includes, and what is wrong with its files. -/
structure Resolved where
  document : Document
  imports : Table Import := {}
  problems : List Diagnostic := []

namespace Resolved

def hasErrors (r : Resolved) : Bool := r.problems.any Diagnostic.isError

/-- Whether some path that was to be read cannot be a path at all. -/
def hasUnusablePath (r : Resolved) : Bool :=
  r.problems.any fun d =>
    match d.problem with
    | .unreadableImport path | .unreadableFile path => path.contains '\x00'
    | _ => false

end Resolved

/-- Resolves a document that comes from the directory `base`. -/
def resolve (r : Reader) (base : String) (document : Document) (s : Session) :
    Resolved × Session :=
  let ⟨(children, after), _⟩ := resolveAll r base document.children s
  (⟨{ document with children }, after.imports, after.problems⟩, after)

/-- Reads, parses and resolves a file; one that cannot be read is an empty document. -/
def resolveFile (r : Reader) (file : String) (s : Session) : Resolved × Session :=
  let path := Path.normalize file
  match r.read? path with
  | none =>
    let empty := Span.empty path
    (⟨⟨[], empty⟩, {}, [⟨.unreadableFile path, empty⟩]⟩, s.countRead)
  | some content =>
    let parsed := parseSource path content
    let inside := { s.countRead with resolving := path :: s.resolving }
    let (resolved, after) := resolve r (Path.directory path) parsed.document inside
    ({ resolved with problems := parsed.problems ++ resolved.problems }, after.leave path)

end SpecTree.Include
