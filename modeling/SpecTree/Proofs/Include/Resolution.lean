import SpecTree.Include.Resolve

/-!
# What a resolution does

`Resolves` says how statements are resolved one after another, with the session before and after. An
include that leads into no file is answered at once (`Answers`); a spec file is gone into.

Every resolution goes by these rules (`resolves`), and they leave no choice (`Resolves.unique`), so that
what each rule preserves holds after every run.
-/

namespace SpecTree.Include

open Spec

variable {r : Reader} {base written : String} {span : Span} {s : Session}

/-- The include comes to `out` without going into a file. -/
inductive Answers (r : Reader) (base written : String) (span : Span) (s : Session) :
    List Statement → Session → Prop
  | remote (hw : isRemote written = true) :
      Answers r base written span s [] (s.report [⟨.remoteImport, span⟩])
  | circular (hw : isRemote written = false) (hn : target s.extension base written ∈ s.resolving) :
      Answers r base written span s []
        (s.report [⟨.circularImport (target s.extension base written), span⟩])
  | cached {found : Import} (hw : isRemote written = false)
      (hn : target s.extension base written ∉ s.resolving)
      (hc : s.cached? (target s.extension base written) = some found) :
      Answers r base written span s (found.body.statements span) s
  | unreadable (hw : isRemote written = false) (hn : target s.extension base written ∉ s.resolving)
      (hc : s.cached? (target s.extension base written) = none)
      (hr : r.read? (target s.extension base written) = none) :
      Answers r base written span s []
        (s.countRead.report [⟨.unreadableImport (target s.extension base written), span⟩])
  | text {content : String} (hw : isRemote written = false)
      (hn : target s.extension base written ∉ s.resolving)
      (hc : s.cached? (target s.extension base written) = none)
      (hr : r.read? (target s.extension base written) = some content)
      (he : (target s.extension base written).endsWith s.extension = false) :
      Answers r base written span s ((Body.text content).statements span)
        (s.countRead.store (target s.extension base written) ⟨written, .text content⟩)

/-- The session goes inside a spec file that it has just read. -/
def Session.goInside (s : Session) (path content : String) : Session :=
  { s.countRead.report (parseSource path content).problems with resolving := path :: s.resolving }

/-- The session comes out of a spec file that an include wrote as `written`. -/
def Session.comeOut (s : Session) (path written content : String) (children : List Statement) :
    Session :=
  (s.store path ⟨written, .spec { (parseSource path content).document with children }⟩).leave path

/-- The statements resolve to `out` and take the session from `s` to `after`. -/
inductive Resolves (r : Reader) :
    String → List Statement → Session → List Statement → Session → Prop
  | nil (base : String) (s : Session) : Resolves r base [] s [] s
  | answer {base written : String} {span : Span} {rest out later : List Statement}
      {s mid after : Session} (here : Answers r base written span s out mid)
      (there : Resolves r base rest mid later after) :
      Resolves r base (.inclusion written span :: rest) s (out ++ later) after
  | spec {base written content : String} (span : Span) {rest children later : List Statement}
      {s mid after : Session} (hw : isRemote written = false)
      (hn : target s.extension base written ∉ s.resolving)
      (hc : s.cached? (target s.extension base written) = none)
      (hr : r.read? (target s.extension base written) = some content)
      (he : (target s.extension base written).endsWith s.extension = true)
      (inside : Resolves r (Path.directory (target s.extension base written))
        (parseSource (target s.extension base written) content).document.children
        (s.goInside (target s.extension base written) content) children mid)
      (there : Resolves r base rest
        (mid.comeOut (target s.extension base written) written content children) later after) :
      Resolves r base (.inclusion written span :: rest) s (children ++ later) after
  | module {base : String} {header : Header} {span : Span} {children inner rest later : List Statement}
      {s mid after : Session} (inside : Resolves r base children s inner mid)
      (there : Resolves r base rest mid later after) :
      Resolves r base (.module header children span :: rest) s (.module header inner span :: later) after
  | other {base : String} {one : Statement} {rest later : List Statement} {s after : Session}
      (hi : ∀ written span, one ≠ .inclusion written span)
      (hm : ∀ header children span, one ≠ .module header children span)
      (there : Resolves r base rest s later after) :
      Resolves r base (one :: rest) s (one :: later) after

/-- **Every resolution goes by the rules.** -/
theorem resolves (r : Reader) (base : String) (statements : List Statement) (s : Session) :
    Resolves r base statements s (resolveAll r base statements s).1.1
      (resolveAll r base statements s).1.2 := by
  match statements with
  | [] =>
    rw [resolveAll]
    exact .nil base s
  | .inclusion written span :: rest =>
    -- Wherever the include leads, the statements after it are resolved from there.
    have whole (here : Resolving s)
        (h : ∀ {later after}, Resolves r base rest here.1.2 later after →
          Resolves r base (.inclusion written span :: rest) s (here.1.1 ++ later) after) :=
      h (resolves r base rest here.1.2)
    rw [resolveAll]
    refine whole _ ?_
    dsimp only
    intro later after
    split
    · next hw => exact .answer (.remote hw)
    · next hw =>
      have hw : isRemote written = false := by simpa using hw
      split
      · next hn => exact .answer (.circular hw hn)
      · next hn =>
        split
        · next found hc => exact .answer (.cached hw hn hc)
        · next hc =>
          split
          · next hr => exact .answer (.unreadable hw hn hc hr)
          · next content hr =>
            split
            · next he =>
              have hroom := Reader.room_cons_lt hr hn
              let path := target s.extension base written
              exact .spec span hw hn hc hr he (resolves r (Path.directory path)
                (parseSource path content).document.children (s.goInside path content))
            · next he => exact .answer (.text hw hn hc hr (by simpa using he))
  | .module header children span :: rest =>
    rw [resolveAll]
    exact .module (resolves r base children s) (resolves r base rest _)
  | .prose _ _ _ :: rest | .constraint _ _ _ :: rest | .param _ _ _ :: rest | .comment _ _ :: rest =>
    rw [resolveAll]
    · exact .other (by simp) (by simp) (resolves r base rest s)
    all_goals simp
termination_by (r.room s.resolving, sizeOf statements)
decreasing_by
  · rw [show r.room _ = r.room s.resolving from congrArg r.room (Subtype.property (_ : Resolving s))]
    exact Prod.Lex.right _ (by simp only [List.cons.sizeOf_spec]; omega)
  · exact Prod.Lex.left _ _ hroom
  · exact Prod.Lex.right _
      (by simp only [List.cons.sizeOf_spec, Statement.module.sizeOf_spec]; omega)
  · rw [(resolveAll r base children s).2]
    exact Prod.Lex.right _ (by simp only [List.cons.sizeOf_spec]; omega)
  all_goals exact Prod.Lex.right _ (by simp only [List.cons.sizeOf_spec]; omega)

/-! ## Coming out of a file -/

@[simp] theorem Session.comeOut_extension (s : Session) (path written content : String)
    (children : List Statement) : (s.comeOut path written content children).extension = s.extension :=
  rfl

theorem Session.comeOut_resolving {path : String} {outer : List String}
    (h : s.resolving = path :: outer) (written content : String) (children : List Statement) :
    (s.comeOut path written content children).resolving = outer :=
  resolving_leave_of_cons h

theorem Session.cached?_comeOut (s : Session) (path written content other : String)
    (children : List Statement) : (s.comeOut path written content children).cached? other =
      if other = path then
        some ⟨written, .spec { (parseSource path content).document with children }⟩
      else s.cached? other :=
  Table.get?_put _ _ _ _

/-! ## The rules leave no choice -/

theorem Answers.unique {out out' : List Statement} {after after' : Session}
    (h : Answers r base written span s out after) (k : Answers r base written span s out' after') :
    out' = out ∧ after' = after := by
  cases h <;> cases k <;> simp_all

/-- An include leads into a file or it does not. -/
theorem Answers.not_spec {out : List Statement} {after : Session} {content : String}
    (h : Answers r base written span s out after)
    (hw : isRemote written = false) (hn : target s.extension base written ∉ s.resolving)
    (hc : s.cached? (target s.extension base written) = none)
    (hr : r.read? (target s.extension base written) = some content) :
    (target s.extension base written).endsWith s.extension = false := by
  cases h <;> simp_all

theorem Resolves.unique {statements out out' : List Statement} {after after' : Session}
    (h : Resolves r base statements s out after) (k : Resolves r base statements s out' after') :
    out' = out ∧ after' = after := by
  induction h generalizing out' after' with
  | nil => cases k; exact ⟨rfl, rfl⟩
  | answer here _ ih =>
    cases k with
    | answer here' there' =>
      obtain ⟨rfl, rfl⟩ := here.unique here'
      obtain ⟨rfl, rfl⟩ := ih there'
      exact ⟨rfl, rfl⟩
    | spec _ hw hn hc hr he => exact absurd (here.not_spec hw hn hc hr) (by simp [he])
    | other hi => exact absurd rfl (hi _ _)
  | spec span hw hn hc hr he _ _ ihi iht =>
    cases k with
    | answer here' => exact absurd (here'.not_spec hw hn hc hr) (by simp [he])
    | spec _ _ _ _ hr' _ inside' there' =>
      cases hr.symm.trans hr'
      obtain ⟨rfl, rfl⟩ := ihi inside'
      obtain ⟨rfl, rfl⟩ := iht there'
      exact ⟨rfl, rfl⟩
    | other hi => exact absurd rfl (hi _ _)
  | module _ _ ihi iht =>
    cases k with
    | module inside' there' =>
      obtain ⟨rfl, rfl⟩ := ihi inside'
      obtain ⟨rfl, rfl⟩ := iht there'
      exact ⟨rfl, rfl⟩
    | other _ hm => exact absurd rfl (hm _ _ _)
  | other hi hm _ ih =>
    cases k with
    | answer => exact absurd rfl (hi _ _)
    | spec => exact absurd rfl (hi _ _)
    | module => exact absurd rfl (hm _ _ _)
    | other _ _ there' =>
      obtain ⟨rfl, rfl⟩ := ih there'
      exact ⟨rfl, rfl⟩

/-! ## What stays as it was -/

theorem Answers.extension_eq {out : List Statement} {after : Session}
    (h : Answers r base written span s out after) : after.extension = s.extension := by
  cases h <;> rfl

theorem Resolves.extension_eq {statements out : List Statement} {after : Session}
    (h : Resolves r base statements s out after) : after.extension = s.extension := by
  induction h with
  | nil => rfl
  | answer here _ ih => exact ih.trans here.extension_eq
  | spec _ _ _ _ _ _ _ _ ihi iht => exact iht.trans ihi
  | module _ _ ihi iht => exact iht.trans ihi
  | other _ _ _ ih => exact ih

theorem Answers.resolving_eq {out : List Statement} {after : Session}
    (h : Answers r base written span s out after) : after.resolving = s.resolving := by
  cases h <;> rfl

/-- The session comes out of every file that it goes into. -/
theorem Resolves.resolving_eq {statements out : List Statement} {after : Session}
    (h : Resolves r base statements s out after) : after.resolving = s.resolving := by
  rw [(h.unique (resolves r base statements s)).2.symm]
  exact (resolveAll r base statements s).2

theorem Answers.problems_prefix {out : List Statement} {after : Session}
    (h : Answers r base written span s out after) : s.problems <+: after.problems := by
  cases h with
  | remote | circular | unreadable => exact List.prefix_append _ _
  | cached | text => exact List.prefix_refl _

/-- No problem is forgotten. -/
theorem Resolves.problems_prefix {statements out : List Statement} {after : Session}
    (h : Resolves r base statements s out after) : s.problems <+: after.problems := by
  induction h with
  | nil => exact List.prefix_refl _
  | answer here _ ih => exact here.problems_prefix.trans ih
  | spec _ _ _ _ _ _ _ _ ihi iht => exact (List.prefix_append _ _).trans (ihi.trans iht)
  | module _ _ ihi iht => exact ihi.trans iht
  | other _ _ _ ih => exact ih

/-! ## Files -/

/-- The problem that a file leads back into itself. -/
def IsCircular (d : Diagnostic) : Prop := ∃ path, d.problem = .circularImport path

/-- The session inside the file that a resolution starts from. -/
def Session.begin (s : Session) (path : String) : Session :=
  { s.countRead with resolving := path :: s.resolving }

/-- What becomes of a file whose statements resolve to `children`. -/
def Resolved.of (parsed : Parsed) (children : List Statement) (after : Session) : Resolved :=
  ⟨{ parsed.document with children }, after.imports, parsed.problems ++ after.problems⟩

theorem resolveFile_unreadable {file : String} (s : Session)
    (h : r.read? (Path.normalize file) = none) :
    resolveFile r file s = (⟨⟨[], .empty (Path.normalize file)⟩, {},
      [⟨.unreadableFile (Path.normalize file), .empty (Path.normalize file)⟩]⟩, s.countRead) := by
  unfold resolveFile
  dsimp only
  split
  · rfl
  · next hf => cases h.symm.trans hf

/-- A file that can be read is resolved by the rules. -/
theorem resolveFile_of_resolves {file content : String} {children : List Statement} {after : Session}
    (h : r.read? (Path.normalize file) = some content)
    (run : Resolves r (Path.directory (Path.normalize file))
      (parseSource (Path.normalize file) content).document.children (s.begin (Path.normalize file))
      children after) :
    resolveFile r file s = (.of (parseSource (Path.normalize file) content) children after,
      after.leave (Path.normalize file)) := by
  unfold resolveFile
  dsimp only
  split
  · next hn => cases h.symm.trans hn
  · next found hf =>
    cases h.symm.trans hf
    obtain ⟨rfl, rfl⟩ := run.unique (resolves r _ _ _)
    rfl

end SpecTree.Include
