import SpecTree.Proofs.Include.Resolution
import SpecTree.Proofs.Path.Spelling
import SpecTree.Proofs.Spec.Origin

/-!
# Includes lead to paths

A character NUL cannot stand in a path. Where no text that is read holds one, every path that an
include leads to can be asked for (`resolveFile_usable`): the characters of the path come from the
including file, from the path of its directory and from the extension of spec files.
-/

namespace SpecTree.Include

open Spec

variable {r : Reader} {extension base : String}

/-! ## Texts without a NUL -/

/-- The text can stand in a path. -/
def IsUsable (text : String) : Prop := '\x00' ∉ text.toList

theorem IsUsable.normalize {path : String} (h : IsUsable path) : IsUsable (Path.normalize path) := by
  intro hc
  rw [Path.normalize, String.toList_ofList] at hc
  rcases Path.mem_normalizeChars hc with hc | hc | hc
  · exact h hc
  · cases hc
  · cases hc

theorem IsUsable.append {a b : String} (ha : IsUsable a) (hb : IsUsable b) : IsUsable (a ++ b) := by
  intro hc
  rw [String.toList_append, List.mem_append] at hc
  exact hc.elim ha hb

theorem IsUsable.join {base path : String} (hb : IsUsable base) (hp : IsUsable path) :
    IsUsable (Path.join base path) := by
  intro hc
  rw [Path.join, String.toList_ofList, Path.joinChars] at hc
  split at hc
  · exact hp hc
  · split at hc
    · exact (List.mem_append.1 hc).elim hb hp
    · rcases List.mem_append.1 hc with hc | hc
      · exact hb hc
      · exact (List.mem_cons.1 hc).elim (fun h => by cases h) hp

theorem IsUsable.directory {path : String} (h : IsUsable path) : IsUsable (Path.directory path) := by
  have hhead : '\x00' ∉ (path.toList.reverse.dropWhile (· != '/')).reverse := fun hc =>
    h (List.mem_reverse.1 ((List.dropWhile_suffix _).subset (List.mem_reverse.1 hc)))
  intro hc
  unfold Path.directory at hc
  dsimp only at hc
  split at hc
  · rw [String.toList_ofList] at hc
    exact hhead hc
  · rw [String.toList_ofList, List.mem_reverse] at hc
    exact hhead (List.mem_reverse.1 ((List.dropWhile_suffix _).subset hc))

theorem isUsable_ite {b : Bool} {yes no : String} (hy : IsUsable yes) (hn : IsUsable no) :
    IsUsable (if b then yes else no) := by
  split
  · exact hy
  · exact hn

/-- Where an include leads, it leads to a path. -/
theorem IsUsable.target {written : String} (he : IsUsable extension) (hb : IsUsable base)
    (hw : IsUsable written) : IsUsable (target extension base written) := by
  have hdot : IsUsable "./" := by
    unfold IsUsable
    decide
  have hanchored : IsUsable (if isAnchored written.toList then written else "./" ++ written) :=
    isUsable_ite hw (hdot.append hw)
  exact (hb.join (isUsable_ite hanchored (hanchored.append he))).normalize

/-! ## Runs -/

/-- What can be read, and what the names of spec files end with, can stand in a path. -/
structure Readable (r : Reader) (extension : String) : Prop where
  extension : IsUsable extension
  text : ∀ path content, r.read? path = some content → IsUsable content

/-- The problem is that a path could not be read, and it can be no path. -/
def NamesUnusable (d : Diagnostic) : Prop :=
  ∃ path, (d.problem = .unreadableImport path ∨ d.problem = .unreadableFile path) ∧ ¬ IsUsable path

theorem exists_namesUnusable {resolved : Resolved} (h : resolved.hasUnusablePath = true) :
    ∃ d ∈ resolved.problems, NamesUnusable d := by
  obtain ⟨d, hd, hn⟩ := List.any_eq_true.1 h
  refine ⟨d, hd, ?_⟩
  split at hn
  · next path hp => exact ⟨path, .inl hp, fun hu => hu (by simpa using hn)⟩
  · next path hp => exact ⟨path, .inr hp, fun hu => hu (by simpa using hn)⟩
  · cases hn

/-- The statements include paths. -/
def MentionsUsable (statements : List Statement) : Prop :=
  ∀ written, Mentions statements written → IsUsable written

theorem mentionsUsable_parseSource {file content : String} (h : IsUsable content) :
    MentionsUsable (parseSource file content).document.children :=
  fun _ hm hc => h (mem_source_of_mentions hm hc)

theorem MentionsUsable.tail {one : Statement} {rest : List Statement}
    (h : MentionsUsable (one :: rest)) : MentionsUsable rest :=
  fun written hm => h written (mentions_cons.2 (.inr hm))

theorem not_namesUnusable_of_isLocal {d : Diagnostic} (h : d.problem.isLocal = true) :
    ¬ NamesUnusable d := by
  rintro ⟨path, hd | hd, -⟩ <;> rw [hd] at h <;> cases h

theorem Answers.usable {written : String} {span : Span} {s after : Session} {out : List Statement}
    (h : Answers r base written span s out after)
    (hp : IsUsable (Include.target s.extension base written)) {d : Diagnostic}
    (hd : d ∈ after.problems) (hn : NamesUnusable d) : d ∈ s.problems := by
  cases h with
  | remote | circular =>
    refine (List.mem_append.1 hd).resolve_right fun hd => ?_
    obtain ⟨path, hpath, -⟩ := hn
    rw [List.mem_singleton.1 hd] at hpath
    simp at hpath
  | unreadable =>
    refine (List.mem_append.1 hd).resolve_right fun hd => ?_
    obtain ⟨path, hpath, hu⟩ := hn
    rw [List.mem_singleton.1 hd] at hpath
    simp only [Problem.unreadableImport.injEq, reduceCtorEq, or_false] at hpath
    exact hu (hpath ▸ hp)
  | cached | text => exact hd

/-- **No run asks for an unusable path.** -/
theorem Resolves.usable {statements out : List Statement} {s after : Session}
    (h : Resolves r base statements s out after) (hx : s.extension = extension)
    (hr : Readable r extension) (hb : IsUsable base) (hm : MentionsUsable statements)
    {d : Diagnostic} (hd : d ∈ after.problems) (hn : NamesUnusable d) : d ∈ s.problems := by
  induction h with
  | nil => exact hd
  | answer here there ih =>
    subst hx
    have hp := hr.extension.target hb (hm _ (.here List.mem_cons_self))
    exact here.usable hp (ih here.extension_eq hb hm.tail hd) hn
  | spec _ _ _ _ hread _ inside there ihi iht =>
    subst hx
    have hp := hr.extension.target hb (hm _ (.here List.mem_cons_self))
    have hd := ihi rfl hp.directory (mentionsUsable_parseSource (hr.text _ _ hread))
      (iht inside.extension_eq hb hm.tail hd)
    refine (List.mem_append.1 hd).resolve_right fun hd => ?_
    exact not_namesUnusable_of_isLocal (parseSource_problems_isLocal hd) hn
  | module inside there ihi iht =>
    have hd := iht (inside.extension_eq.trans hx) hb hm.tail hd
    exact ihi hx hb (fun _ hw => hm _ (.inside List.mem_cons_self hw)) hd
  | other _ _ _ ih => exact ih hx hb hm.tail hd

/-- The resolution of a file asks for no unusable path. -/
theorem resolveFile_usable {file : String} (hr : Readable r extension) (hf : IsUsable file) :
    (resolveFile r file { extension }).1.hasUnusablePath = false := by
  rw [Bool.eq_false_iff]
  intro h
  obtain ⟨d, hd, hn⟩ := exists_namesUnusable h
  cases hread : r.read? (Path.normalize file) with
  | none =>
    rw [resolveFile_unreadable _ hread] at hd
    obtain ⟨path, hpath, hu⟩ := hn
    rw [List.mem_singleton.1 hd] at hpath
    simp only [Problem.unreadableFile.injEq, reduceCtorEq, false_or] at hpath
    exact hu (hpath ▸ hf.normalize)
  | some content =>
    have run := resolves r (Path.directory (Path.normalize file))
      (parseSource (Path.normalize file) content).document.children
      (({ extension } : Session).begin (Path.normalize file))
    rw [resolveFile_of_resolves hread run] at hd
    rcases List.mem_append.1 hd with hd | hd
    · exact not_namesUnusable_of_isLocal (parseSource_problems_isLocal hd) hn
    · have hd := run.usable rfl hr hf.normalize.directory
        (mentionsUsable_parseSource (hr.text _ _ hread)) hd hn
      cases hd

end SpecTree.Include
