import Mathlib
import SpecTree.Proofs.Include.Resolution
import SpecTree.Proofs.Spec.Reading

/-!
# Resolution is inlining

`Inlines` replaces includes by what they stand for and remembers nothing: a spec file is read, parsed
and inlined again at every include of it. A resolution in which no file leads back into itself comes to
the same tree (`resolveFile_eq_iff_inlines`), although its session gives out what it made of a file at
the first include.

The invariant is that the session remembers of a file only what the file stands for (`Remembers`).
-/

namespace SpecTree.Include

open Spec

variable {r : Reader} {extension base : String}

/-! ## Inlining -/

/-- The statements, which stand in the directory `base`, with every include replaced by what it stands
for. -/
inductive Inlines (r : Reader) (extension : String) : String → List Statement → List Statement → Prop
  | nil (base : String) : Inlines r extension base [] []
  | nothing {base written : String} (span : Span) {rest out : List Statement}
      (h : isRemote written = true ∨ r.read? (target extension base written) = none)
      (there : Inlines r extension base rest out) :
      Inlines r extension base (.inclusion written span :: rest) out
  | text {base written content : String} (span : Span) {rest out : List Statement}
      (hw : isRemote written = false) (h : r.read? (target extension base written) = some content)
      (he : (target extension base written).endsWith extension = false)
      (there : Inlines r extension base rest out) :
      Inlines r extension base (.inclusion written span :: rest)
        (.prose (Text.strip content) false span :: out)
  | spec {base written content : String} (span : Span) {rest children out : List Statement}
      (hw : isRemote written = false) (h : r.read? (target extension base written) = some content)
      (he : (target extension base written).endsWith extension = true)
      (inside : Inlines r extension (Path.directory (target extension base written))
        (parseSource (target extension base written) content).document.children children)
      (there : Inlines r extension base rest out) :
      Inlines r extension base (.inclusion written span :: rest) (children ++ out)
  | module {base : String} {header : Header} {children inner rest out : List Statement} {span : Span}
      (inside : Inlines r extension base children inner) (there : Inlines r extension base rest out) :
      Inlines r extension base (.module header children span :: rest) (.module header inner span :: out)
  | other {base : String} {one : Statement} {rest out : List Statement}
      (hi : ∀ written span, one ≠ .inclusion written span)
      (hm : ∀ header children span, one ≠ .module header children span)
      (there : Inlines r extension base rest out) : Inlines r extension base (one :: rest) (one :: out)

/-- Statements are inlined in one way. -/
theorem Inlines.unique {statements out out' : List Statement}
    (h : Inlines r extension base statements out) (k : Inlines r extension base statements out') :
    out' = out := by
  induction h generalizing out' with
  | nil => cases k; rfl
  | nothing span h _ ih =>
    cases k with
    | nothing _ _ there => exact ih there
    | text _ hw h' => exact absurd h (by simp [hw, h'])
    | spec _ hw h' => exact absurd h (by simp [hw, h'])
    | other hi => exact absurd rfl (hi _ _)
  | text span hw h he _ ih =>
    cases k with
    | nothing _ h' => exact absurd h' (by simp [hw, h])
    | text _ _ h' _ there =>
      cases h.symm.trans h'
      rw [ih there]
    | spec _ _ _ he' => exact absurd he (by simp [he'])
    | other hi => exact absurd rfl (hi _ _)
  | spec span hw h he _ _ ihi iht =>
    cases k with
    | nothing _ h' => exact absurd h' (by simp [hw, h])
    | text _ _ _ he' => exact absurd he (by simp [he'])
    | spec _ _ h' _ inside there =>
      cases h.symm.trans h'
      rw [ihi inside, iht there]
    | other hi => exact absurd rfl (hi _ _)
  | module _ _ ihi iht =>
    cases k with
    | module inside there => rw [ihi inside, iht there]
    | other _ hm => exact absurd rfl (hm _ _ _)
  | other hi hm _ ih =>
    cases k with
    | nothing => exact absurd rfl (hi _ _)
    | text => exact absurd rfl (hi _ _)
    | spec => exact absurd rfl (hi _ _)
    | module => exact absurd rfl (hm _ _ _)
    | other _ _ there => rw [ih there]

/-- The document of a file, inlined; a file that cannot be read is an empty document. -/
inductive InlinesFile (r : Reader) (extension path : String) : Document → Prop
  | unreadable (h : r.read? path = none) : InlinesFile r extension path ⟨[], .empty path⟩
  | parsed {content : String} {children : List Statement} (h : r.read? path = some content)
      (inside : Inlines r extension (Path.directory path)
        (parseSource path content).document.children children) :
      InlinesFile r extension path { (parseSource path content).document with children }

theorem InlinesFile.unique {path : String} {d d' : Document} (h : InlinesFile r extension path d)
    (k : InlinesFile r extension path d') : d' = d := by
  cases h with
  | unreadable h =>
    cases k with
    | unreadable => rfl
    | parsed h' => cases h.symm.trans h'
  | parsed h inside =>
    cases k with
    | unreadable h' => cases h.symm.trans h'
    | parsed h' inside' =>
      cases h.symm.trans h'
      rw [inside.unique inside']

/-! ## What a session remembers -/

/-- What became of a file is what it stands for. -/
inductive Stands (r : Reader) (extension path : String) : Body → Prop
  | text {content : String} (h : r.read? path = some content) (he : path.endsWith extension = false) :
      Stands r extension path (.text content)
  | spec {content : String} {document : Document} (h : r.read? path = some content)
      (he : path.endsWith extension = true)
      (inside : Inlines r extension (Path.directory path)
        (parseSource path content).document.children document.children) :
      Stands r extension path (.spec document)

/-- The session remembers of a file only what it stands for. -/
def Remembers (r : Reader) (s : Session) : Prop :=
  ∀ path found, s.cached? path = some found → Stands r s.extension path found.body

theorem remembers_fresh (r : Reader) (extension : String) : Remembers r { extension } := by
  intro path found h
  cases h

theorem Remembers.store {s : Session} {path : String} {i : Import} (h : Remembers r s)
    (hi : Stands r s.extension path i.body) : Remembers r (s.store path i) := by
  intro other found hf
  rw [Session.cached?, Session.store, Table.get?_put] at hf
  split at hf
  · next hp =>
    cases hf
    exact hp ▸ hi
  · exact h other found hf

/-- An include of a file that is remembered is inlined. -/
theorem Stands.inlines {written : String} {body : Body} {rest out : List Statement}
    (hw : isRemote written = false) (span : Span)
    (h : Stands r extension (target extension base written) body)
    (there : Inlines r extension base rest out) :
    Inlines r extension base (.inclusion written span :: rest) (body.statements span ++ out) := by
  cases h with
  | text h he => exact .text span hw h he there
  | spec h he inside => exact .spec span hw h he inside there

/-! ## Runs -/

theorem Answers.remembers {written : String} {span : Span} {out : List Statement} {s after : Session}
    (h : Answers r base written span s out after) (hm : Remembers r s) : Remembers r after := by
  cases h with
  | remote | circular | cached | unreadable => exact hm
  | text _ _ _ hr he => exact Remembers.store hm (.text hr he)

/-- An include that leads into no file is inlined, unless it closes a circle. -/
theorem Answers.inlines {written : String} {span : Span} {here rest out : List Statement}
    {s mid : Session} (h : Answers r base written span s here mid)
    (hq : ∀ d ∈ mid.problems, ¬ IsCircular d) (hm : Remembers r s)
    (there : Inlines r s.extension base rest out) :
    Inlines r s.extension base (.inclusion written span :: rest) (here ++ out) := by
  cases h with
  | remote hw => exact .nothing span (.inl hw) there
  | circular => exact absurd ⟨_, rfl⟩ (hq _ (List.mem_append_right _ (List.mem_singleton_self _)))
  | cached hw _ hc => exact (hm _ _ hc).inlines hw span there
  | unreadable _ _ _ hr => exact .nothing span (.inr hr) there
  | text hw _ _ hr he => exact .text span hw hr he there

/-- **A resolution that meets no circle inlines**, and remembers only what files stand for. -/
theorem Resolves.inlines {statements out : List Statement} {s after : Session}
    (h : Resolves r base statements s out after) (hq : ∀ d ∈ after.problems, ¬ IsCircular d)
    (hm : Remembers r s) : Inlines r s.extension base statements out ∧ Remembers r after := by
  induction h with
  | nil base => exact ⟨.nil base, hm⟩
  | @answer base written span rest out later s mid after here there ih =>
    obtain ⟨hrest, hafter⟩ := ih hq (here.remembers hm)
    rw [here.extension_eq] at hrest
    exact ⟨here.inlines (fun d hd => hq d (there.problems_prefix.subset hd)) hm hrest, hafter⟩
  | @spec base written content span rest children later s mid after hw hn hc hr he inside there
      ihi iht =>
    obtain ⟨hchildren, hmid⟩ := ihi (fun d hd => hq d (there.problems_prefix.subset hd)) hm
    have hs : Stands r s.extension (target s.extension base written)
        (.spec { (parseSource (target s.extension base written) content).document with children }) :=
      .spec hr he hchildren
    obtain ⟨hrest, hafter⟩ := iht hq (Remembers.store hmid (inside.extension_eq ▸ hs))
    rw [show (mid.comeOut _ _ _ _).extension = s.extension from inside.extension_eq] at hrest
    exact ⟨hs.inlines hw span hrest, hafter⟩
  | module inside there ihi iht =>
    obtain ⟨hchildren, hmid⟩ := ihi (fun d hd => hq d (there.problems_prefix.subset hd)) hm
    obtain ⟨hrest, hafter⟩ := iht hq hmid
    rw [inside.extension_eq] at hrest
    exact ⟨.module hchildren hrest, hafter⟩
  | other hi hm' _ ih =>
    obtain ⟨hrest, hafter⟩ := ih hq hm
    exact ⟨.other hi hm' hrest, hafter⟩

/-- **The session is invisible in the tree.** If a fresh session meets no file that leads back into
itself, the document of a file is what inlining makes of it, spans included. -/
theorem resolveFile_eq_iff_inlines (r : Reader) (extension file : String)
    (hq : ∀ d ∈ (resolveFile r file { extension }).1.problems, ¬ IsCircular d) (d : Document) :
    InlinesFile r extension (Path.normalize file) d
      ↔ d = (resolveFile r file { extension }).1.document := by
  suffices h : InlinesFile r extension (Path.normalize file)
      (resolveFile r file { extension }).1.document from
    ⟨fun hd => h.unique hd, fun hd => hd ▸ h⟩
  cases h : r.read? (Path.normalize file) with
  | none =>
    rw [resolveFile_unreadable _ h]
    exact .unreadable h
  | some content =>
    have run := resolves r (Path.directory (Path.normalize file))
      (parseSource (Path.normalize file) content).document.children
      (({ extension } : Session).begin (Path.normalize file))
    rw [resolveFile_of_resolves h run] at hq ⊢
    refine .parsed h (run.inlines (fun d hd => hq d ?_) (remembers_fresh r extension)).1
    exact List.mem_append_right _ hd

/-! ## A file that is included twice -/

/-- The second include of a spec file is answered from the session. -/
theorem Resolves.again {written content : String} {s mid : Session} {children : List Statement}
    (hw : isRemote written = false) (hn : target s.extension base written ∉ s.resolving)
    (hc : s.cached? (target s.extension base written) = none)
    (hr : r.read? (target s.extension base written) = some content)
    (he : (target s.extension base written).endsWith s.extension = true)
    (inside : Resolves r (Path.directory (target s.extension base written))
      (parseSource (target s.extension base written) content).document.children
      (s.goInside (target s.extension base written) content) children mid) (span span' : Span) :
    Resolves r base [.inclusion written span, .inclusion written span'] s (children ++ (children ++ []))
      (mid.comeOut (target s.extension base written) written content children) := by
  let path := target s.extension base written
  let after := mid.comeOut path written content children
  have hpath : target after.extension base written = path := by
    rw [Session.comeOut_extension, inside.extension_eq]
    rfl
  have hstack : after.resolving = s.resolving :=
    Session.comeOut_resolving inside.resolving_eq written content children
  have hfound : after.cached? (target after.extension base written) =
      some ⟨written, .spec { (parseSource path content).document with children }⟩ := by
    rw [hpath, Session.cached?_comeOut, if_pos rfl]
  have hout : target after.extension base written ∉ after.resolving := by
    rw [hpath, hstack]
    exact hn
  exact .spec span hw hn hc hr he inside (.answer (.cached hw hout hfound) (.nil base after))

/-- The first file includes the second one twice. -/
def twice : Reader := .ofList [("/main.aid", "include a;include a;"), ("/a.aid", "c=1;")]

def twiceTokens : List Token :=
  [⟨.includeWord, "include", ⟨1, 1, 0⟩⟩, ⟨.whitespace, " ", ⟨1, 8, 7⟩⟩, ⟨.identifier, "a", ⟨1, 9, 8⟩⟩,
    ⟨.semicolon, ";", ⟨1, 10, 9⟩⟩, ⟨.includeWord, "include", ⟨1, 11, 10⟩⟩,
    ⟨.whitespace, " ", ⟨1, 18, 17⟩⟩, ⟨.identifier, "a", ⟨1, 19, 18⟩⟩, ⟨.semicolon, ";", ⟨1, 20, 19⟩⟩,
    ⟨.eof, "", ⟨1, 21, 20⟩⟩]

theorem parseSource_twice :
    (parseSource "/main.aid" "include a;include a;").document.children =
        [.inclusion "a" ⟨"/main.aid", ⟨1, 1, 0⟩, ⟨1, 11, 10⟩⟩,
          .inclusion "a" ⟨"/main.aid", ⟨1, 11, 10⟩, ⟨1, 21, 20⟩⟩] ∧
      (parseSource "/main.aid" "include a;include a;").problems = [] := by
  have first : readStatement "/main.aid" twiceTokens =
      ⟨some (.inclusion "a" ⟨"/main.aid", ⟨1, 1, 0⟩, ⟨1, 11, 10⟩⟩), twiceTokens.drop 4, []⟩ := by cbv
  have second : readStatement "/main.aid" (twiceTokens.drop 4) =
      ⟨some (.inclusion "a" ⟨"/main.aid", ⟨1, 11, 10⟩, ⟨1, 21, 20⟩⟩), twiceTokens.drop 8, []⟩ := by cbv
  have run : Reads "/main.aid" false (twiceTokens.drop 8) [] (twiceTokens.drop 8) [] :=
    .done rfl (.inl rfl)
  have run := Reads.statement (show skipLines (twiceTokens.drop 4) = _ from rfl) (by cbv) (by decide)
    second run
  have run := Reads.statement (show skipLines twiceTokens = _ from rfl) (by cbv) (by decide) first run
  exact run.parseSource_eq (show tokenize "include a;include a;" = ⟨twiceTokens, []⟩ by cbv)

theorem parseSource_included :
    (parseSource "/a.aid" "c=1;").document.children =
        [.param "c" "1" ⟨"/a.aid", ⟨1, 1, 0⟩, ⟨1, 5, 4⟩⟩] ∧
      (parseSource "/a.aid" "c=1;").problems = [] := by
  have hr : readStatement "/a.aid" (tokenize "c=1;").tokens =
      ⟨some (.param "c" "1" ⟨"/a.aid", ⟨1, 1, 0⟩, ⟨1, 5, 4⟩⟩), [⟨.eof, "", ⟨1, 5, 4⟩⟩], []⟩ := by cbv
  exact parseSource_one (by cbv) (by cbv) (by cbv) (by cbv; decide) hr

theorem twice_problems :
    (resolveFile twice "/main.aid" { extension := ".aid" }).1.problems = [] := by
  let s : Session := ({ extension := ".aid" } : Session).begin "/main.aid"
  have hp : target s.extension "/" "a" = "/a.aid" := by decide +kernel
  have inside : Resolves twice (Path.directory "/a.aid")
      (parseSource "/a.aid" "c=1;").document.children (s.goInside "/a.aid" "c=1;")
      [.param "c" "1" ⟨"/a.aid", ⟨1, 1, 0⟩, ⟨1, 5, 4⟩⟩] (s.goInside "/a.aid" "c=1;") := by
    rw [parseSource_included.1]
    exact .other (by simp) (by simp) (.nil _ _)
  rw [← hp] at inside
  have run := Resolves.again (by cbv) (by rw [hp]; decide) (by rfl) (by rw [hp]; rfl)
    (by rw [hp]; cbv) inside ⟨"/main.aid", ⟨1, 1, 0⟩, ⟨1, 11, 10⟩⟩
    ⟨"/main.aid", ⟨1, 11, 10⟩, ⟨1, 21, 20⟩⟩
  rw [← parseSource_twice.1] at run
  have hread : twice.read? (Path.normalize "/main.aid") = some "include a;include a;" := rfl
  rw [resolveFile_of_resolves hread run]
  show (parseSource "/main.aid" "include a;include a;").problems
    ++ ([] ++ (parseSource (target s.extension "/" "a") "c=1;").problems) = []
  rw [hp, parseSource_twice.2, parseSource_included.2]
  rfl

/-- The session answers the second include, and the tree is the inlined one. -/
theorem twice_inlined :
    (∀ d ∈ (resolveFile twice "/main.aid" { extension := ".aid" }).1.problems, ¬ IsCircular d) ∧
      InlinesFile twice ".aid" (Path.normalize "/main.aid")
        (resolveFile twice "/main.aid" { extension := ".aid" }).1.document := by
  have h : ∀ d ∈ (resolveFile twice "/main.aid" { extension := ".aid" }).1.problems,
      ¬ IsCircular d := by
    rw [twice_problems]
    simp
  exact ⟨h, (resolveFile_eq_iff_inlines twice ".aid" "/main.aid" h _).2 rfl⟩

end SpecTree.Include
