import Mathlib
import SpecTree.Proofs.Include.Usable

/-!
# Circles of includes

`resolveFile_cycles`: the resolution of a file comes to an end outside of every file, leaves no include
in the tree, and reports a circle if and only if the graph of includes has one that the file reaches.

1. A reported circle is one: the files that the session is inside of are a path through the graph
   (`Stack`), and the include that is reported leads back into it.
2. A circle is reported: in a run that reports none, no walk through the graph goes on for ever from a
   file that has been left (`Settled`), and none from the file that the run starts with.
-/

namespace SpecTree.Include

open Spec
open Relation (ReflTransGen TransGen)

variable {r : Reader} {extension root base : String}

/-! ## The graph of includes -/

/-- The files that are parsed: the first one, and spec files that can be read. -/
def IsNode (r : Reader) (extension root path : String) : Prop :=
  path = root ∨ (r.read? path).isSome = true ∧ path.endsWith extension = true

/-- The file `p` holds an include, at some depth of modules, that leads to `q`. -/
inductive LeadsTo (r : Reader) (extension p : String) : String → Prop
  | intro {content written : String} (h : r.read? p = some content)
      (hm : Mentions (parseSource p content).document.children written)
      (hw : isRemote written = false) :
      LeadsTo r extension p (target extension (Path.directory p) written)

def Edge (r : Reader) (extension root p q : String) : Prop :=
  IsNode r extension root p ∧ IsNode r extension root q ∧ LeadsTo r extension p q

/-- From the file `root` one comes to a circle; a file that includes itself is one. -/
def HasCircle (r : Reader) (extension root : String) : Prop :=
  ∃ p, ReflTransGen (Edge r extension root) root p ∧ TransGen (Edge r extension root) p p

/-! ## Files that the session is inside of -/

/-- A path through the graph from `root`, innermost file first. -/
inductive Stack (r : Reader) (extension root : String) : List String → Prop
  | start : Stack r extension root [root]
  | into {p q : String} {outer : List String} (h : Edge r extension root p q)
      (below : Stack r extension root (p :: outer)) : Stack r extension root (q :: p :: outer)

theorem Stack.isNode {paths : List String} (h : Stack r extension root paths) :
    ∀ p ∈ paths, IsNode r extension root p := by
  induction h with
  | start =>
    intro p hp
    exact .inl (List.mem_singleton.1 hp)
  | into h _ ih =>
    intro p hp
    rcases List.mem_cons.1 hp with rfl | hp
    · exact h.2.1
    · exact ih p hp

theorem Stack.reaches {q : String} {outer : List String} (h : Stack r extension root (q :: outer)) :
    ∀ p ∈ q :: outer, ReflTransGen (Edge r extension root) root p ∧
      ReflTransGen (Edge r extension root) p q := by
  generalize hpaths : q :: outer = paths at h
  induction h generalizing q outer with
  | start =>
    cases hpaths
    intro p hp
    rw [List.mem_singleton.1 hp]
    exact ⟨.refl, .refl⟩
  | @into p q' outer' h below ih =>
    cases hpaths
    have hbelow := ih rfl
    intro x hx
    rcases List.mem_cons.1 hx with rfl | hx
    · exact ⟨(hbelow p List.mem_cons_self).1.tail h, .refl⟩
    · exact ⟨(hbelow x hx).1, (hbelow x hx).2.tail h⟩

/-- An include that leads back into the stack closes a circle. -/
theorem Stack.circle {p q : String} {outer : List String} (h : Stack r extension root (p :: outer))
    (hq : q ∈ p :: outer) (hl : LeadsTo r extension p q) : HasCircle r extension root := by
  have hedge : Edge r extension root p q := ⟨h.isNode p List.mem_cons_self, h.isNode q hq, hl⟩
  exact ⟨q, (h.reaches q hq).1, .tail' (h.reaches q hq).2 hedge⟩

/-- The statements stand in the innermost file, whose directory is `base`. -/
inductive Innermost (r : Reader) : List String → String → List Statement → Prop
  | intro {p content : String} {outer : List String} {statements : List Statement}
      (h : r.read? p = some content)
      (hm : ∀ written, Mentions statements written →
        Mentions (parseSource p content).document.children written) :
      Innermost r (p :: outer) (Path.directory p) statements

theorem Innermost.mono {paths : List String} {a b : List Statement} (h : Innermost r paths base a)
    (hm : ∀ written, Mentions b written → Mentions a written) : Innermost r paths base b := by
  cases h with
  | intro hr h => exact .intro hr fun written hw => h written (hm written hw)

theorem Innermost.tail {paths : List String} {one : Statement} {rest : List Statement}
    (h : Innermost r paths base (one :: rest)) : Innermost r paths base rest :=
  h.mono fun _ hw => mentions_cons.2 (.inr hw)

theorem mentions_inclusion (written : String) (span : Span) (rest : List Statement) :
    Mentions (.inclusion written span :: rest) written :=
  .here List.mem_cons_self

theorem mentions_of_module {header : Header} {children : List Statement} {span : Span} {written : String}
    (h : Mentions [.module header children span] written) : Mentions children written := by
  obtain ⟨_, hone⟩ | ⟨_, _, _, hone, hm⟩ := mentions_singleton.1 h
  · cases hone
  · cases hone
    exact hm

theorem not_mentions_other {one : Statement} (hi : ∀ path span, one ≠ .inclusion path span)
    (hm : ∀ header children span, one ≠ .module header children span) (written : String) :
    ¬ Mentions [one] written := by
  intro h
  obtain ⟨_, hone⟩ | ⟨_, _, _, hone, _⟩ := mentions_singleton.1 h
  · exact hi _ _ hone
  · exact hm _ _ _ hone

theorem mentions_module {header : Header} {children rest : List Statement} {span : Span}
    {written : String} (h : Mentions children written) :
    Mentions (.module header children span :: rest) written :=
  .inside List.mem_cons_self h

/-! ## What is reported is a circle -/

theorem not_isCircular_of_isLocal {d : Diagnostic} (h : d.problem.isLocal = true) : ¬ IsCircular d := by
  rintro ⟨path, hd⟩
  rw [hd] at h
  cases h

theorem Answers.circle {written : String} {span : Span} {s after : Session} {out rest : List Statement}
    (h : Answers r base written span s out after) (hx : s.extension = extension)
    (hs : Stack r extension root s.resolving)
    (hi : Innermost r s.resolving base (.inclusion written span :: rest)) {d : Diagnostic}
    (hd : d ∈ after.problems) (hc : IsCircular d) :
    d ∈ s.problems ∨ HasCircle r extension root := by
  subst hx
  cases h with
  | circular hw hn =>
    cases hp : s.resolving with
    | nil => rw [hp] at hn; cases hn
    | cons p outer =>
      rw [hp] at hs hi hn
      cases hi with
      | intro hr hm =>
        exact .inr (hs.circle hn (.intro hr (hm _ (mentions_inclusion written span rest)) hw))
  | remote | unreadable =>
    obtain ⟨path, hpath⟩ := hc
    refine .inl ((List.mem_append.1 hd).resolve_right fun hd => ?_)
    rw [List.mem_singleton.1 hd] at hpath
    cases hpath
  | cached | text => exact .inl hd

/-- **A reported circle is one.** -/
theorem Resolves.circle {statements out : List Statement} {s after : Session}
    (h : Resolves r base statements s out after) (hx : s.extension = extension)
    (hs : Stack r extension root s.resolving) (hi : Innermost r s.resolving base statements)
    {d : Diagnostic} (hd : d ∈ after.problems) (hc : IsCircular d) :
    d ∈ s.problems ∨ HasCircle r extension root := by
  induction h with
  | nil => exact .inl hd
  | answer here there ih =>
    have hstack := here.resolving_eq
    rcases ih (here.extension_eq.trans hx) (hstack ▸ hs) (hstack ▸ hi.tail) hd with hd | hcircle
    · exact here.circle hx hs hi hd hc
    · exact .inr hcircle
  | @spec base written content span rest children later s mid after hw hn hcached hr he inside there
      ihi iht =>
    subst hx
    cases hp : s.resolving with
    | nil => rw [hp] at hs; cases hs
    | cons p outer =>
      have hs' := hs
      have hi' := hi
      rw [hp] at hs' hi'
      cases hi' with
      | @intro _ content' _ _ hrp hm =>
        have hedge : Edge r s.extension root p (target s.extension (Path.directory p) written) :=
          ⟨hs'.isNode p List.mem_cons_self, .inr ⟨by rw [hr]; rfl, he⟩,
            .intro hrp (hm _ (mentions_inclusion written span rest)) hw⟩
        have hout := Session.comeOut_resolving inside.resolving_eq written content children
        rcases iht inside.extension_eq (hout ▸ hs) (hout ▸ hi.tail) hd with hd | hcircle
        · have hstack := Stack.into hedge hs'
          rw [← hp] at hstack
          rcases ihi rfl hstack (.intro hr fun _ hw => hw) hd with hd | hcircle
          · refine .inl ((List.mem_append.1 hd).resolve_right fun hd => ?_)
            exact not_isCircular_of_isLocal (parseSource_problems_isLocal hd) hc
          · exact .inr hcircle
        · exact .inr hcircle
  | module inside there ihi iht =>
    have hstack := inside.resolving_eq
    rcases iht (inside.extension_eq.trans hx) (hstack ▸ hs) (hstack ▸ hi.tail) hd with hd | hcircle
    · exact ihi hx hs (hi.mono fun _ hw => mentions_module hw) hd
    · exact .inr hcircle
  | other _ _ _ ih => exact ih hx hs hi.tail hd

/-! ## What is a circle is reported -/

/-- No walk through the graph goes on for ever from `path`. -/
def Ends (r : Reader) (extension root path : String) : Prop :=
  Acc (fun q p => Edge r extension root p q) path

/-- A file ends whose includes lead to files that end. -/
theorem ends_of_mentions {path content : String} (h : r.read? path = some content)
    (hm : ∀ written, Mentions (parseSource path content).document.children written →
      isRemote written = false → IsNode r extension root (target extension (Path.directory path) written) →
      Ends r extension root (target extension (Path.directory path) written)) :
    Ends r extension root path := by
  refine Acc.intro path fun q hq => ?_
  obtain ⟨-, hnode, hl⟩ := hq
  cases hl with
  | intro hr hw hremote =>
    cases h.symm.trans hr
    exact hm _ hw hremote hnode

theorem Ends.not_closed {path : String} (h : Ends r extension root path) :
    ¬ TransGen (Edge r extension root) path path := by
  induction h with
  | intro p _ ih =>
    intro hp
    -- The walk from `p` goes on from its second file, and can be turned into one from that file.
    obtain ⟨q, hedge, hback⟩ := TransGen.head'_iff.1 hp
    exact ih q hedge (.tail' hback hedge)

theorem Ends.not_hasCircle (h : Ends r extension root root) : ¬ HasCircle r extension root := by
  rintro ⟨p, hp, hcircle⟩
  have hends : Ends r extension root p := by
    clear hcircle
    induction hp with
    | refl => exact h
    | tail _ hedge ih => exact Acc.inv ih hedge
  exact hends.not_closed hcircle

/-- The session has left only files that end. -/
def Settled (r : Reader) (extension root : String) (s : Session) : Prop :=
  ∀ path found, s.cached? path = some found → IsNode r extension root path →
    Ends r extension root path

/-- The includes among the statements lead to files that end. -/
def LeadToEnds (r : Reader) (extension root base : String) (statements : List Statement) : Prop :=
  ∀ written, Mentions statements written → isRemote written = false →
    IsNode r extension root (target extension base written) →
    Ends r extension root (target extension base written)

theorem LeadToEnds.cons {one : Statement} {rest : List Statement}
    (h : LeadToEnds r extension root base [one]) (k : LeadToEnds r extension root base rest) :
    LeadToEnds r extension root base (one :: rest) := fun written hm =>
  (mentions_cons.1 hm).elim (h written) (k written)

theorem LeadToEnds.inclusion {written : String} {span : Span}
    (h : isRemote written = false → IsNode r extension root (target extension base written) →
      Ends r extension root (target extension base written)) :
    LeadToEnds r extension root base [.inclusion written span] := by
  intro other hm
  obtain ⟨_, hone⟩ | ⟨_, _, _, hone, _⟩ := mentions_singleton.1 hm
  · cases hone
    exact h
  · cases hone

theorem Answers.settled {written : String} {span : Span} {s after : Session} {out : List Statement}
    (h : Answers r base written span s out after) (hx : s.extension = extension)
    (hroot : root ∈ s.resolving) (hq : ∀ d ∈ after.problems, ¬ IsCircular d)
    (hs : Settled r extension root s) :
    Settled r extension root after ∧ LeadToEnds r extension root base [.inclusion written span] := by
  subst hx
  cases h with
  | remote hw => exact ⟨hs, .inclusion fun hw' => absurd hw (by simp [hw'])⟩
  | circular => exact absurd ⟨_, rfl⟩ (hq _ (List.mem_append_right _ (List.mem_singleton_self _)))
  | cached _ _ hc => exact ⟨hs, .inclusion fun _ => hs _ _ hc⟩
  | unreadable _ hn _ hr =>
    refine ⟨hs, .inclusion fun _ hnode => ?_⟩
    rcases hnode with rfl | ⟨hread, -⟩
    · exact absurd hroot hn
    · rw [hr] at hread
      cases hread
  | text _ hn _ hr he =>
    have hno : ¬ IsNode r s.extension root (target s.extension base written) := by
      rintro (rfl | ⟨-, hend⟩)
      · exact hn hroot
      · rw [he] at hend
        cases hend
    refine ⟨fun path found hf hnode => ?_, .inclusion fun _ hnode => absurd hnode hno⟩
    rw [Session.cached?, Session.store, Table.get?_put] at hf
    split at hf
    · next hp => exact absurd (hp ▸ hnode) hno
    · exact hs path found hf hnode

/-- **A circle is reported**: where none is, the files that the statements lead to end. -/
theorem Resolves.settled {statements out : List Statement} {s after : Session}
    (h : Resolves r base statements s out after) (hx : s.extension = extension)
    (hroot : root ∈ s.resolving) (hq : ∀ d ∈ after.problems, ¬ IsCircular d)
    (hs : Settled r extension root s) :
    Settled r extension root after ∧ LeadToEnds r extension root base statements := by
  induction h with
  | nil => exact ⟨hs, fun _ hm => absurd hm (not_mentions_nil _)⟩
  | answer here there ih =>
    obtain ⟨hmid, hone⟩ :=
      here.settled hx hroot (fun d hd => hq d (there.problems_prefix.subset hd)) hs
    obtain ⟨hafter, hrest⟩ := ih (here.extension_eq.trans hx) (here.resolving_eq ▸ hroot) hq hmid
    exact ⟨hafter, hone.cons hrest⟩
  | @spec base written content span rest children later s mid after hw hn hc hr he inside there
      ihi iht =>
    subst hx
    obtain ⟨hmid, hinside⟩ := ihi rfl (List.mem_cons_of_mem _ hroot)
      (fun d hd => hq d (there.problems_prefix.subset hd)) hs
    have hends : Ends r s.extension root (target s.extension base written) :=
      ends_of_mentions hr hinside
    have hout := Session.comeOut_resolving inside.resolving_eq written content children
    have hstored : Settled r s.extension root
        (mid.comeOut (target s.extension base written) written content children) := by
      intro path found hf hnode
      rw [Session.cached?_comeOut] at hf
      split at hf
      · next hp => exact hp ▸ hends
      · exact hmid path found hf hnode
    obtain ⟨hafter, hrest⟩ := iht inside.extension_eq (hout ▸ hroot) hq hstored
    exact ⟨hafter, LeadToEnds.cons (.inclusion fun _ _ => hends) hrest⟩
  | module inside there ihi iht =>
    obtain ⟨hmid, hinside⟩ := ihi hx hroot (fun d hd => hq d (there.problems_prefix.subset hd)) hs
    obtain ⟨hafter, hrest⟩ := iht (inside.extension_eq.trans hx) (inside.resolving_eq ▸ hroot) hq hmid
    exact ⟨hafter, LeadToEnds.cons (fun written hm => hinside written (mentions_of_module hm)) hrest⟩
  | other hi hm _ ih =>
    obtain ⟨hafter, hrest⟩ := ih hx hroot hq hs
    exact ⟨hafter, LeadToEnds.cons (fun written hw => absurd hw (not_mentions_other hi hm written)) hrest⟩

/-! ## No include remains -/

/-- The statements hold no include, at any depth of modules. -/
def IsFlat (statements : List Statement) : Prop := ∀ written, ¬ Mentions statements written

theorem isFlat_nil : IsFlat [] := not_mentions_nil

theorem IsFlat.append {a b : List Statement} (ha : IsFlat a) (hb : IsFlat b) : IsFlat (a ++ b) :=
  fun written hm => (mentions_append.1 hm).elim (ha written) (hb written)

/-- The session has kept no include. -/
def KeepsFlat (s : Session) : Prop :=
  ∀ path found document, s.cached? path = some found → found.body = .spec document →
    IsFlat document.children

theorem isFlat_prose (text : String) (important : Bool) (span : Span) :
    IsFlat [.prose text important span] := not_mentions_other nofun nofun

theorem KeepsFlat.store {s : Session} {path : String} {i : Import} (hs : KeepsFlat s)
    (hi : ∀ document, i.body = .spec document → IsFlat document.children) :
    KeepsFlat (s.store path i) := by
  intro other found document hf hb
  rw [Session.cached?, Session.store, Table.get?_put] at hf
  split at hf
  · cases hf
    exact hi document hb
  · exact hs other found document hf hb

theorem Answers.isFlat {written : String} {span : Span} {s after : Session} {out : List Statement}
    (h : Answers r base written span s out after) (hs : KeepsFlat s) : IsFlat out ∧ KeepsFlat after := by
  cases h with
  | remote | circular | unreadable => exact ⟨isFlat_nil, hs⟩
  | @cached found _ _ hc =>
    refine ⟨?_, hs⟩
    cases hb : found.body with
    | spec document => exact hs _ _ _ hc hb
    | text content => exact isFlat_prose _ _ _
  | text => exact ⟨isFlat_prose _ _ _, KeepsFlat.store hs fun _ hb => by cases hb⟩

/-- **What a resolution comes to holds no include.** -/
theorem Resolves.isFlat {statements out : List Statement} {s after : Session}
    (h : Resolves r base statements s out after) (hs : KeepsFlat s) :
    IsFlat out ∧ KeepsFlat after := by
  induction h with
  | nil => exact ⟨isFlat_nil, hs⟩
  | answer here _ ih =>
    obtain ⟨hout, hmid⟩ := here.isFlat hs
    obtain ⟨hlater, hafter⟩ := ih hmid
    exact ⟨hout.append hlater, hafter⟩
  | spec _ _ _ _ _ _ _ _ ihi iht =>
    obtain ⟨hchildren, hmid⟩ := ihi hs
    obtain ⟨hlater, hafter⟩ := iht (KeepsFlat.store hmid fun _ hb => by cases hb; exact hchildren)
    exact ⟨hchildren.append hlater, hafter⟩
  | module _ _ ihi iht =>
    obtain ⟨hinner, hmid⟩ := ihi hs
    obtain ⟨hlater, hafter⟩ := iht hmid
    exact ⟨IsFlat.append (a := [_]) (fun written hm => hinner written (mentions_of_module hm)) hlater,
      hafter⟩
  | other hi hm _ ih =>
    obtain ⟨hlater, hafter⟩ := ih hs
    exact ⟨IsFlat.append (a := [_]) (not_mentions_other hi hm) hlater, hafter⟩

/-! ## Files -/

/-- A file that cannot be read leads nowhere. -/
theorem ends_of_unreadable {path : String} (h : r.read? path = none) : Ends r extension root path := by
  refine Acc.intro path fun q hq => ?_
  obtain ⟨-, -, hl⟩ := hq
  cases hl with
  | intro hr => cases h.symm.trans hr

/-- A run from a file reports a circle if and only if the file comes to one. -/
theorem Resolves.isCircular_iff {content : String} {children : List Statement} {after : Session}
    (hr : r.read? root = some content)
    (h : Resolves r (Path.directory root) (parseSource root content).document.children
      (({ extension } : Session).begin root) children after) :
    (∃ d ∈ after.problems, IsCircular d) ↔ HasCircle r extension root := by
  constructor
  · rintro ⟨d, hd, hc⟩
    have hinner : Innermost r [root] (Path.directory root)
        (parseSource root content).document.children := .intro hr fun _ hw => hw
    exact (h.circle rfl .start hinner hd hc).resolve_left List.not_mem_nil
  · intro hcircle
    by_contra hno
    have hq : ∀ d ∈ after.problems, ¬ IsCircular d := fun d hd hc => hno ⟨d, hd, hc⟩
    have hsettled : Settled r extension root (({ extension } : Session).begin root) :=
      fun _ _ hf => by cases hf
    have hends := ends_of_mentions hr (h.settled rfl List.mem_cons_self hq hsettled).2
    exact hends.not_hasCircle hcircle

theorem exists_isCircular_append (file content : String) (ds : List Diagnostic) :
    (∃ d ∈ (parseSource file content).problems ++ ds, IsCircular d) ↔ ∃ d ∈ ds, IsCircular d := by
  constructor
  · rintro ⟨d, hd, hc⟩
    refine ⟨d, (List.mem_append.1 hd).resolve_left fun hd => ?_, hc⟩
    exact not_isCircular_of_isLocal (parseSource_problems_isLocal hd) hc
  · rintro ⟨d, hd, hc⟩
    exact ⟨d, List.mem_append_right _ hd, hc⟩

/-- **Circles are found, and nothing else is taken for one.** The resolution of a file by a fresh session
comes to an end without asking for an unusable path, leaves no include in the tree and the session
outside of every file. It reports a circle, to the caller and in the session, if and only if the file
comes to one in the graph of includes. -/
theorem resolveFile_cycles {file : String} (hr : Readable r extension) (hf : IsUsable file) :
    (resolveFile r file { extension }).1.hasUnusablePath = false ∧
      IsFlat (resolveFile r file { extension }).1.document.children ∧
      (resolveFile r file { extension }).2.resolving = [] ∧
      ((∃ d ∈ (resolveFile r file { extension }).1.problems, IsCircular d) ↔
        HasCircle r extension (Path.normalize file)) ∧
      ((∃ d ∈ (resolveFile r file { extension }).2.problems, IsCircular d) ↔
        HasCircle r extension (Path.normalize file)) := by
  refine ⟨resolveFile_usable hr hf, ?_⟩
  cases hread : r.read? (Path.normalize file) with
  | none =>
    have hno : ¬ HasCircle r extension (Path.normalize file) := (ends_of_unreadable hread).not_hasCircle
    rw [resolveFile_unreadable _ hread]
    refine ⟨isFlat_nil, rfl, iff_of_false ?_ hno, iff_of_false ?_ hno⟩
    · rintro ⟨d, hd, path, hpath⟩
      rw [List.mem_singleton.1 hd] at hpath
      cases hpath
    · rintro ⟨d, hd, -⟩
      cases hd
  | some content =>
    have run := resolves r (Path.directory (Path.normalize file))
      (parseSource (Path.normalize file) content).document.children
      (({ extension } : Session).begin (Path.normalize file))
    have hkeeps : KeepsFlat (({ extension } : Session).begin (Path.normalize file)) :=
      fun _ _ _ hf => by cases hf
    have hiff := run.isCircular_iff hread
    rw [resolveFile_of_resolves hread run]
    exact ⟨(run.isFlat hkeeps).1, Session.resolving_leave_of_cons run.resolving_eq,
      (exists_isCircular_append _ _ _).trans hiff, hiff⟩

/-! ## A file that includes itself -/

def selfIncluding : Reader := .ofList [("/a.aid", "include a;")]

theorem selfIncluding_readable : Readable selfIncluding ".aid" where
  extension := by unfold IsUsable; decide
  text path content h := by
    unfold selfIncluding Reader.ofList at h
    by_cases hp : path = "/a.aid"
    · subst hp
      cases h
      unfold IsUsable
      decide
    · have hb : (path == "/a.aid") = false := by simp [hp]
      simp only [List.lookup_cons, hb, List.lookup_nil] at h
      cases h

theorem selfIncluding_mentions :
    Mentions (parseSource "/a.aid" "include a;").document.children "a" := by
  have hr : readStatement "/a.aid" (tokenize "include a;").tokens =
      ⟨some (.inclusion "a" ⟨"/a.aid", ⟨1, 1, 0⟩, ⟨1, 11, 10⟩⟩), [⟨.eof, "", ⟨1, 11, 10⟩⟩], []⟩ := by
    cbv
  have hparse := parseSource_one (show tokenize "include a;" = ⟨_, []⟩ by cbv) (by cbv) (by cbv)
    (by cbv; decide) hr
  rw [hparse.1]
  exact .here List.mem_cons_self

theorem selfIncluding_hasCircle : HasCircle selfIncluding ".aid" (Path.normalize "/a.aid") := by
  have hroot : Path.normalize "/a.aid" = "/a.aid" := by decide +kernel
  have hleads : LeadsTo selfIncluding ".aid" "/a.aid" (target ".aid" (Path.directory "/a.aid") "a") :=
    .intro rfl selfIncluding_mentions (by cbv)
  rw [show target ".aid" (Path.directory "/a.aid") "a" = "/a.aid" by decide +kernel] at hleads
  rw [hroot]
  exact ⟨"/a.aid", .refl, .single ⟨.inl rfl, .inl rfl, hleads⟩⟩

/-- The circle is reported. -/
theorem selfIncluding_reported : Readable selfIncluding ".aid" ∧ IsUsable "/a.aid" ∧
    ∃ d ∈ (resolveFile selfIncluding "/a.aid" { extension := ".aid" }).1.problems, IsCircular d := by
  have hf : IsUsable "/a.aid" := by unfold IsUsable; decide
  exact ⟨selfIncluding_readable, hf,
    (resolveFile_cycles selfIncluding_readable hf).2.2.2.1.2 selfIncluding_hasCircle⟩

end SpecTree.Include
