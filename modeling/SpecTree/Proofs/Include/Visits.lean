import SpecTree.Proofs.Include.Cycles

/-!
# What a resolution reports

`resolveFile_problems`: the problems of a resolution are those of the files that it comes to, each taken
once.

1. A file is come to by a way through the includes, and the files that are above it decide which of its
   includes lead back (`ways`). The first way to a file counts (`visits`), and a file has one exactly if it
   is reached in the graph of includes (`mem_visits_iff`).
2. A session knows a file that it is inside of or has taken in (`Knows`). Such a file leads to nothing new,
   so that its includes need not be gone through again (`Knows.fresh_eq_nil`).
3. In a run, the problems and the files known grow by the first ways alone (`Resolves.visits`).
-/

namespace SpecTree.Include

open Spec
open Relation (ReflTransGen)

variable {r : Reader} {extension base : String}

/-! ## The includes of a file -/

/-- The includes of the statements in document order, at any depth of modules. -/
def includes : List Statement → List (String × Span)
  | [] => []
  | .inclusion written span :: rest => (written, span) :: includes rest
  | .module _ children _ :: rest => includes children ++ includes rest
  | _ :: rest => includes rest

theorem includes_other {one : Statement} (hi : ∀ written span, one ≠ .inclusion written span)
    (hm : ∀ header children span, one ≠ .module header children span) (rest : List Statement) :
    includes (one :: rest) = includes rest := by
  cases one with
  | inclusion written span => exact absurd rfl (hi written span)
  | module header children span => exact absurd rfl (hm header children span)
  | prose | constraint | param | comment => rw [includes] <;> simp

theorem mentions_iff {statements : List Statement} {written : String} :
    Mentions statements written ↔ ∃ span, (written, span) ∈ includes statements := by
  fun_induction includes statements with
  | case1 => simp [not_mentions_nil]
  | case2 here span rest ih =>
    rw [mentions_cons, mentions_singleton, ih]
    simp [exists_or, eq_comm]
  | case3 header children span rest ihc ihr =>
    rw [mentions_cons, mentions_singleton, ihr]
    simp [ihc, exists_or]
  | case4 one rest hi hm ih =>
    have hone : ¬ Mentions [one] written := not_mentions_other hi (fun _ _ _ => hm _ _ _) written
    rw [mentions_cons, ih, or_iff_right hone]

/-- The include names a spec file. -/
def namesSpec (extension base written : String) : Bool :=
  !isRemote written && (target extension base written).endsWith extension

/-! ## Ways -/

/-- A file, and the files that it was come to through, innermost first. -/
structure Way where
  file : String
  above : List String

/-- The ways that begin at the file `path` below the files in `above`, in document order. No way passes the
same file twice. -/
def ways (r : Reader) (extension : String) (above : List String) (path : String) : List Way :=
  if _hin : path ∈ above then []
  else
    match _hr : r.read? path with
    | none => []
    | some content =>
      ⟨path, above⟩ :: (includes (parseSource path content).document.children).flatMap fun i =>
        if namesSpec extension (Path.directory path) i.1 then
          ways r extension (path :: above) (target extension (Path.directory path) i.1)
        else []
termination_by r.room above
decreasing_by exact Reader.room_cons_lt _hr _hin

/-- The ways that begin at includes of a file in the directory `base`; that file is the innermost one of
`inside`. -/
def waysBy (r : Reader) (extension base : String) (inside : List String) (is : List (String × Span)) :
    List Way :=
  is.flatMap fun i =>
    if namesSpec extension base i.1 then ways r extension inside (target extension base i.1) else []

section

variable {above : List String} {path content : String}

theorem ways_of_mem (h : path ∈ above) : ways r extension above path = [] := by
  rw [ways, dif_pos h]

theorem ways_of_unreadable (h : r.read? path = none) : ways r extension above path = [] := by
  rw [ways]
  split
  · rfl
  · split
    · rfl
    · next hr => cases h.symm.trans hr

theorem ways_of_read (hn : path ∉ above) (h : r.read? path = some content) :
    ways r extension above path = ⟨path, above⟩ :: waysBy r extension (Path.directory path)
      (path :: above) (includes (parseSource path content).document.children) := by
  rw [ways, dif_neg hn]
  split
  · next hr => cases h.symm.trans hr
  · next hr =>
    cases h.symm.trans hr
    rfl

end

/-! ## First ways -/

def files (ws : List Way) : List String := ws.map Way.file

@[simp] theorem files_nil : files [] = [] := rfl

@[simp] theorem files_cons (w : Way) (ws : List Way) : files (w :: ws) = w.file :: files ws := rfl

@[simp] theorem files_append (ws ws' : List Way) : files (ws ++ ws') = files ws ++ files ws' :=
  List.map_append

/-- The first way to each file that is not seen yet. -/
def fresh (seen : List String) : List Way → List Way
  | [] => []
  | w :: ws => if w.file ∈ seen then fresh seen ws else w :: fresh (w.file :: seen) ws

section

variable {seen seen' : List String} {ws : List Way}

theorem fresh_congr (h : ∀ p, p ∈ seen ↔ p ∈ seen') : fresh seen ws = fresh seen' ws := by
  induction ws generalizing seen seen' with
  | nil => rfl
  | cons w ws ih =>
    have hcons : ∀ p, p ∈ w.file :: seen ↔ p ∈ w.file :: seen' := fun p => by
      rw [List.mem_cons, List.mem_cons, h p]
    simp only [fresh, h, ih h, ih hcons]

theorem fresh_eq_nil (h : ∀ w ∈ ws, w.file ∈ seen) : fresh seen ws = [] := by
  induction ws with
  | nil => rfl
  | cons w ws ih =>
    rw [fresh, if_pos (h w List.mem_cons_self)]
    exact ih fun v hv => h v (List.mem_cons_of_mem _ hv)

theorem fresh_append (seen : List String) (ws ws' : List Way) :
    fresh seen (ws ++ ws') = fresh seen ws ++ fresh (files (fresh seen ws) ++ seen) ws' := by
  induction ws generalizing seen with
  | nil => rfl
  | cons w ws ih =>
    rw [List.cons_append, fresh, fresh]
    split
    · exact ih seen
    · rw [ih, List.cons_append]
      congr 2
      exact fresh_congr fun p => by simp [files, or_left_comm]

theorem mem_files_fresh (seen : List String) (ws : List Way) (p : String) :
    p ∈ files (fresh seen ws) ++ seen ↔ p ∈ files ws ++ seen := by
  induction ws generalizing seen with
  | nil => rfl
  | cons w ws ih =>
    rw [fresh]
    split
    · next hw =>
      rw [ih]
      simp only [files, List.map_cons, List.cons_append, List.mem_cons, List.mem_append]
      constructor
      · exact .inr
      · rintro (rfl | h)
        · exact .inr hw
        · exact h
    · have hrest := ih (w.file :: seen)
      simp only [files, List.map_cons, List.cons_append, List.mem_cons, List.mem_append] at hrest ⊢
      rw [or_left_comm, hrest, or_left_comm]

theorem not_mem_files_fresh {p : String} (h : p ∈ files (fresh seen ws)) : p ∉ seen := by
  induction ws generalizing seen with
  | nil => cases h
  | cons w ws ih =>
    rw [fresh] at h
    split at h
    · exact ih h
    · next hw =>
      rcases List.mem_cons.1 h with rfl | h
      · exact hw
      · exact fun hp => ih h (List.mem_cons_of_mem _ hp)

theorem nodup_files_fresh (seen : List String) (ws : List Way) : (files (fresh seen ws)).Nodup := by
  induction ws generalizing seen with
  | nil => exact List.nodup_nil
  | cons w ws ih =>
    rw [fresh]
    split
    · exact ih seen
    · exact List.nodup_cons.2 ⟨fun h => not_mem_files_fresh h List.mem_cons_self, ih _⟩

end

/-- The first way to each file that one comes to from `root`. -/
def visits (r : Reader) (extension root : String) : List Way := fresh [] (ways r extension [] root)

/-! ## Problems -/

/-- What fails about an include in the directory `base`, in a file that is the innermost one of `inside`. -/
def failure (r : Reader) (extension base : String) (inside : List String) (i : String × Span) :
    List Diagnostic :=
  if isRemote i.1 then [⟨.remoteImport, i.2⟩]
  else if target extension base i.1 ∈ inside then
    [⟨.circularImport (target extension base i.1), i.2⟩]
  else if (r.read? (target extension base i.1)).isNone then
    [⟨.unreadableImport (target extension base i.1), i.2⟩]
  else []

/-- What is wrong with the text of a file, and its includes that fail on the way to it. -/
def Way.problems (r : Reader) (extension : String) (w : Way) : List Diagnostic :=
  match r.read? w.file with
  | none => []
  | some content =>
    (parseSource w.file content).problems ++
      (includes (parseSource w.file content).document.children).flatMap
        (failure r extension (Path.directory w.file) (w.file :: w.above))

theorem Way.problems_of_read {path content : String} {above : List String}
    (h : r.read? path = some content) : Way.problems r extension ⟨path, above⟩ =
      (parseSource path content).problems ++ (includes (parseSource path content).document.children).flatMap
        (failure r extension (Path.directory path) (path :: above)) := by
  unfold Way.problems
  rw [h]

/-- What is wrong with `root` and the files that one comes to from there. -/
def problemsOf (r : Reader) (extension root : String) : List Diagnostic :=
  match r.read? root with
  | none => [⟨.unreadableFile root, .empty root⟩]
  | some _ => (visits r extension root).flatMap (Way.problems r extension)

/-! ## What a session knows -/

/-- The spec files that the file `p` includes are in `seen`. -/
def Covers (r : Reader) (extension : String) (seen : List String) (p : String) : Prop :=
  ∀ content, r.read? p = some content →
    ∀ i ∈ includes (parseSource p content).document.children,
      namesSpec extension (Path.directory p) i.1 = true →
      (r.read? (target extension (Path.directory p) i.1)).isSome →
      target extension (Path.directory p) i.1 ∈ seen

/-- The session has come to the spec files in `seen`, and it is through with those that it is not
inside of. -/
structure Knows (r : Reader) (s : Session) (seen : List String) : Prop where
  mem_iff : ∀ p, p ∈ seen ↔
    p ∈ s.resolving ∨ p.endsWith s.extension = true ∧ (s.cached? p).isSome = true
  readable : ∀ p, (s.cached? p).isSome → (r.read? p).isSome
  covers : ∀ p ∈ seen, p ∉ s.resolving → Covers r s.extension seen p

/-- What a session is through with leads to nothing new. -/
theorem mem_of_ways {seen outer above : List String} {path : String}
    (hc : ∀ p ∈ seen, p ∉ outer → Covers r extension seen p) (ho : outer ⊆ above)
    (hp : (r.read? path).isSome → path ∈ seen) :
    ∀ w ∈ ways r extension above path, w.file ∈ seen := by
  fun_induction ways r extension above path with
  | case1 => nofun
  | case2 => nofun
  | case3 above path hn content hr ih =>
    have hmem : path ∈ seen := hp (by simp [hr])
    refine List.forall_mem_cons.2 ⟨hmem, fun w hw => ?_⟩
    obtain ⟨i, hi, hw⟩ := List.mem_flatMap.1 hw
    split at hw
    · next hnames =>
      have hnext : (r.read? (target extension (Path.directory path) i.1)).isSome →
          target extension (Path.directory path) i.1 ∈ seen :=
        hc path hmem (fun h => hn (ho h)) content hr i hi hnames
      exact ih i (List.Subset.trans ho (List.subset_cons_self _ _)) hnext w hw
    · cases hw

section

variable {s : Session} {seen seen' : List String} {path written content : String} {span : Span}

theorem Knows.congr (h : Knows r s seen) (hs : ∀ p, p ∈ seen' ↔ p ∈ seen) : Knows r s seen' where
  mem_iff p := (hs p).trans (h.mem_iff p)
  readable := h.readable
  covers p hp hn content hr i hi hnames hread :=
    (hs _).2 (h.covers p ((hs p).1 hp) hn content hr i hi hnames hread)

theorem Knows.fresh_eq_nil (h : Knows r s seen) (hp : (r.read? path).isSome → path ∈ seen) :
    fresh seen (ways r s.extension s.resolving path) = [] :=
  Include.fresh_eq_nil (mem_of_ways h.covers (List.Subset.refl _) hp)

/-- A file that is no spec file is taken in. -/
theorem Knows.storeText (h : Knows r s seen) (hr : r.read? path = some content)
    (he : path.endsWith s.extension = false) :
    Knows r (s.countRead.store path ⟨written, .text content⟩) seen := by
  have hcached (p : String) : (s.countRead.store path ⟨written, .text content⟩).cached? p =
      if p = path then some ⟨written, .text content⟩ else s.cached? p := Table.get?_put ..
  refine ⟨fun p => (h.mem_iff p).trans ?_, fun p hp => ?_, h.covers⟩
  · rw [hcached]
    split
    · next hpath =>
      subst hpath
      change _ ∨ p.endsWith s.extension = true ∧ _ ↔ _ ∨ p.endsWith s.extension = true ∧ _
      simp [he]
    · rfl
  · rw [hcached] at hp
    split at hp
    · next hpath => simp [hpath, hr]
    · exact h.readable p hp

/-- The session goes inside a spec file that it does not know. -/
theorem Knows.goInside (h : Knows r s seen) (path content : String) :
    Knows r (s.goInside path content) (path :: seen) := by
  refine ⟨fun p => ?_, h.readable, fun p hp hn => ?_⟩
  · change _ ↔ p ∈ path :: s.resolving ∨ p.endsWith s.extension = true ∧ (s.cached? p).isSome = true
    rw [List.mem_cons, List.mem_cons, h.mem_iff p, or_assoc]
  · have hn : ¬ (p = path ∨ p ∈ s.resolving) := fun hm => hn (List.mem_cons.2 hm)
    have hcovers := h.covers p ((List.mem_cons.1 hp).resolve_left fun he => hn (.inl he))
      fun hm => hn (.inr hm)
    exact fun content hr i hi hnames hread =>
      List.mem_cons_of_mem _ (hcovers content hr i hi hnames hread)

/-- The session comes out of a spec file whose includes it has gone through. -/
theorem Knows.comeOut {outer : List String} {children : List Statement} (h : Knows r s seen)
    (ho : s.resolving = path :: outer) (hr : r.read? path = some content)
    (he : path.endsWith s.extension = true) (hc : Covers r s.extension seen path) :
    Knows r (s.comeOut path written content children) seen := by
  have hcached (p : String) := Session.cached?_comeOut s path written content p children
  refine ⟨fun p => ?_, fun p hp => ?_, fun p hp hn => ?_⟩
  · rw [Session.comeOut_resolving ho, hcached, h.mem_iff p, ho, List.mem_cons,
      Session.comeOut_extension]
    split
    · next hpath => simp [hpath, he]
    · next hpath => simp [hpath]
  · rw [hcached] at hp
    split at hp
    · next hpath => simp [hpath, hr]
    · exact h.readable p hp
  · rw [Session.comeOut_resolving ho] at hn
    by_cases hpath : p = path
    · exact hpath ▸ hc
    · refine h.covers p hp fun hm => ?_
      rw [ho] at hm
      exact (List.mem_cons.1 hm).elim hpath hn

/-- Once the first ways on from a file are gone, all the spec files that it includes are known. -/
theorem covers_of_fresh {outer : List String} (hr : r.read? path = some content)
    (ho : path :: outer ⊆ seen) :
    Covers r extension (files (fresh seen (waysBy r extension (Path.directory path) (path :: outer)
      (includes (parseSource path content).document.children))) ++ seen) path := by
  intro content' hr' i hi hnames hread
  cases hr.symm.trans hr'
  rw [mem_files_fresh]
  by_cases hn : target extension (Path.directory path) i.1 ∈ path :: outer
  · exact List.mem_append_right _ (ho hn)
  · obtain ⟨text, ht⟩ := Option.isSome_iff_exists.1 hread
    refine List.mem_append_left _ (List.mem_map.2 ⟨⟨_, path :: outer⟩, ?_, rfl⟩)
    refine List.mem_flatMap.2 ⟨i, hi, ?_⟩
    rw [if_pos hnames, ways_of_read hn ht]
    exact List.mem_cons_self

end

/-! ## Runs -/

theorem Answers.visits {written : String} {span : Span} {s after : Session} {out : List Statement}
    {seen : List String} (h : Answers r base written span s out after) (hk : Knows r s seen) :
    Knows r after seen ∧
      after.problems = s.problems ++ failure r s.extension base s.resolving (written, span) ∧
      fresh seen (waysBy r s.extension base s.resolving [(written, span)]) = [] := by
  have hunread (path : String) (hp : namesSpec s.extension base written = true →
      (r.read? (target s.extension base written)).isSome → target s.extension base written ∈ seen) :
      fresh seen (waysBy r s.extension base s.resolving [(written, span)]) = [] := by
    rw [waysBy, List.flatMap_singleton]
    split
    · next hnames => exact hk.fresh_eq_nil (hp hnames)
    · rfl
  cases h with
  | remote hw =>
    refine ⟨⟨hk.mem_iff, hk.readable, hk.covers⟩, ?_, hunread written fun hnames => ?_⟩
    · simp [failure, hw, Session.report]
    · simp [namesSpec, hw] at hnames
  | circular hw hn =>
    refine ⟨⟨hk.mem_iff, hk.readable, hk.covers⟩, ?_, hunread written fun _ _ => ?_⟩
    · simp [failure, hw, hn, Session.report]
    · exact (hk.mem_iff _).2 (.inl hn)
  | cached hw hn hc =>
    have hread := hk.readable _ (by rw [hc]; rfl)
    refine ⟨hk, ?_, hunread written fun hnames _ => ?_⟩
    · simp [failure, hw, hn, Option.isSome_iff_ne_none.1 hread]
    · simp only [namesSpec, Bool.and_eq_true] at hnames
      exact (hk.mem_iff _).2 (.inr ⟨hnames.2, by rw [hc]; rfl⟩)
  | unreadable hw hn hc hr =>
    refine ⟨⟨hk.mem_iff, hk.readable, hk.covers⟩, ?_, hunread written fun _ hread => ?_⟩
    · simp [failure, hw, hn, hr, Session.report, Session.countRead]
    · simp [hr] at hread
  | text hw hn hc hr he =>
    refine ⟨hk.storeText hr he, ?_, hunread written fun hnames => ?_⟩
    · simp [failure, hw, hn, hr, Session.store, Session.countRead]
    · simp [namesSpec, he] at hnames

theorem waysBy_append (inside : List String) (is is' : List (String × Span)) :
    waysBy r extension base inside (is ++ is') =
      waysBy r extension base inside is ++ waysBy r extension base inside is' := List.flatMap_append

theorem mem_append_left_comm {α : Type} {a b c : List α} (x : α) : x ∈ a ++ b ++ c ↔ x ∈ b ++ (a ++ c) := by
  simp only [List.mem_append]
  rw [or_assoc, or_left_comm]

theorem gathered {α : Type} {before middle after f f' w w' : List α} (h : middle.Perm (before ++ f ++ w))
    (k : after.Perm (middle ++ f' ++ w')) : after.Perm (before ++ (f ++ f') ++ (w ++ w')) := by
  have hswap : (w ++ (f' ++ w')).Perm (f' ++ (w ++ w')) := List.perm_append_comm_assoc w f' w'
  refine k.trans (((h.append_right f').append_right w').trans ?_)
  simpa only [List.append_assoc] using (hswap.append_left f).append_left before

/-- The first way to a spec file is followed by the first ways on from it. -/
theorem fresh_ways {seen above : List String} {path content : String} (hseen : path ∉ seen)
    (hn : path ∉ above) (hr : r.read? path = some content) :
    fresh seen (ways r extension above path) = ⟨path, above⟩ :: fresh (path :: seen)
      (waysBy r extension (Path.directory path) (path :: above)
        (includes (parseSource path content).document.children)) := by
  rw [ways_of_read hn hr, fresh, if_neg hseen]

/-- Back from a spec file, the session knows the file and all that it leads to. -/
theorem Knows.through {s mid : Session} {seen : List String} {path written content : String}
    {children : List Statement} (hk : Knows r s seen) (hseen : path ∉ seen) (hn : path ∉ s.resolving)
    (hr : r.read? path = some content) (he : path.endsWith s.extension = true)
    (inside : Resolves r (Path.directory path) (parseSource path content).document.children
      (s.goInside path content) children mid)
    (hmid : Knows r mid (files (fresh (path :: seen) (waysBy r s.extension (Path.directory path)
      (path :: s.resolving) (includes (parseSource path content).document.children))) ++ path :: seen)) :
    Knows r (mid.comeOut path written content children)
      (files (fresh seen (ways r s.extension s.resolving path)) ++ seen) := by
  have hextension : mid.extension = s.extension := inside.extension_eq
  have hresolving : mid.resolving = path :: s.resolving := inside.resolving_eq
  have houter : path :: s.resolving ⊆ path :: seen :=
    List.cons_subset_cons path fun p hp => (hk.mem_iff p).2 (.inl hp)
  have hout : Knows r (mid.comeOut path written content children) _ :=
    hmid.comeOut hresolving hr (hextension ▸ he) (hextension ▸ covers_of_fresh hr houter)
  rw [fresh_ways hseen hn hr]
  exact hout.congr fun p => by simp [or_left_comm]

/-- **Problems and known files grow by the first ways.** -/
theorem Resolves.visits {statements out : List Statement} {s after : Session} {seen : List String}
    (h : Resolves r base statements s out after) (hk : Knows r s seen) :
    Knows r after
        (files (fresh seen (waysBy r s.extension base s.resolving (includes statements))) ++ seen) ∧
      after.problems.Perm (s.problems ++
        (includes statements).flatMap (failure r s.extension base s.resolving) ++
        (fresh seen (waysBy r s.extension base s.resolving (includes statements))).flatMap
          (Way.problems r s.extension)) := by
  induction h generalizing seen with
  | nil base s => simpa [includes, waysBy, fresh] using hk
  | @answer base written span rest out later s mid after here there ih =>
    obtain ⟨hmid, hproblems, hnone⟩ := here.visits hk
    obtain ⟨hafter, hperm⟩ := ih hmid
    rw [here.extension_eq, here.resolving_eq] at hafter hperm
    rw [includes, ← List.singleton_append, waysBy_append, fresh_append, hnone, List.flatMap_append,
      List.flatMap_singleton]
    refine ⟨hafter, ?_⟩
    rw [hproblems] at hperm
    simpa [List.append_assoc] using hperm
  | @spec base written content span rest children later s mid after hw hn hc hr he inside there
      ihi iht =>
    have hseen : target s.extension base written ∉ seen := by
      rw [hk.mem_iff, hc]
      simp [hn]
    have hnone : failure r s.extension base s.resolving (written, span) = [] := by
      simp [failure, hw, hn, hr]
    have hways : waysBy r s.extension base s.resolving [(written, span)] =
        ways r s.extension s.resolving (target s.extension base written) := by
      simp [waysBy, namesSpec, hw, he]
    obtain ⟨hmid, hfirst⟩ := ihi (hk.goInside (target s.extension base written) content)
    obtain ⟨hafter, hsecond⟩ := iht (hk.through hseen hn hr he inside hmid)
    rw [Session.comeOut_extension, inside.extension_eq, Session.comeOut_resolving inside.resolving_eq]
      at hafter hsecond
    rw [includes, ← List.singleton_append, waysBy_append, hways, fresh_append, List.flatMap_append,
      List.flatMap_append, files_append, List.flatMap_singleton, hnone]
    refine ⟨hafter.congr mem_append_left_comm, gathered ?_ hsecond⟩
    rw [fresh_ways hseen hn hr, List.flatMap_cons, Way.problems_of_read hr]
    simpa [Session.goInside, Session.report, Session.countRead, Session.comeOut, Session.leave,
      Session.store, List.append_assoc] using hfirst
  | @module base header span children inner rest later s mid after inside there ihi iht =>
    obtain ⟨hmid, hfirst⟩ := ihi hk
    obtain ⟨hafter, hsecond⟩ := iht hmid
    rw [inside.extension_eq, inside.resolving_eq] at hafter hsecond
    rw [includes, waysBy_append, fresh_append, List.flatMap_append, List.flatMap_append, files_append]
    exact ⟨hafter.congr mem_append_left_comm, gathered hfirst hsecond⟩
  | other hi hm there ih =>
    rw [includes_other hi hm]
    exact ih hk

/-! ## Files -/

theorem knows_begin (r : Reader) (extension root : String) :
    Knows r (({ extension } : Session).begin root) [root] where
  mem_iff p := by
    change p ∈ [root] ↔ p ∈ [root] ∨ _ ∧ (none : Option Import).isSome = true
    simp
  readable p hp := by cases hp
  covers p hp hn := absurd hp hn

/-- **The problems of a resolution** are those of the files that it comes to, each of which is taken once, on
the first way to it. -/
theorem resolveFile_problems (r : Reader) (extension file : String) :
    (resolveFile r file { extension }).1.problems.Perm (problemsOf r extension (Path.normalize file)) := by
  unfold problemsOf
  cases hread : r.read? (Path.normalize file) with
  | none => rw [resolveFile_unreadable _ hread]
  | some content =>
    have run := resolves r (Path.directory (Path.normalize file))
      (parseSource (Path.normalize file) content).document.children
      (({ extension } : Session).begin (Path.normalize file))
    have hperm := (run.visits (knows_begin r extension (Path.normalize file))).2
    rw [resolveFile_of_resolves hread run]
    dsimp only [visits]
    rw [fresh_ways List.not_mem_nil List.not_mem_nil hread, List.flatMap_cons, Way.problems_of_read hread,
      List.append_assoc]
    exact hperm.append_left _

/-! ## The files that one comes to -/

section

variable {root path : String} {above : List String} {w : Way}

theorem leadsTo_of_mem {content : String} {i : String × Span} (h : r.read? path = some content)
    (hi : i ∈ includes (parseSource path content).document.children)
    (hnames : namesSpec extension (Path.directory path) i.1 = true) :
    LeadsTo r extension path (target extension (Path.directory path) i.1) := by
  simp only [namesSpec, Bool.and_eq_true, Bool.not_eq_true'] at hnames
  exact .intro h (mentions_iff.2 ⟨i.2, hi⟩) hnames.1

theorem read_of_ways (hw : w ∈ ways r extension above path) : (r.read? path).isSome = true := by
  cases hr : r.read? path with
  | none =>
    rw [ways_of_unreadable hr] at hw
    cases hw
  | some => rfl

/-- A way goes along the includes. -/
theorem reaches_of_ways (hp : (r.read? path).isSome → IsNode r extension root path)
    (hw : w ∈ ways r extension above path) : ReflTransGen (Edge r extension root) path w.file := by
  fun_induction ways r extension above path with
  | case1 => cases hw
  | case2 => cases hw
  | case3 above path hn content hr ih =>
    rcases List.mem_cons.1 hw with rfl | hw
    · exact .refl
    · obtain ⟨i, hi, hw⟩ := List.mem_flatMap.1 hw
      split at hw
      · next hnames =>
        have hends := (Bool.and_eq_true_iff.1 hnames).2
        have hedge : Edge r extension root path (target extension (Path.directory path) i.1) :=
          ⟨hp (by simp [hr]), .inr ⟨read_of_ways hw, hends⟩, leadsTo_of_mem hr hi hnames⟩
        exact .head hedge (ih i (fun hread => .inr ⟨hread, hends⟩) hw)
      · cases hw

theorem ways_below {content : String} {i : String × Span} (hn : path ∉ above)
    (hr : r.read? path = some content) (hi : i ∈ includes (parseSource path content).document.children)
    (hnames : namesSpec extension (Path.directory path) i.1 = true) :
    ways r extension (path :: above) (target extension (Path.directory path) i.1) ⊆
      ways r extension above path := by
  intro w hw
  rw [ways_of_read hn hr]
  exact List.mem_cons_of_mem _ (List.mem_flatMap.2 ⟨i, hi, by rwa [if_pos hnames]⟩)

/-- The spec files that a file on a way includes are above the way, or there is a way to them. -/
theorem mem_of_leadsTo {q : String} (hw : w ∈ ways r extension above path)
    (hq : LeadsTo r extension w.file q) (hread : (r.read? q).isSome = true)
    (he : q.endsWith extension = true) : q ∈ files (ways r extension above path) ++ above := by
  induction above, path using ways.induct r extension with
  | case1 above path hin =>
    rw [ways_of_mem hin] at hw
    cases hw
  | case2 above path hn hr =>
    rw [ways_of_unreadable hr] at hw
    cases hw
  | case3 above path hn content hr ih =>
    have hbelow (i : String × Span) (hi : i ∈ includes (parseSource path content).document.children)
        (hnames : namesSpec extension (Path.directory path) i.1 = true)
        (hmem : q ∈ files (ways r extension (path :: above) (target extension (Path.directory path) i.1)) ++
          path :: above) : q ∈ files (ways r extension above path) ++ above := by
      rcases List.mem_append.1 hmem with hmem | hmem
      · exact List.mem_append_left _ (List.map_subset _ (ways_below hn hr hi hnames) hmem)
      · rcases List.mem_cons.1 hmem with rfl | hmem
        · rw [ways_of_read hn hr]
          exact List.mem_append_left _ List.mem_cons_self
        · exact List.mem_append_right _ hmem
    rw [ways_of_read hn hr] at hw
    rcases List.mem_cons.1 hw with rfl | hw
    · cases hq with
      | @intro content' written hr' hm hremote =>
        cases hr.symm.trans hr'
        obtain ⟨span, hi⟩ := mentions_iff.1 hm
        have hnames : namesSpec extension (Path.directory path) written = true := by
          simp [namesSpec, hremote, he]
        refine hbelow (written, span) hi hnames ?_
        by_cases hmem : target extension (Path.directory path) written ∈ path :: above
        · exact List.mem_append_right _ hmem
        · obtain ⟨text, ht⟩ := Option.isSome_iff_exists.1 hread
          rw [ways_of_read hmem ht]
          exact List.mem_cons_self
    · obtain ⟨i, hi, hw⟩ := List.mem_flatMap.1 hw
      split at hw
      · next hnames => exact hbelow i hi hnames (ih i hw)
      · cases hw

/-- **There is a first way to each file that one comes to**, and to no other. -/
theorem mem_visits_iff {p : String} : p ∈ files (visits r extension root) ↔
    (r.read? root).isSome = true ∧ ReflTransGen (Edge r extension root) root p := by
  have hfiles : p ∈ files (visits r extension root) ↔ p ∈ files (ways r extension [] root) := by
    simpa only [List.append_nil, visits] using mem_files_fresh [] (ways r extension [] root) p
  rw [hfiles]
  clear hfiles
  constructor
  · intro h
    obtain ⟨w, hw, rfl⟩ := List.mem_map.1 h
    exact ⟨read_of_ways hw, reaches_of_ways (fun _ => .inl rfl) hw⟩
  · rintro ⟨hread, hreach⟩
    obtain ⟨content, hr⟩ := Option.isSome_iff_exists.1 hread
    have hroot : root ∈ files (ways r extension [] root) := by
      rw [ways_of_read List.not_mem_nil hr]
      exact List.mem_cons_self
    induction hreach with
    | refl => exact hroot
    | tail _ hedge ih =>
      obtain ⟨w, hw, rfl⟩ := List.mem_map.1 ih
      rcases hedge.2.1 with rfl | ⟨hq, he⟩
      · exact hroot
      · simpa using mem_of_leadsTo hw hedge.2.2 hq he

end

end SpecTree.Include
