import SpecTree.Proofs.Plan.Order

/-!
# Compiling into a directory that is cleared

A compilation that does not use the record of its root removes what the plan directory holds before it writes
the root's spec. What was there has no part in it then: it comes to what a compilation in the cleared
directory comes to, but for the reason why the root is compiled, which the root's result tells
(`Session.exists_cleared`).

1. `recast` gives the root another reason to be compiled. A step does the same whatever the reason
   (`Census.Step.of_recast`).
2. The first step examines the root and clears the directory (`Census.Step.first_of_cleared`).
-/

namespace SpecTree.Plan

open TreeState Store

variable {p : TreePolicy} {mayReply : Request → Except Failure Expansion → Prop} {s s' t : Store} {c c' : Census}
  {d : Draft} {r : NodeResult} {v : Visit} {dif dif' : Difference} {o : Outcome} {base : Place}
  {directory stamp : String} {lines : List Log.Line}

/-! ## Another reason to compile -/

namespace Draft

/-- The draft of a node that is compiled for the reason that `dif` gives. -/
def regard (dif : Difference) (d : Draft) : Draft :=
  { d with difference := { d.difference with reason := dif.reason, previous := dif.previous } }

theorem note_regard (d : Draft) (what : String) (failure : Option FileError) :
    (d.regard dif).note what failure = (d.note what failure).map (regard dif) := by
  cases failure with
  | none => rfl
  | some e =>
    unfold note
    dsimp only
    split <;> rfl

theorem keep_regard (d : Draft) (what : String) (written : Store × Option FileError) :
    (d.regard dif).keep what written = (d.keep what written).map fun x => (x.1, x.2.regard dif) := by
  unfold keep
  rw [note_regard]
  cases d.note what written.2 <;> rfl

theorem keepContext_regard (d : Draft) (s : Store) (directory : String) (o : Outcome) :
    (d.regard dif).keepContext s directory o
      = (d.keepContext s directory o).map fun x => (x.1, x.2.regard dif) := by
  unfold keepContext
  split
  · exact keep_regard ..
  · rfl

theorem keepQuestions_regard (d : Draft) (s : Store) (directory : String) (o : Outcome) :
    (d.regard dif).keepQuestions s directory o
      = (d.keepQuestions s directory o).map fun x => (x.1, x.2.regard dif) := by
  have hq : (d.regard dif).questionnaire o = d.questionnaire o := rfl
  unfold keepQuestions
  rw [hq]
  dsimp only
  split
  · rfl
  · exact keep_regard ..

theorem keepRecord_regard (d : Draft) (stamp : String) (s : Store) (directory : String) (o : Outcome) :
    (d.regard dif).keepRecord stamp s directory o
      = (d.keepRecord stamp s directory o).map fun x => (x.1, x.2.regard dif) := by
  unfold keepRecord
  split
  · rfl
  · exact keep_regard ..

/-- The reason has no part in what is written, and the result only tells it. -/
theorem finish_regard (h : d.finish stamp s directory o = .ok (t, r, lines)) :
    (d.regard dif).finish stamp s directory o
      = .ok (t, { r with cacheStatus := some (.compared dif.reason) }, lines) := by
  let d₀ : Draft := { d with errors := d.errors ++ o.errors d.visit.path }
  obtain ⟨t₁, d₁, t₂, d₂, d₃, h₁, h₂, h₃, rfl, rfl⟩ := finish_eq_ok h
  have hc : (d₀.regard dif).keepContext s directory o = .ok (t₁, d₁.regard dif) := by
    rw [keepContext_regard, h₁]
    rfl
  have hq : (d₁.regard dif).keepQuestions t₁ directory o = .ok (t₂, d₂.regard dif) := by
    rw [keepQuestions_regard, h₂]
    rfl
  show ((d₀.regard dif).writeRest stamp s directory o).bind _ = _
  rw [writeRest_eq hc hq, keepRecord_regard, h₃]
  rfl

/-- The draft with the reason that `dif` gives, if it is one of the root. -/
def recast (dif : Difference) (d : Draft) : Draft := if d.visit.ancestry = [rootName] then d.regard dif else d

@[simp] theorem recast_visit (d : Draft) : (d.recast dif).visit = d.visit := by
  unfold recast
  split <;> rfl

end Draft

namespace NodeResult

/-- The result with the reason that `dif` gives, if it is one of the root. -/
def recast (dif : Difference) (r : NodeResult) : NodeResult :=
  if r.ancestry = [rootName] then { r with cacheStatus := some (.compared dif.reason) } else r

@[simp] theorem recast_nodePath (r : NodeResult) : (r.recast dif).nodePath = r.nodePath := by
  unfold recast
  split <;> rfl

@[simp] theorem visitsBelow_recast (r : NodeResult) : visitsBelow (r.recast dif) = visitsBelow r := by
  unfold recast
  split <;> rfl

end NodeResult

/-- Finishing the root for another reason comes to the same, but for the reason. -/
theorem Draft.finish_recast (h : d.finish stamp s directory o = .ok (t, r, lines)) :
    (d.recast dif).finish stamp s directory o = .ok (t, r.recast dif, lines) := by
  obtain ⟨d', rfl, hv⟩ := result_of_finish h
  have ha : (Draft.result d' o).ancestry = d.visit.ancestry := congrArg Visit.ancestry hv
  by_cases hroot : d.visit.ancestry = [rootName]
  · rw [recast, if_pos hroot, NodeResult.recast, if_pos (ha.trans hroot)]
    exact finish_regard h
  · rw [recast, if_neg hroot, NodeResult.recast, if_neg (ha ▸ hroot)]
    exact h

/-! ## Steps with another reason -/

namespace Census

def recast (dif : Difference) (c : Census) : Census :=
  { c with
    waiting := c.waiting.map (Draft.recast dif)
    inFlight := c.inFlight.map (Draft.recast dif)
    results := c.results.map (NodeResult.recast dif) }

/-- The root has been taken up. -/
def RootTaken (c : Census) : Prop := ∀ v ∈ c.pending, v.ancestry ≠ [rootName]

theorem recast_settle (c : Census) (r : NodeResult) :
    (c.settle r).recast dif = (c.recast dif).settle (r.recast dif) := by
  simp [settle, recast]

theorem RootTaken.settle (h : c.RootTaken) (hr : IsAncestry r.ancestry) : (c.settle r).RootTaken := by
  refine List.forall_mem_append.2 ⟨h, fun v hv => ?_⟩
  obtain ⟨-, n, -, he⟩ := exists_name_of_mem_visitsBelow hr hv
  obtain ⟨names, hnames, -⟩ := hr
  rw [he, hnames]
  simp

/-- A root that has been taken up is not pending again. -/
theorem RootTaken.step (hn : c.Named) (h : c.RootTaken) (hs : Step p mayReply c c') : c'.RootTaken := by
  have hn' := hn.step hs
  have hlast {c : Census} {r : NodeResult} (hn : (c.settle r).Named) : IsAncestry r.ancestry :=
    (hn.results r (List.mem_append_right _ (List.mem_singleton_self r))).ancestry
  cases hs with
  | refuse hp | lose hp | withdraw hp | wait hp => exact (forall_mem_split hp h).2
  | grant => exact h
  | @reuse before after v d r lines hp ha he hj =>
    have hc : RootTaken { c with pending := before ++ after, visited := c.visited + 1 } := (forall_mem_split hp h).2
    exact hc.settle (hlast hn')
  | @keep before after v d draft store store' result lines lines' hp ha he hj hd hf =>
    have hc : RootTaken { c with store := store', pending := before ++ after, visited := c.visited + 1 } :=
      (forall_mem_split hp h).2
    exact hc.settle (hlast hn')
  | @finish before after d reply store result lines hi hr hf =>
    have hc : RootTaken { c with store, inFlight := before ++ after } := h
    exact hc.settle (hlast hn')

/-- **A step does the same whatever the reason to compile the root.** -/
theorem Step.of_recast (h0 : p.directory.contains '\x00' = false) (hn : c.Named) (h : c.RootTaken)
    (hs : Step p mayReply (c.recast dif) c') : ∃ c₀, Step p mayReply c c₀ ∧ c' = c₀.recast dif := by
  cases hs with
  | refuse hp ha => exact ⟨_, .refuse hp ha, rfl⟩
  | lose hp ha he => exact ⟨_, .lose hp ha he, rfl⟩
  | withdraw hp ha he hj hc => exact ⟨_, .withdraw hp ha he hj hc, rfl⟩
  | @reuse before after v d r lines hp ha he hj =>
    refine ⟨_, .reuse hp ha he hj, ?_⟩
    have hv : (v.reuse r d.reason).ancestry ≠ [rootName] := (forall_mem_split hp h).1
    rw [recast_settle, NodeResult.recast, if_neg hv]
    rfl
  | @keep before after v d draft store store' result lines lines' hp ha he hj hd hf =>
    refine ⟨_, .keep hp ha he hj hd hf, ?_⟩
    have hdv := (prepare_eq_ok hd).2
    obtain ⟨d', rfl, hv⟩ := result_of_finish hf
    have hr : (Draft.result d' .plain).ancestry ≠ [rootName] := by
      show d'.visit.ancestry ≠ _
      rw [hv]
      exact hdv ▸ (forall_mem_split hp h).1
    rw [recast_settle, NodeResult.recast, if_neg hr]
    rfl
  | @wait before after v d draft store lines hp ha he hj hc hd =>
    refine ⟨_, .wait hp ha he hj hc hd, ?_⟩
    have hdv := (prepare_eq_ok hd).2
    have hr : ({ draft with lines := [] } : Draft).recast dif = { draft with lines := [] } :=
      if_neg (show draft.visit.ancestry ≠ _ from hdv ▸ (forall_mem_split hp h).1)
    rw [recast, recast, List.map_append, List.map_singleton, hr]
  | @grant before after d hw hlt =>
    obtain ⟨before₀, rest, hw₀, rfl, hrest⟩ := List.map_eq_append_iff.1 (show c.waiting.map _ = _ from hw)
    obtain ⟨d₀, after₀, rfl, rfl, rfl⟩ := List.map_eq_cons_iff.1 hrest
    refine ⟨_, .grant hw₀ (by simpa [recast] using hlt), ?_⟩
    simp [recast]
  | @finish before after d reply store result lines hi hr hf =>
    obtain ⟨before₀, rest, hi₀, rfl, hrest⟩ := List.map_eq_append_iff.1 (show c.inFlight.map _ = _ from hi)
    obtain ⟨d₀, after₀, rfl, rfl, rfl⟩ := List.map_eq_cons_iff.1 hrest
    have hd₀ := (forall_mem_split hi₀ hn.inFlight).1
    obtain ⟨t, d', lines', hf₀, -⟩ := exists_finish h0 hd₀ c.store p.node.stamp (.ofReply reply)
    cases (Draft.finish_recast hf₀).symm.trans hf
    refine ⟨_, .finish hi₀ (by simpa using hr) hf₀, ?_⟩
    simp [recast, settle]

/-- So does a run. -/
theorem reaches_of_recast (h0 : p.directory.contains '\x00' = false) (hn : c.Named) (h : c.RootTaken)
    (hs : Relation.ReflTransGen (Step p mayReply) (c.recast dif) c') :
    ∃ c₀, Relation.ReflTransGen (Step p mayReply) c c₀ ∧ c' = c₀.recast dif := by
  suffices h : ∃ c₀, (Relation.ReflTransGen (Step p mayReply) c c₀ ∧ c' = c₀.recast dif) ∧ c₀.Named ∧ c₀.RootTaken from
    h.imp fun _ h => h.1
  induction hs with
  | refl => exact ⟨c, ⟨.refl, rfl⟩, hn, h⟩
  | tail hs hstep ih =>
    obtain ⟨c₀, ⟨hrun, rfl⟩, hn₀, h₀⟩ := ih
    obtain ⟨c₁, hstep₀, rfl⟩ := hstep.of_recast h0 hn₀ h₀
    exact ⟨c₁, ⟨hrun.tail hstep₀, rfl⟩, hn₀.step hstep₀, h₀.step hn₀ hstep₀⟩

end Census

/-! ## Clearing -/

/-- The plan directory can be made, and nothing is left in it when what it holds is removed. -/
def Clearable (s : Store) (directory : String) : Prop :=
  (s.makeDirectories directory).2 = none ∧
    ∃ t base, invalidate (s.makeDirectories directory).1 directory rootName = (t, none)
      ∧ t.find true directory = .ok (base, .directory) ∧ ∀ rel, rel ≠ [] → t.entry? (base ++ rel) = none

theorem Shelved.entry?_of_empty (h : Shelved s directory base Shelf.empty) {rel : List String} (hr : rel ≠ []) :
    s.entry? (base ++ rel) = none := by
  refine Option.eq_none_iff_forall_ne_some.2 fun e he => ?_
  rcases h.only hr he with ⟨q, hq⟩ | ⟨names, q, a, hq, -⟩
  · cases hq
  · cases hq

/-- In an empty directory there is nothing to remove. -/
theorem Shelved.invalidate_empty (h : Shelved s directory base Shelf.empty) :
    invalidate s directory rootName = (s, none) := by
  have hnone : s.childrenOf base = [] := by
    refine List.eq_nil_iff_forall_not_mem.2 fun ⟨n, e⟩ hm => ?_
    rw [← List.append_nil base, mem_childrenOf [] h.distinct, List.append_nil,
      h.entry?_of_empty (List.cons_ne_nil n [])] at hm
    cases hm
  have hdir := h.anchored.find_directory
  simp only [invalidate, if_true, isDirectory, ask_of_find hdir, list_of_find hdir, hnone]
  rfl

theorem Clearable.of_shelved {shelf : Shelf} (hmade : (s.makeDirectories directory).2 = none)
    (h : Shelved (s.makeDirectories directory).1 directory base shelf) : Clearable s directory := by
  obtain ⟨t, hclear, ht⟩ := h.invalidate_root
  exact ⟨hmade, t, base, hclear, ht.anchored.find_directory, fun _ hr => ht.entry?_of_empty hr⟩

/-- **What compilations leave can be cleared,** if the directory had nothing in it at first. -/
theorem Vacant.clearable_afterwards (h : Vacant s directory) {xs : List Session}
    (hxs : ∀ x ∈ xs, x.policy.directory = directory) : Clearable (afterwards s xs) directory := by
  obtain ⟨base, hs⟩ := h.shelved
  have hsize := Store.size_of_makeDirectories h.1
  cases xs with
  | nil => exact .of_shelved h.1 hs
  | cons x xs =>
    -- The first of them makes the directory.
    have hx := hxs x List.mem_cons_self
    have hrun : x.run s = x.run (s.makeDirectories directory).1 := by
      obtain ⟨hstart, -⟩ : x.start (afterwards s []) = x.start (afterwards (s.makeDirectories directory).1 [])
          ∧ (Answered (fun _ _ => True) s [] ↔ Answered (fun _ _ => True) (s.makeDirectories directory).1 []) :=
        start_afterwards_of_vacant h (List.forall_mem_singleton.2 hx)
      exact congrArg (TreeState.run x.policy · x.moves) hstart
    obtain ⟨old, hold, -⟩ := exists_shelf_afterwards
      (fun y hy => ⟨hxs y hy, custom_any y.policy, rfl⟩) hsize hs drawn_empty
      (answered_any (s.makeDirectories directory).1 (x :: xs))
    have hsame := Store.makeDirectories_base hold.anchored hsize
    rw [afterwards, hrun]
    exact .of_shelved (by rw [← afterwards, hsame]) (by rwa [← afterwards, hsame])

/-- Examining the root shows that the path of its record is not too long. -/
theorem fits_root_of_examine (h0 : directory.contains '\x00' = false) {k : NodePolicy}
    (hv : v.ancestry = [rootName]) (he : examine k s directory v = .ok (dif, lines)) : Fits directory [] := by
  have hpath : metaPath directory v.path = Artifact.record.path directory [] := by
    rw [Visit.path, hv]
    rfl
  have hn : ∀ n ∈ ([] : List String), IsNodeName n := List.forall_mem_nil _
  refine ⟨Nat.lt_of_not_le fun hs => ?_, List.forall_mem_nil _⟩
  rw [examine, difference, readRecord, readJson, hpath, isFile_of_size (Artifact.noZero_path _ h0 hn) hs] at he
  cases he

/-- A difference has the digests of what is examined. -/
theorem hasDigests_of_examine (he : examine p.node s directory v = .ok (dif, lines)) : HasDigests p v dif := by
  obtain ⟨⟨previous, lines'⟩, -, he⟩ := bind_eq_ok he
  dsimp only at he
  cases previous with
  | none =>
    cases he
    exact ⟨rfl, rfl⟩
  | some r =>
    obtain ⟨reason, -, he⟩ := bind_eq_ok he
    cases he
    exact ⟨rfl, rfl⟩

/-- What is removed before the root is prepared has no part in it. -/
theorem prepare_regard (dif dif' : Difference) (hv : v.ancestry = [rootName])
    (hs : invalidate s directory rootName = (t, none))
    (ht : invalidate t directory rootName = (t, none)) :
    prepare s directory v { dif' with reason := dif.reason, previous := dif.previous }
      = (prepare t directory v dif').map fun x => (x.1, x.2.regard dif) := by
  have hpath : v.path = rootName := by
    rw [Visit.path, hv]
    rfl
  have hprepare {s : Store} (h : invalidate s directory rootName = (t, none)) (d : Difference) :
      prepare s directory v d = ({ visit := v, difference := d } : Draft).keep "spec artifact"
        (writeSpec t directory rootName v.spec) := by
    rw [prepare, hpath, h]
    dsimp only
    generalize writeSpec t directory rootName v.spec = written
    rfl
  refine (hprepare hs _).trans (Eq.trans ?_ (congrArg (Except.map _) (hprepare ht dif').symm))
  exact Draft.keep_regard { visit := v, difference := dif' } _ _

section

variable {root : Spec.Document} {metrics : Metrics} (h0 : p.directory.contains '\x00' = false)
  (hcache : p.node.useCache = false) (hclear : invalidate s p.directory rootName = (t, none))
  (ht : Shelved t p.directory base Shelf.empty)

include h0 hcache hclear ht

/-- **The root is prepared as in the cleared directory**, but for the reason to compile it. -/
theorem exists_prepare_cleared (hv : v.ancestry = [rootName])
    (he : examine p.node s p.directory v = .ok (dif, lines)) (hd : prepare s p.directory v dif = .ok (s', d)) :
    ∃ dif₀ d₀, examine p.node t p.directory v = .ok (dif₀, []) ∧ judge p.node v dif₀ = judge p.node v dif
      ∧ prepare t p.directory v dif₀ = .ok (s', d₀) ∧ d₀.visit = v
      ∧ ({ d with lines := [] } : Draft) = ({ d₀ with lines := [] } : Draft).recast dif := by
  have hv' : IsAncestry v.ancestry := hv ▸ isAncestry_root
  have hfits := fits_root_of_examine h0 hv he
  have hno : ∀ n ∈ ([] : List String), IsNodeName n := List.forall_mem_nil _
  let dif₀ : Difference := (v.draft p.node).difference
  have he₀ : examine p.node t p.directory v = .ok (dif₀, []) :=
    ht.examine_of_none p.node hv rfl hno (hasParents_nil _) hfits
  obtain ⟨u, d₀, hd₀, hvisit⟩ := exists_prepare h0 hv' t dif₀
  have hdif : dif = { dif₀ with reason := dif.reason, previous := dif.previous } := by
    obtain ⟨hspec, hcontext⟩ := hasDigests_of_examine he
    rw [show dif₀.specHash = dif.specHash from hspec.symm, show dif₀.contextHash = dif.contextHash from hcontext.symm]
  have hprepare := prepare_regard dif dif₀ hv hclear ht.invalidate_empty
  rw [← hdif, hd, hd₀] at hprepare
  cases hprepare
  refine ⟨_, d₀, he₀, ?_, hd₀, hvisit, ?_⟩
  · simp [judge, hcache]
  · rw [Draft.recast, if_pos (show d₀.visit.ancestry = _ from hvisit ▸ hv)]
    rfl

/-- **The first step** passes a ceiling, cannot examine the root, or does what it does in the cleared
directory, but for the reason to compile the root. -/
theorem Census.Step.first_of_cleared (hs : Census.Step p mayReply (initial s root metrics).census c) :
    c.exceeded.isSome = true ∨
      (∃ e, examine p.node s p.directory (rootVisit root) = .error e
        ∧ c = { (initial s root metrics).census with pending := [], visited := 1, failures := [(rootVisit root, e)] }) ∨
      ∃ dif lines c₀, examine p.node s p.directory (rootVisit root) = .ok (dif, lines)
        ∧ Census.Step p mayReply (initial t root metrics).census c₀ ∧ c = c₀.recast dif ∧ c₀.RootTaken := by
  have honly {before after : List Visit} {v : Visit} (h : [rootVisit root] = before ++ v :: after) :
      before = [] ∧ v = rootVisit root ∧ after = [] := by
    cases before with
    | nil => simpa [eq_comm] using h
    | cons w ws => simp at h
  have hfirst : (initial t root metrics).census.pending = [] ++ rootVisit root :: [] := rfl
  cases hs with
  | refuse hp ha => exact .inl (by simp)
  | withdraw hp ha he hj hc => exact .inl rfl
  | lose hp ha he =>
    obtain ⟨rfl, rfl, rfl⟩ := honly hp
    exact .inr (.inl ⟨_, he, rfl⟩)
  | reuse hp ha he hj =>
    rw [judge, if_neg (by simp [hcache])] at hj
    dsimp only at hj
    split at hj <;> cases hj
  | @keep before after v d draft store store' result lines lines' hp ha he hj hd hf =>
    obtain ⟨rfl, rfl, rfl⟩ := honly hp
    obtain ⟨dif₀, d₀, he₀, hj₀, hd₀, hv₀, hdraft⟩ := exists_prepare_cleared h0 hcache hclear ht rfl he hd
    have hv : IsAncestry ({ d₀ with lines := [] } : Draft).visit.ancestry := hv₀ ▸ isAncestry_root
    obtain ⟨u, d', lines₀, hf₀, -⟩ := exists_finish h0 hv store p.node.stamp .plain
    rw [hdraft] at hf
    cases (Draft.finish_recast hf₀).symm.trans hf
    have hnone : Census.RootTaken
        { (initial t root metrics).census with store := store', pending := [], visited := 1 } :=
      List.forall_mem_nil _
    refine .inr (.inr ⟨d, lines, _, he, .keep hfirst ha he₀ (hj₀.trans hj) hd₀ hf₀, ?_,
      hnone.settle (isFiled_of_finish hv hf₀).ancestry⟩)
    rw [Census.recast_settle]
    rfl
  | @wait before after v d draft store lines hp ha he hj hc hd =>
    obtain ⟨rfl, rfl, rfl⟩ := honly hp
    obtain ⟨dif₀, d₀, he₀, hj₀, hd₀, hv₀, hdraft⟩ := exists_prepare_cleared h0 hcache hclear ht rfl he hd
    refine .inr (.inr ⟨d, lines, _, he, .wait hfirst ha he₀ (hj₀.trans hj) hc hd₀, ?_, List.forall_mem_nil _⟩)
    rw [hdraft]
    rfl
  | grant hw => simp [census, initial] at hw
  | finish hi => simp [census, initial] at hi

end

/-! ## Sessions -/

/-- Where nothing is in any hands, nothing can happen. -/
theorem Census.Step.false_of_idle (hp : c.pending = []) (hw : c.waiting = []) (hi : c.inFlight = [])
    (hs : Census.Step p mayReply c c') : False := by
  cases hs with
  | refuse h | lose h | withdraw h | reuse h | keep h | wait h => simp [hp] at h
  | grant h => simp [hw] at h
  | finish h => simp [hi] at h

/-- A state is done if its census is another's but for the reason to compile the root; the other is one of a state
that is done. -/
theorem IsFree.exists_recast {u : TreeState} (h : IsFree u) (hc : u.census = c.recast dif) :
    ∃ u' : TreeState, u'.census = c ∧ IsFree u' := by
  obtain ⟨hr, hw, hi⟩ := isDone_iff.1 h.isDone
  have hwaiting : c.waiting = [] := List.map_eq_nil_iff.1 ((congrArg Census.waiting hc).symm.trans hw)
  have hinFlight : c.inFlight = [] := List.map_eq_nil_iff.1 ((congrArg Census.inFlight hc).symm.trans hi)
  refine ⟨{ u with results := c.results }, ?_, ⟨h.isDone, h.exceeded⟩⟩
  calc ({ u with results := c.results } : TreeState).census
    _ = { c.recast dif with results := c.results } := by rw [← hc]; rfl
    _ = c := by
      rw [Census.recast, hwaiting, hinFlight]
      cases c
      simp_all

/-- **A compilation in a directory that it clears**, if it goes through: it cannot examine the root, or it comes
to what a compilation in the cleared directory comes to, but for the reason to compile the root. -/
theorem Session.exists_cleared {x : Session} (hmade : (s.makeDirectories x.policy.directory).2 = none)
    (hcache : x.policy.node.useCache = false)
    (hclear : invalidate (s.makeDirectories x.policy.directory).1 x.policy.directory rootName = (t, none))
    (ht : Shelved t x.policy.directory base Shelf.empty) (hf : x.Follows mayReply s) (hfree : IsFree (x.run s)) :
    (∃ e, examine x.policy.node (s.makeDirectories x.policy.directory).1 x.policy.directory (rootVisit x.root)
          = .error e
        ∧ (x.run s).results = [] ∧ (x.run s).failures = [(rootVisit x.root, e)]
        ∧ (x.run s).store = (s.makeDirectories x.policy.directory).1) ∨
      ∃ dif lines u, examine x.policy.node (s.makeDirectories x.policy.directory).1 x.policy.directory
          (rootVisit x.root) = .ok (dif, lines)
        ∧ Relation.ReflTransGen (Census.Step x.policy mayReply) (initial t x.root x.metrics).census u.census
        ∧ IsFree u ∧ (x.run s).census = u.census.recast dif := by
  have h0 := Store.noZero_of_makeDirectories hmade
  obtain ⟨hr, hw, hi⟩ := isDone_iff.1 hfree.isDone
  have hpending : (x.run s).census.pending = [] := by
    show (x.run s).ready.filterMap Task.visit? = []
    rw [hr]
    rfl
  have hn : (x.start s).census.Named := named_initial _ _ _
  rcases (census_run h0 hn hf).1.cases_head with he | ⟨c, hfirst, hrest⟩
  · -- The root is still to be visited.
    have hne : (x.start s).census.pending = [] := by rw [he]; exact hpending
    cases hne
  rcases hfirst.first_of_cleared h0 hcache hclear ht with hex | ⟨e, he, rfl⟩ | ⟨dif, lines, c₀, he, hstep, rfl, htaken⟩
  · have hclosed := (Census.Closed.run hex hrest).exceeded
    rw [← hclosed, show ((x.start s).run x.policy x.moves).census.exceeded = none from hfree.exceeded] at hex
    cases hex
  · rcases hrest.cases_head with hc | ⟨c, hs, -⟩
    · exact .inl ⟨e, he, (congrArg Census.results hc).symm, (congrArg Census.failures hc).symm,
        (congrArg Census.store hc).symm⟩
    · exact (hs.false_of_idle rfl rfl rfl).elim
  · obtain ⟨c₁, hrun, hc⟩ := Census.reaches_of_recast h0 ((named_initial _ _ _).step hstep) htaken hrest
    obtain ⟨u, rfl, hu⟩ := hfree.exists_recast hc
    exact .inr ⟨dif, lines, u, he, .head hstep hrun, hu, hc⟩

end SpecTree.Plan
