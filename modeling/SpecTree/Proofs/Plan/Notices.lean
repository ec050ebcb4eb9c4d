import Mathlib.Data.List.MinMax
import SpecTree.Proofs.Plan.Lineage

/-!
# Every failure is told

A node that is given up is told of by its parent, and its parent goes on only when all children have
ended. So a compilation that is done and tells of nothing has given no node up, but for the root
(`failures_eq_nil`).

1. `Watched`: every node under way is awaited by one parent, and every parent awaits nodes that are under
   way. While a move is made, one node may be in its hands (`held`).
2. Each part of a move keeps to this, and so does a run (`Watched.run`).
3. When nothing is under way, no parent waits: the deepest one would await a node below it.
-/

namespace SpecTree.Plan

/-- The node that a task is about. -/
def Task.node : Task → List String
  | .visit v => v.ancestry
  | .notice node => node
  | .resume family => family.parent

namespace TreeState

/-- The nodes that tasks and calls are about. -/
def hands (s : TreeState) : List (List String) :=
  s.ready.map Task.node ++ s.waiting.map (·.visit.ancestry) ++ s.inFlight.map (·.visit.ancestry)

/-- The nodes that have not ended. -/
def ongoing (s : TreeState) : List (List String) := s.hands ++ s.families.map Family.parent

/-- **Every node that has not ended is awaited**, but for the root; every failure is told of, or will be, and
nothing else is. -/
structure Watched (s : TreeState) (held : List (List String)) : Prop where
  named : ∀ a ∈ held ++ s.ongoing, IsAncestry a
  once : (held ++ s.ongoing).Nodup
  awaited : ∃ top, (∀ a ∈ top, a = [rootName]) ∧
    (held ++ s.ongoing).Perm (top ++ s.families.flatMap Family.awaited)
  waits : ∀ f ∈ s.families, f.awaited ≠ [] ∧ f.awaited ⊆ f.children ∧
    ∀ a ∈ f.awaited, ∃ n, a = f.parent ++ [n]
  told : ∀ x ∈ s.failures, x.1.ancestry = [rootName] ∨ s.errors ≠ [] ∨
    ∃ f, (f ∈ s.families ∨ .resume f ∈ s.ready) ∧ x.1.ancestry ∈ f.children
  quiet : s.failures = [] → s.errors = []

variable {s t : TreeState} {p : TreePolicy} {held held' : List (List String)} {a : List String} {v : Visit}
  {d : Draft}

namespace Watched

/-! ## Parts of a move -/

/-- Where nodes change hands and nothing is told. -/
theorem of_perm (h : Watched s held) (hp : (held' ++ t.ongoing).Perm (held ++ s.ongoing))
    (hf : t.families = s.families) (hr : ∀ f, Task.resume f ∈ s.ready → Task.resume f ∈ t.ready)
    (hx : t.failures = s.failures) (he : t.errors = s.errors) : Watched t held' := by
  obtain ⟨top, htop, hperm⟩ := h.awaited
  refine ⟨fun a ha => h.named a (hp.mem_iff.1 ha), hp.nodup_iff.2 h.once,
    ⟨top, htop, hf ▸ hp.trans hperm⟩, hf ▸ h.waits, fun x hxm => ?_, fun hn => he ▸ h.quiet (hx ▸ hn)⟩
  rw [hx] at hxm
  rw [he, hf]
  refine (h.told x hxm).imp_right (Or.imp_right ?_)
  rintro ⟨f, hfr, hc⟩
  exact ⟨f, hfr.imp_right (hr f), hc⟩

/-- Only what has no part in it changes. -/
theorem congr (h : Watched s held) (hr : t.ready = s.ready) (hf : t.families = s.families)
    (hw : t.waiting = s.waiting) (hi : t.inFlight = s.inFlight) (hx : t.failures = s.failures)
    (he : t.errors = s.errors) : Watched t held := by
  refine h.of_perm (.of_eq ?_) hf (fun f hfr => hr ▸ hfr) hx he
  rw [ongoing, ongoing, hands, hands, hr, hf, hw, hi]

/-- Who awaits a node. -/
theorem exists_family (h : Watched s held) (ha : a ∈ held ++ s.ongoing) :
    a = [rootName] ∨ ∃ f ∈ s.families, a ∈ f.awaited := by
  obtain ⟨top, htop, hperm⟩ := h.awaited
  rcases List.mem_append.1 (hperm.mem_iff.1 ha) with ha | ha
  · exact .inl (htop a ha)
  · exact .inr (List.mem_flatMap.1 ha)

/-- A node that ends is brought to the notice of its parent. -/
theorem ends (h : Watched s [a]) : Watched (s.await (.notice a)) [] := by
  refine h.of_perm (List.perm_iff_count.2 fun b => ?_) rfl (fun f hf => List.mem_append_left _ hf) rfl rfl
  simp only [ongoing, hands, await, List.map_append, List.map_cons, List.map_nil, Task.node,
    List.count_append, List.count_cons, List.count_nil]
  omega

theorem skip (h : Watched s [v.ancestry]) : Watched (s.skip v) [] :=
  Watched.ends (s := { s with skipped := s.skipped ++ [v.path] }) (h.congr rfl rfl rfl rfl rfl rfl)

/-- A node that is given up has a parent that will tell of it. -/
theorem abandon (h : Watched s [v.ancestry]) (e : FileError) : Watched (s.abandon v e) [] := by
  refine Watched.ends (s := { s with failures := s.failures ++ [(v, e)] })
    ⟨h.named, h.once, h.awaited, h.waits, ?_, fun hn => absurd hn (by simp)⟩
  intro x hx
  rcases List.mem_append.1 hx with hx | hx
  · exact h.told x hx
  · rw [List.mem_singleton.1 hx]
    rcases h.exists_family (List.mem_append_left _ (List.mem_singleton_self _)) with hv | ⟨f, hf, hv⟩
    · exact .inl hv
    · exact .inr (.inr ⟨f, .inl hf, (h.waits f hf).2.1 hv⟩)

/-- A node with children awaits them. -/
theorem branch (h : Watched s [a]) {children : List Visit} (hnd : (children.map Visit.ancestry).Nodup)
    (hc : ∀ w ∈ children, IsAncestry w.ancestry ∧ ∃ n, w.ancestry = a ++ [n]) :
    Watched (s.branch a children) [] := by
  by_cases h0 : children = []
  · rw [TreeState.branch, h0]
    exact h.ends
  have hbranch : s.branch a children = { s with
      families := ⟨a, children.map Visit.ancestry, children.map Visit.ancestry⟩ :: s.families
      ready := s.ready ++ children.map .visit } := if_neg (by simpa using h0)
  have hnodes : (children.map Task.visit).map Task.node = children.map Visit.ancestry := by
    rw [List.map_map]
    rfl
  have hperm : (s.branch a children).ongoing.Perm (([a] ++ s.ongoing) ++ children.map Visit.ancestry) := by
    refine List.perm_iff_count.2 fun b => ?_
    simp only [hbranch, ongoing, hands, List.map_append, List.map_cons, hnodes, List.count_append,
      List.count_cons, List.count_nil]
    omega
  -- A child that was known already would be awaited by this very node.
  have hnew : ∀ b ∈ [a] ++ s.ongoing, ∀ c ∈ children.map Visit.ancestry, b ≠ c := by
    rintro b hb c hcm rfl
    obtain ⟨w, hw, rfl⟩ := List.mem_map.1 hcm
    obtain ⟨-, n, hn⟩ := hc w hw
    obtain ⟨ns, hns, -⟩ := h.named a (List.mem_append_left _ (List.mem_singleton_self a))
    rcases h.exists_family hb with hroot | ⟨f, hf, hwf⟩
    · rw [hn, hns] at hroot
      simp at hroot
    · obtain ⟨m, hm⟩ := (h.waits f hf).2.2 _ hwf
      obtain ⟨hfa, -⟩ := List.append_inj' (hn.symm.trans hm) rfl
      refine (List.nodup_cons.1 h.once).1 (List.mem_append_right _ (List.mem_append_right _ ?_))
      rw [hfa]
      exact List.mem_map_of_mem hf
  obtain ⟨top, htop, hawaited⟩ := h.awaited
  refine ⟨fun b hb => ?_, hperm.nodup_iff.2 (List.nodup_append.2 ⟨h.once, hnd, hnew⟩),
    ⟨top, htop, hperm.trans ?_⟩, ?_, fun x hx => ?_, by rw [hbranch]; exact h.quiet⟩
  · rcases List.mem_append.1 (hperm.mem_iff.1 hb) with hb | hb
    · exact h.named b hb
    · obtain ⟨w, hw, rfl⟩ := List.mem_map.1 hb
      exact (hc w hw).1
  · refine (hawaited.append_right _).trans (List.perm_iff_count.2 fun b => ?_)
    simp only [hbranch, List.flatMap_cons, List.count_append]
    omega
  · rw [hbranch]
    refine List.forall_mem_cons.2 ⟨⟨by simpa using h0, fun _ hb => hb, fun b hb => ?_⟩, h.waits⟩
    obtain ⟨w, hw, rfl⟩ := List.mem_map.1 hb
    exact (hc w hw).2
  · rw [hbranch] at hx ⊢
    refine (h.told x hx).imp_right (Or.imp_right ?_)
    rintro ⟨f, hf, hxc⟩
    exact ⟨f, hf.imp (List.mem_cons_of_mem _) (List.mem_append_left _), hxc⟩

theorem record {r : NodeResult} (h : Watched s [r.ancestry]) : Watched (s.record r) [] := by
  have hr := h.named _ (List.mem_append_left _ (List.mem_singleton_self _))
  refine Watched.branch (s := { s with
    results := s.results ++ [r]
    metrics := s.metrics.countNode r.isLeaf r.cacheHit }) (h.congr rfl rfl rfl rfl rfl rfl) ?_
    fun w hw => ⟨isAncestry_of_mem_visitsBelow hr hw, ?_⟩
  · cases hl : r.isLeaf with
    | true => simp [visitsBelow_of_isLeaf hl]
    | false =>
      rw [ancestries_visitsBelow hr hl]
      exact (nodup_distinctNames _).map fun n m he => List.singleton_inj.1 (List.append_cancel_left he)
  · obtain ⟨-, n, -, hn⟩ := exists_name_of_mem_visitsBelow hr hw
    exact ⟨n, hn⟩

theorem conclude (h : Watched s [d.visit.ancestry]) (o : Outcome) :
    Watched (s.conclude p d o) [] := by
  have hd := h.named _ (List.mem_append_left _ (List.mem_singleton_self _))
  unfold TreeState.conclude
  split
  · exact h.abandon _
  · next hf =>
    obtain ⟨d', rfl, hd'⟩ := result_of_finish hf
    refine record (h.of_perm ?_ rfl (fun _ hf => hf) rfl rfl)
    rw [show (d'.result o).ancestry = d.visit.ancestry from congrArg Visit.ancestry hd']
    exact .refl _

/-- A node is in no other hands while it is prepared. -/
theorem prepareNode (h : Watched s [v.ancestry]) (p : TreePolicy) (dif : Difference) :
    (∃ u, s.prepareNode p v dif = (u, none) ∧ Watched u []) ∨
      ∃ u draft, s.prepareNode p v dif = (u, some draft) ∧ draft.visit = v ∧ Watched u [v.ancestry] := by
  have hv := h.named _ (List.mem_append_left _ (List.mem_singleton_self _))
  unfold TreeState.prepareNode
  split
  · exact .inl ⟨_, rfl, h.abandon _⟩
  · next hd =>
    have hdv := (prepare_eq_ok hd).2
    exact .inr ⟨_, _, rfl, hdv, h.congr rfl rfl rfl rfl rfl rfl⟩

theorem keepLeaf (h : Watched s [v.ancestry]) (dif : Difference) :
    Watched (s.keepLeaf p v dif) [] := by
  unfold TreeState.keepLeaf
  rcases h.prepareNode p dif with ⟨u, hu, hw⟩ | ⟨u, draft, hu, rfl, hw⟩
  · rw [hu]
    exact hw
  · rw [hu]
    exact hw.conclude _

theorem exceed (h : Watched s held) (c : Ceiling) (line : Log.Line) : Watched (s.exceed c line) held := by
  unfold TreeState.exceed
  split
  · exact h
  · exact h.congr rfl rfl rfl rfl rfl rfl

theorem ask (h : Watched s [v.ancestry]) (dif : Difference) :
    Watched (s.ask p v dif) [] := by
  have hc : Watched (s.checkCalls p) [v.ancestry] := by
    unfold checkCalls
    split
    · exact h.exceed _ _
    · exact h
  unfold TreeState.ask
  dsimp only
  split
  · exact Watched.skip (hc.congr rfl rfl rfl rfl rfl rfl)
  · have hcalls : Watched { s.checkCalls p with calls := (s.checkCalls p).calls + 1 } [v.ancestry] :=
      hc.congr rfl rfl rfl rfl rfl rfl
    rcases hcalls.prepareNode p dif with ⟨u, hu, hw⟩ | ⟨u, draft, hu, rfl, hw⟩
    · rw [hu]
      exact hw
    · rw [hu]
      refine hw.of_perm (List.perm_iff_count.2 fun b => ?_) rfl (fun _ hf => hf) rfl rfl
      simp only [ongoing, hands, List.map_append, List.map_cons, List.map_nil, List.count_append,
        List.count_cons, List.count_nil]
      omega

theorem compile (h : Watched s [v.ancestry]) :
    Watched (s.compile p v) [] := by
  unfold TreeState.compile
  split
  · exact h.abandon _
  · next dif lines he =>
    have htell : Watched (s.tell lines) [v.ancestry] := h.congr rfl rfl rfl rfl rfl rfl
    split
    · exact record htell
    · exact htell.keepLeaf dif
    · exact htell.ask dif

theorem visit (h : Watched s [v.ancestry]) :
    Watched (s.visit p v) [] := by
  have hc : Watched (s.checkNodes p) [v.ancestry] := by
    unfold checkNodes
    split
    · exact h.exceed _ _
    · exact h
  unfold TreeState.visit
  dsimp only
  split
  · exact hc.skip
  · exact Watched.compile (s := { s.checkNodes p with visited := (s.checkNodes p).visited + 1 })
      (hc.congr rfl rfl rfl rfl rfl rfl)

/-- No two families have one parent. -/
theorem family_eq (h : Watched s held) {f g : Family} (hf : f ∈ s.families) (hg : g ∈ s.families)
    (he : f.parent = g.parent) : f = g :=
  List.inj_on_of_nodup_map (List.nodup_append.1 (List.nodup_append.1 h.once).2.1).2.1 hf hg he

/-- The parent that takes notice of a node is the one that awaits it. -/
theorem mem_awaited (h : Watched s [a]) {f : Family} (hf : f ∈ s.families) (hp : f.parent = a.dropLast) :
    a ∈ f.awaited := by
  have hparent : IsAncestry f.parent :=
    h.named _ (List.mem_append_right _ (List.mem_append_right _ (List.mem_map_of_mem hf)))
  rcases h.exists_family (List.mem_append_left _ (List.mem_singleton_self a)) with rfl | ⟨g, hg, ha⟩
  · obtain ⟨ns, hns, -⟩ := hparent
    rw [hns] at hp
    cases hp
  · obtain ⟨n, hn⟩ := (h.waits g hg).2.2 a ha
    have he : g.parent = f.parent := by rw [hp, hn, List.dropLast_concat]
    exact h.family_eq hg hf he ▸ ha

/-- The root ends without a notice to anyone. -/
theorem notice_none (h : Watched s [a]) (hnone : s.families.find? (·.parent == a.dropLast) = none) :
    Watched s [] := by
  obtain ⟨top, htop, hperm⟩ := h.awaited
  have ha : a ∈ top := by
    rcases List.mem_append.1 (hperm.mem_iff.1 (List.mem_append_left _ (List.mem_singleton_self a))) with ha | ha
    · exact ha
    · obtain ⟨f, hf, ha⟩ := List.mem_flatMap.1 ha
      obtain ⟨n, hn⟩ := (h.waits f hf).2.2 a ha
      have := List.find?_eq_none.1 hnone f hf
      rw [hn, List.dropLast_concat] at this
      simp at this
  refine ⟨fun b hb => h.named b (List.mem_append_right _ hb), (List.nodup_append.1 h.once).2.1,
    ⟨top.erase a, fun b hb => htop b (List.mem_of_mem_erase hb), ?_⟩, h.waits, h.told, h.quiet⟩
  exact (hperm.trans ((List.perm_cons_erase ha).append_right _)).cons_inv

/-- Where the node at hand is awaited no longer, and parents keep their children. -/
theorem of_notice (h : Watched s [a]) (hsame : t.ongoing.Perm s.ongoing)
    (hawaited : (s.families.flatMap Family.awaited).Perm (a :: t.families.flatMap Family.awaited))
    (hwaits : ∀ f ∈ t.families, f.awaited ≠ [] ∧ f.awaited ⊆ f.children ∧
      ∀ b ∈ f.awaited, ∃ n, b = f.parent ++ [n])
    (hparents : ∀ f, f ∈ s.families ∨ Task.resume f ∈ s.ready →
      ∃ g, (g ∈ t.families ∨ Task.resume g ∈ t.ready) ∧ g.children = f.children)
    (hx : t.failures = s.failures) (he : t.errors = s.errors) : Watched t [] := by
  obtain ⟨top, htop, hperm⟩ := h.awaited
  refine ⟨fun b hb => h.named b (List.mem_append_right _ (hsame.mem_iff.1 hb)),
    hsame.nodup_iff.2 (List.nodup_append.1 h.once).2.1, ⟨top, htop, hsame.trans ?_⟩, hwaits,
    fun x hxm => ?_, fun hn => he ▸ h.quiet (hx ▸ hn)⟩
  · exact (hperm.trans ((hawaited.append_left top).trans List.perm_middle)).cons_inv
  · rw [hx] at hxm
    rw [he]
    refine (h.told x hxm).imp_right (Or.imp_right ?_)
    rintro ⟨f, hf, hxc⟩
    obtain ⟨g, hg, hc⟩ := hparents f hf
    exact ⟨g, hg, hc ▸ hxc⟩

theorem notice (h : Watched s [a]) : Watched (s.notice a) [] := by
  unfold TreeState.notice
  split
  · next hnone => exact h.notice_none hnone
  next f hfind =>
  obtain ⟨hp, before, after, hsplit, hbefore⟩ := List.find?_eq_some_iff_append.1 hfind
  have hf : f ∈ s.families := by rw [hsplit]; simp
  have ha : a ∈ f.awaited := h.mem_awaited hf (eq_of_beq hp)
  have hothers : s.families.eraseP (·.parent == a.dropLast) = before ++ after := by
    rw [hsplit, List.eraseP_append_right _ (fun g hg => by simpa using hbefore g hg)]
    exact congrArg (before ++ ·) (List.eraseP_cons_of_pos (p := fun g : Family => g.parent == a.dropLast) hp)
  have hof {g : Family} : g ∈ s.families ↔ g ∈ before ++ after ∨ g = f := by
    rw [hsplit, List.mem_append, List.mem_cons, List.mem_append, or_assoc, or_comm (a := g = f)]
  -- What the parents await, with the node that ends brought to the front.
  have hawaited : (s.families.flatMap Family.awaited).Perm
      (a :: (f.awaited.erase a ++ (before ++ after).flatMap Family.awaited)) := by
    rw [hsplit, List.flatMap_append, List.flatMap_cons, List.flatMap_append]
    exact (List.perm_append_comm_assoc ..).trans ((List.perm_cons_erase ha).append_right _)
  dsimp only
  rw [hothers]
  split
  · next hempty =>
    refine h.of_notice (List.perm_iff_count.2 fun b => ?_) ?_ (fun g hg => h.waits g (hof.2 (.inl hg)))
      (fun g hg => ⟨g, ?_, rfl⟩) rfl rfl
    · simp only [ongoing, hands, await, hsplit, List.map_append, List.map_cons, List.map_nil, Task.node,
        List.count_append, List.count_cons, List.count_nil]
      omega
    · rwa [List.isEmpty_iff.1 hempty] at hawaited
    · rcases hg with hg | hg
      · rcases hof.1 hg with hg | rfl
        · exact .inl hg
        · exact .inr (List.mem_append_right _ (List.mem_singleton_self _))
      · exact .inr (List.mem_append_left _ hg)
  · next hne =>
    obtain ⟨-, hchildren, hbelow⟩ := h.waits f hf
    refine h.of_notice (List.perm_iff_count.2 fun b => ?_) hawaited
      (List.forall_mem_cons.2 ⟨⟨by simpa using hne, fun b hb => hchildren (List.mem_of_mem_erase hb),
        fun b hb => hbelow b (List.mem_of_mem_erase hb)⟩, fun g hg => h.waits g (hof.2 (.inl hg))⟩) ?_ rfl rfl
    · simp only [ongoing, hands, hsplit, List.map_append, List.map_cons, List.count_append, List.count_cons]
      omega
    · rintro g (hg | hg)
      · rcases hof.1 hg with hg | rfl
        · exact ⟨g, .inl (List.mem_cons_of_mem _ hg), rfl⟩
        · exact ⟨_, .inl List.mem_cons_self, rfl⟩
      · exact ⟨g, .inr hg, rfl⟩

/-- A parent tells of something if one of its children was given up. -/
theorem failureMessages_eq_nil_iff {f : Family} :
    s.failureMessages f = [] ↔ ∀ x ∈ s.failures, x.1.ancestry ∉ f.children := by
  unfold failureMessages
  simp only [List.filterMap_eq_nil_iff, Option.map_eq_none_iff, List.find?_eq_none, beq_iff_eq]
  exact ⟨fun h x hx hc => h _ hc x hx rfl, fun h c hc x hx he => h x hx (he ▸ hc)⟩

/-- A parent goes on once, and tells of all children that were given up. -/
theorem resume (h : Watched s []) {f : Family} {i : Nat} (hi : s.ready[i]? = some (.resume f)) :
    Watched ({ s with ready := s.ready.eraseIdx i }.resume f) [] := by
  obtain ⟨before, after, hsplit, herase⟩ := exists_split hi
  have hsame : (TreeState.ongoing ({ s with ready := s.ready.eraseIdx i }.resume f)).Perm s.ongoing := by
    refine List.perm_iff_count.2 fun b => ?_
    simp only [ongoing, hands, TreeState.resume, await, tell, herase]
    simp only [hsplit, List.map_append, List.map_cons, List.map_nil, Task.node, List.count_append, List.count_cons,
      List.count_nil]
    omega
  obtain ⟨top, htop, hperm⟩ := h.awaited
  refine ⟨fun b hb => h.named b (hsame.mem_iff.1 hb), hsame.nodup_iff.2 h.once,
    ⟨top, htop, hsame.trans hperm⟩, h.waits, fun x hx => ?_, fun hn => ?_⟩
  · rcases h.told x hx with hroot | herr | ⟨g, hg, hxc⟩
    · exact .inl hroot
    · exact .inr (.inl fun hnil => herr (List.append_eq_nil_iff.1 hnil).1)
    · by_cases hgf : g = f
      · subst hgf
        refine .inr (.inl fun hnil => ?_)
        exact failureMessages_eq_nil_iff.1 (List.append_eq_nil_iff.1 hnil).2 x hx hxc
      · refine .inr (.inr ⟨g, hg.imp_right fun hg => List.mem_append_left _ ?_, hxc⟩)
        show Task.resume g ∈ s.ready.eraseIdx i
        rw [hsplit] at hg
        rw [herase]
        exact (mem_split_iff.1 hg).resolve_right fun he => hgf (Task.resume.inj he)
  · have hn : s.failures = [] := hn
    refine List.append_eq_nil_iff.2 ⟨h.quiet hn, failureMessages_eq_nil_iff.2 fun x hx => ?_⟩
    rw [show TreeState.failures { s with ready := s.ready.eraseIdx i } = [] from hn] at hx
    cases hx

/-! ## Runs -/

/-- A node is taken from the tasks that are ready. -/
theorem take (h : Watched s []) {task : Task} {i : Nat} (hi : s.ready[i]? = some task)
    (hr : ∀ f, task ≠ .resume f) : Watched { s with ready := s.ready.eraseIdx i } [task.node] := by
  obtain ⟨before, after, hsplit, herase⟩ := exists_split hi
  refine h.of_perm (List.perm_iff_count.2 fun b => ?_) rfl (fun f hf => ?_) rfl rfl
  · simp only [ongoing, hands, herase]
    simp only [hsplit, List.map_append, List.map_cons, List.count_append, List.count_cons,
      List.count_nil]
    omega
  · show Task.resume f ∈ s.ready.eraseIdx i
    rw [hsplit] at hf
    rw [herase]
    exact (mem_split_iff.1 hf).resolve_right fun he => hr f he.symm

/-- **Every move keeps to it.** -/
theorem step (h : Watched s []) (m : Move) :
    Watched (s.step p m) [] := by
  cases m with
  | start i =>
    rw [TreeState.step]
    split
    · next task hi =>
      cases task with
      | visit v => exact (h.take hi (by simp)).visit
      | notice node => exact (h.take hi (by simp)).notice
      | resume f => exact h.resume hi
    · exact h
  | grant i =>
    rw [TreeState.step]
    split
    · next d hd =>
      obtain ⟨before, after, hsplit, herase⟩ := exists_split hd
      split
      · refine h.of_perm (List.perm_iff_count.2 fun b => ?_) rfl (fun _ hf => hf) rfl rfl
        simp only [ongoing, hands, send, herase]
        simp only [hsplit, List.map_append, List.map_cons, List.map_nil, List.count_append, List.count_cons,
          List.count_nil]
        omega
      · exact h
    · exact h
  | finish i reply =>
    rw [TreeState.step]
    split
    · next d hd =>
      obtain ⟨before, after, hsplit, herase⟩ := exists_split hd
      have htaken : Watched { s with inFlight := s.inFlight.eraseIdx i } [d.visit.ancestry] := by
        refine h.of_perm (List.perm_iff_count.2 fun b => ?_) rfl (fun _ hf => hf) rfl rfl
        simp only [ongoing, hands, herase]
        simp only [hsplit, List.map_append, List.map_cons, List.count_append, List.count_cons, List.count_nil]
        omega
      unfold receive
      refine Watched.conclude ?_ _
      exact htaken.congr rfl rfl rfl rfl rfl rfl
    · exact h

/-- **So does every run.** -/
theorem run (h : Watched s []) (p : TreePolicy) (moves : List Move) :
    Watched (s.run p moves) [] := by
  induction moves generalizing s with
  | nil => exact h
  | cons m moves ih => exact ih (h.step m)

end Watched

theorem watched_initial (store : Store) (root : Spec.Document) (metrics : Metrics) :
    Watched (initial store root metrics) [] where
  named := fun a ha => by
    rw [List.mem_singleton.1 (show a ∈ [[rootName]] from ha)]
    exact isAncestry_root
  once := List.nodup_singleton _
  awaited := ⟨[[rootName]], fun a ha => List.mem_singleton.1 ha, .refl _⟩
  waits := fun _ hf => absurd hf List.not_mem_nil
  told := fun _ hx => absurd hx List.not_mem_nil
  quiet := fun _ => rfl

/-! ## Compilations that are done -/

/-- Nobody waits in the end. -/
theorem Watched.families_eq_nil (h : Watched s []) (hd : s.isDone = true) : s.families = [] := by
  obtain ⟨hr, hw, hi⟩ := isDone_iff.1 hd
  have hongoing : s.ongoing = s.families.map Family.parent := by
    rw [ongoing, hands, hr, hw, hi]
    rfl
  -- The deepest parent awaits a node, which would be a parent too.
  cases hmax : s.families.argmax fun f : Family => f.parent.length with
  | none => exact List.argmax_eq_none.1 hmax
  | some f =>
    have hf := List.argmax_mem hmax
    obtain ⟨hne, -, hbelow⟩ := h.waits f hf
    obtain ⟨b, hb⟩ := List.exists_mem_of_ne_nil _ hne
    obtain ⟨n, rfl⟩ := hbelow b hb
    obtain ⟨top, -, hperm⟩ := h.awaited
    have hmem : f.parent ++ [n] ∈ s.ongoing :=
      hperm.mem_iff.2 (List.mem_append_right _ (List.mem_flatMap.2 ⟨f, hf, hb⟩))
    rw [hongoing] at hmem
    obtain ⟨g, hg, he⟩ := List.mem_map.1 hmem
    have hle := List.le_of_mem_argmax hg hmax
    rw [he, List.length_append, List.length_singleton] at hle
    omega

/-- **A compilation that is done and tells of nothing has given no node up.** -/
theorem failures_eq_nil (store : Store) (root : Spec.Document) (metrics : Metrics) (moves : List Move)
    (hd : ((initial store root metrics).run p moves).isDone = true)
    (hroot : ((initial store root metrics).run p moves).rootFailure? = none)
    (herr : ((initial store root metrics).run p moves).errors = []) :
    ((initial store root metrics).run p moves).failures = [] := by
  have h := (watched_initial store root metrics).run p moves
  generalize (initial store root metrics).run p moves = t at *
  refine List.eq_nil_iff_forall_not_mem.2 fun x hx => ?_
  rcases h.told x hx with ha | hne | ⟨f, hf | hf, -⟩
  · have := List.findSome?_eq_none_iff.1 hroot x hx
    simp [ha] at this
  · exact hne herr
  · rw [h.families_eq_nil hd] at hf
    cases hf
  · rw [(isDone_iff.1 hd).1] at hf
    cases hf

end TreeState

end SpecTree.Plan
