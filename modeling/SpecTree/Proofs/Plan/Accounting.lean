import SpecTree.Plan.Report
import SpecTree.Proofs.Plan.Census

/-!
# Ceilings and accounts of a compilation

Whatever the order of its moves, a compilation stays below both ceilings and loses no node.

1. `Census.Booked`: the nodes that a compilation knows of are the root and the children of its
   results, each once. A node only changes hands, and a result brings its children along.
2. `Census.Counted`: the counters agree with the lists, and stay below the ceilings.
3. Past a ceiling no node is admitted and no call is allowed (`Census.Step.closed`).
-/

namespace SpecTree.Plan

open TreeState

/-! ## Paths of children -/

/-- The paths of the children of a compiled node. -/
def childPaths (r : NodeResult) : List String := (visitsBelow r).map Visit.path

theorem childPaths_of_isLeaf {r : NodeResult} (h : r.isLeaf = true) : childPaths r = [] := by
  rw [childPaths, visitsBelow_of_isLeaf h, List.map_nil]

theorem childPaths_eq {r : NodeResult} (hr : IsAncestry r.ancestry) (h : r.isLeaf = false) :
    childPaths r
      = (distinctNames (r.children.map ChildSpec.name)).map fun n => nodePath (r.ancestry ++ [n]) := by
  have hp : childPaths r = ((visitsBelow r).map Visit.ancestry).map nodePath :=
    (List.map_map ..).symm
  rw [hp, ancestries_visitsBelow hr h, List.map_map]
  rfl

theorem exists_name_of_mem_childPaths {r : NodeResult} (hr : IsAncestry r.ancestry) {x : String}
    (hx : x ∈ childPaths r) :
    r.isLeaf = false ∧ ∃ n ∈ distinctNames (r.children.map ChildSpec.name),
      x = nodePath (r.ancestry ++ [n]) := by
  obtain ⟨v, hv, rfl⟩ := List.mem_map.1 hx
  obtain ⟨hl, n, hn, he⟩ := exists_name_of_mem_visitsBelow hr hv
  exact ⟨hl, n, hn, by rw [Visit.path, he]⟩

theorem nodup_childPaths {r : NodeResult} (hr : IsAncestry r.ancestry) : (childPaths r).Nodup := by
  cases hl : r.isLeaf with
  | true =>
    rw [childPaths_of_isLeaf hl]
    exact List.nodup_nil
  | false =>
    rw [childPaths_eq hr hl]
    refine List.Nodup.map_on (fun n hn m hm he => ?_) (nodup_distinctNames _)
    have h := eq_of_nodePath_eq (isAncestry_child hr (isNodeName_of_mem hn))
      (isAncestry_child hr (isNodeName_of_mem hm)) he
    exact List.singleton_inj.1 (List.append_cancel_left h)

/-- The root is no one's child. -/
theorem rootName_not_mem_childPaths {r : NodeResult} (hr : IsAncestry r.ancestry) :
    rootName ∉ childPaths r := by
  intro hx
  obtain ⟨-, n, hn, he⟩ := exists_name_of_mem_childPaths hr hx
  have h := eq_of_nodePath_eq isAncestry_root (isAncestry_child hr (isNodeName_of_mem hn)) he
  obtain ⟨names, hnames, -⟩ := hr
  simp [hnames] at h

/-- No node is the child of two. -/
theorem ancestry_eq_of_mem_childPaths {r r' : NodeResult} (hr : IsAncestry r.ancestry)
    (hr' : IsAncestry r'.ancestry) {x : String} (hx : x ∈ childPaths r) (hx' : x ∈ childPaths r') :
    r.ancestry = r'.ancestry := by
  obtain ⟨-, n, hn, rfl⟩ := exists_name_of_mem_childPaths hr hx
  obtain ⟨-, m, hm, he⟩ := exists_name_of_mem_childPaths hr' hx'
  have h := eq_of_nodePath_eq (isAncestry_child hr (isNodeName_of_mem hn))
    (isAncestry_child hr' (isNodeName_of_mem hm)) he
  exact (List.append_inj' h rfl).1

namespace Census

variable {p : TreePolicy} {mayReply : Request → Except Failure Expansion → Prop} {c c' : Census}

/-! ## Books -/

/-- The paths of the nodes that are admitted, and not withdrawn. -/
def admitted (c : Census) : List String :=
  c.waiting.map (·.visit.path) ++ c.inFlight.map (·.visit.path) ++ c.results.map NodeResult.nodePath
    ++ c.failures.map (·.1.path)

/-- The paths of all nodes that a compilation knows of. -/
def paths (c : Census) : List String := c.pending.map Visit.path ++ c.admitted ++ c.skipped

/-- The paths that the results call for. -/
def due (c : Census) : List String := rootName :: c.results.flatMap childPaths

/-- **Every node is in one hand**, and no node is there twice. -/
structure Booked (c : Census) : Prop where
  once : c.due.Nodup
  paths : c.paths.Perm c.due

theorem mem_paths_of_mem_results {r : NodeResult} (hr : r ∈ c.results) : r.nodePath ∈ c.paths :=
  List.mem_append_left _ (List.mem_append_right _ (List.mem_append_left _
    (List.mem_append_right _ (List.mem_map_of_mem hr))))

theorem due_settle (c : Census) (r : NodeResult) : (c.settle r).due = c.due ++ childPaths r := by
  simp [due, Census.settle]

/-- A result brings its children along. -/
theorem booked_settle (hn : c.Named) {r : NodeResult} (hr : IsFiled r) (hd : c.due.Nodup)
    (hp : (r.nodePath :: c.paths).Perm c.due) : (c.settle r).Booked := by
  have hnew : r.nodePath ∉ c.paths := (List.nodup_cons.1 (hp.nodup_iff.2 hd)).1
  constructor
  · rw [due_settle, List.nodup_append]
    refine ⟨hd, nodup_childPaths hr.ancestry, fun a ha b hb he => ?_⟩
    subst he
    rcases List.mem_cons.1 ha with rfl | ha
    · exact rootName_not_mem_childPaths hr.ancestry hb
    · obtain ⟨r', hr', ha⟩ := List.mem_flatMap.1 ha
      have hf := hn.results r' hr'
      have he := ancestry_eq_of_mem_childPaths hr.ancestry hf.ancestry hb ha
      refine hnew ?_
      rw [hr.path, he, ← hf.path]
      exact mem_paths_of_mem_results hr'
  · rw [due_settle]
    refine List.Perm.trans ?_ (hp.append_right (childPaths r))
    refine List.perm_iff_count.2 fun a => ?_
    simp only [Census.settle, Census.paths, admitted, childPaths, List.map_append, List.map_cons, List.map_nil,
      List.count_append, List.count_cons, List.count_nil]
    omega

/-- A visit that is taken up leaves the others as they are. -/
theorem perm_paths_of_pending {before after : List Visit} {v : Visit}
    (hp : c.pending = before ++ v :: after) (h : c'.pending = before ++ after)
    (ha : c'.admitted = c.admitted) (hs : c'.skipped = c.skipped) :
    (v.path :: c'.paths).Perm c.paths := by
  refine List.perm_iff_count.2 fun a => ?_
  simp only [Census.paths, h, ha, hs, hp, List.map_append, List.map_cons, List.count_append,
    List.count_cons]
  omega

/-- So does a call that ends. -/
theorem perm_paths_of_inFlight {before after : List Draft} {d : Draft}
    (hi : c.inFlight = before ++ d :: after) (h : c'.inFlight = before ++ after)
    (hp : c'.pending = c.pending) (hw : c'.waiting = c.waiting) (hr : c'.results = c.results)
    (hf : c'.failures = c.failures) (hs : c'.skipped = c.skipped) :
    (d.visit.path :: c'.paths).Perm c.paths := by
  refine List.perm_iff_count.2 fun a => ?_
  simp only [Census.paths, admitted, h, hp, hw, hr, hf, hs, hi, List.map_append, List.map_cons,
    List.count_append, List.count_cons]
  omega

/-- Where nothing is settled, a node only changes hands. -/
theorem Booked.of_perm (h : c.Booked) (hd : c'.due = c.due) (hp : c'.paths.Perm c.paths) :
    c'.Booked := by
  refine ⟨?_, ?_⟩
  · rw [hd]
    exact h.once
  · rw [hd]
    exact hp.trans h.paths

/-- **No step loses a node or counts it twice.** -/
theorem Booked.step (hn : c.Named) (h : c.Booked) (hs : Step p mayReply c c') : c'.Booked := by
  cases hs with
  | refuse hp ha =>
    refine h.of_perm rfl (List.perm_iff_count.2 fun a => ?_)
    simp only [Census.paths, admitted, hp, List.map_append, List.map_cons, List.count_append,
      List.count_cons, List.count_nil]
    omega
  | lose hp ha he =>
    refine h.of_perm rfl (List.perm_iff_count.2 fun a => ?_)
    simp only [Census.paths, admitted, hp, List.map_append, List.map_cons, List.map_nil,
      List.count_append, List.count_cons, List.count_nil]
    omega
  | withdraw hp ha he hj hc =>
    refine h.of_perm rfl (List.perm_iff_count.2 fun a => ?_)
    simp only [Census.paths, admitted, hp, List.map_append, List.map_cons, List.count_append,
      List.count_cons, List.count_nil]
    omega
  | @reuse before after v d r lines hp ha he hj =>
    obtain ⟨hv, hrest⟩ := forall_mem_split hp hn.pending
    have hc : Named { c with pending := before ++ after, visited := c.visited + 1 } :=
      ⟨hrest, hn.waiting, hn.inFlight, hn.results⟩
    have hperm : (v.path ::
        Census.paths { c with pending := before ++ after, visited := c.visited + 1 }).Perm c.paths :=
      perm_paths_of_pending hp rfl rfl rfl
    exact booked_settle hc ⟨hv, rfl⟩ h.once (hperm.trans h.paths)
  | @keep before after v d draft store store' result lines lines' hp ha he hj hd hf =>
    obtain ⟨hv, hrest⟩ := forall_mem_split hp hn.pending
    have hdv := (prepare_eq_ok hd).2
    have hdv' : IsAncestry ({ draft with lines := [] } : Draft).visit.ancestry := by
      rw [hdv]
      exact hv
    obtain ⟨d', rfl, hd'⟩ := result_of_finish hf
    have hc : Named
        { c with store := store', pending := before ++ after, visited := c.visited + 1 } :=
      ⟨hrest, hn.waiting, hn.inFlight, hn.results⟩
    refine booked_settle hc (isFiled_of_finish hdv' hf) h.once ?_
    rw [show (Draft.result d' .plain).nodePath = v.path by rw [Draft.result, ← hdv, ← hd']; rfl]
    have hperm : (v.path :: Census.paths
        { c with store := store', pending := before ++ after, visited := c.visited + 1 }).Perm
          c.paths :=
      perm_paths_of_pending hp rfl rfl rfl
    exact hperm.trans h.paths
  | wait hp ha he hj hc hd =>
    have hv := (prepare_eq_ok hd).2
    refine h.of_perm rfl (List.perm_iff_count.2 fun a => ?_)
    simp only [Census.paths, admitted, hp, hv, List.map_append, List.map_cons, List.map_nil,
      List.count_append, List.count_cons, List.count_nil]
    omega
  | grant hw hlt =>
    refine h.of_perm rfl (List.perm_iff_count.2 fun a => ?_)
    simp only [Census.paths, admitted, hw, List.map_append, List.map_cons, List.map_nil,
      List.count_append, List.count_cons, List.count_nil]
    omega
  | @finish before after d reply store result lines hi hr hf =>
    obtain ⟨hv, hrest⟩ := forall_mem_split hi hn.inFlight
    obtain ⟨d', rfl, hd'⟩ := result_of_finish hf
    have hc : Named { c with store, inFlight := before ++ after } :=
      ⟨hn.pending, hn.waiting, hrest, hn.results⟩
    refine booked_settle hc (isFiled_of_finish hv hf) h.once ?_
    rw [show (Draft.result d' (.ofReply reply)).nodePath = d.visit.path by
      rw [Draft.result, ← hd']; rfl]
    have hperm : (d.visit.path ::
        Census.paths { c with store, inFlight := before ++ after }).Perm c.paths :=
      perm_paths_of_inFlight hi rfl rfl rfl rfl rfl rfl
    exact hperm.trans h.paths

/-- The nodes above a node that is called for are compiled. -/
theorem Booked.exists_result_above (h : c.Booked) (hn : c.Named) {names ns : List String} (hns : ∀ n ∈ ns, IsNodeName n)
    (hx : nodePath (rootName :: ns) ∈ c.due) (hp : names <+: ns) (hne : names ≠ ns) :
    ∃ r ∈ c.results, r.ancestry = rootName :: names := by
  induction ns using List.reverseRecOn with
  | nil => exact absurd (List.prefix_nil.1 hp) hne
  | append_singleton ns n ih =>
    have ha : IsAncestry (rootName :: (ns ++ [n])) := ⟨_, rfl, hns⟩
    have hns' : ∀ m ∈ ns, IsNodeName m := fun m hm => hns m (List.mem_append_left _ hm)
    rcases List.mem_cons.1 hx with hx | hx
    · have he := eq_of_nodePath_eq ha isAncestry_root hx
      simp at he
    · obtain ⟨r, hr, hx⟩ := List.mem_flatMap.1 hx
      have hf := hn.results r hr
      obtain ⟨-, m, hm, he⟩ := exists_name_of_mem_childPaths hf.ancestry hx
      have he := eq_of_nodePath_eq ha (isAncestry_child hf.ancestry (isNodeName_of_mem hm)) he
      rw [← List.cons_append] at he
      have hr' : r.ancestry = rootName :: ns := (List.append_inj' he rfl).1.symm
      have hp := (List.prefix_concat_iff.1 hp).resolve_left hne
      by_cases h' : names = ns
      · exact ⟨r, hr, h' ▸ hr'⟩
      · refine ih hns' (h.paths.subset ?_) hp h'
        rw [← hr', ← hf.path]
        exact mem_paths_of_mem_results hr

/-- No node in other hands lies below a node that is not compiled. -/
theorem Booked.not_above (h : c.Booked) (hn : c.Named) {names ns : List String} {rest : List String}
    (hns : ∀ n ∈ ns, IsNodeName n)
    (hp : (nodePath (rootName :: names) :: rest).Perm c.due)
    (hr : ∀ r ∈ c.results, r.nodePath ∈ rest) (hx : nodePath (rootName :: ns) ∈ rest) :
    ¬ names <+: ns := by
  intro hle
  have hnew : nodePath (rootName :: names) ∉ rest :=
    (List.nodup_cons.1 (hp.nodup_iff.2 h.once)).1
  by_cases hne : names = ns
  · exact hnew (hne ▸ hx)
  · obtain ⟨r, hm, he⟩ := h.exists_result_above hn hns (hp.subset (List.mem_cons_of_mem _ hx)) hle
      hne
    refine hnew ?_
    rw [← he, ← (hn.results r hm).path]
    exact hr r hm

/-! ## Counters -/

/-- **The counters agree with the lists**, and stay below the ceilings. -/
structure Counted (p : TreePolicy) (c : Census) : Prop where
  slots : c.inFlight.length ≤ p.slots
  visited : c.visited = c.admitted.length
  nodes : c.visited ≤ p.maxNodes.toNat
  calls : c.calls = c.requests.length + c.waiting.length
  maxCalls : c.calls ≤ p.maxCalls.toNat
  exceeded : c.exceeded.isSome = true ↔ c.skipped ≠ []

theorem length_admitted (c : Census) :
    c.admitted.length
      = c.waiting.length + c.inFlight.length + c.results.length + c.failures.length := by
  simp only [admitted, List.length_append, List.length_map]

/-- **No step passes a ceiling.** -/
theorem Counted.step (h : c.Counted p) (hs : Step p mayReply c c') : c'.Counted p := by
  obtain ⟨h1, h2, h3, h4, h5, h6⟩ := h
  rw [length_admitted] at h2
  have hbelow (ha : c.Admits p) : c.visited + 1 ≤ p.maxNodes.toNat := by
    have := ha.2
    omega
  cases hs with
  | refuse hp ha =>
    refine ⟨h1, h2.trans (length_admitted _).symm, h3, h4, h5, ?_⟩
    simp
  | lose hp ha he =>
    refine ⟨h1, ?_, hbelow ha, h4, h5, h6⟩
    simp only [length_admitted, List.length_append, List.length_singleton, h2]
    omega
  | reuse hp ha he hj =>
    refine ⟨h1, ?_, hbelow ha, h4, h5, h6⟩
    simp only [length_admitted, Census.settle, List.length_append, List.length_singleton, h2]
    omega
  | keep hp ha he hj hd hf =>
    refine ⟨h1, ?_, hbelow ha, h4, h5, h6⟩
    simp only [length_admitted, Census.settle, List.length_append, List.length_singleton, h2]
    omega
  | withdraw hp ha he hj hc =>
    refine ⟨h1, h2.trans (length_admitted _).symm, h3, h4, h5, ?_⟩
    simp
  | wait hp ha he hj hc hd =>
    refine ⟨h1, ?_, hbelow ha, ?_, ?_, h6⟩
    · simp only [length_admitted, List.length_append, List.length_singleton, h2]
      omega
    · simp only [List.length_append, List.length_singleton, h4]
      omega
    · show c.calls + 1 ≤ _
      omega
  | grant hw hlt =>
    rw [hw, List.length_append, List.length_cons] at h2 h4
    refine ⟨?_, ?_, h3, ?_, h5, h6⟩
    · rw [List.length_append, List.length_singleton]
      exact hlt
    · simp only [length_admitted, List.length_append, List.length_singleton, h2]
      omega
    · simp only [List.length_append, List.length_singleton, h4]
      omega
  | finish hi hr hf =>
    rw [hi, List.length_append, List.length_cons] at h1 h2
    refine ⟨?_, ?_, h3, h4, h5, h6⟩
    · simp only [Census.settle, List.length_append]
      omega
    · simp only [length_admitted, Census.settle, List.length_append, List.length_singleton, h2]
      omega

/-! ## Past a ceiling -/

/-- What stays as it is once a ceiling is passed: the nodes admitted, and the calls allowed, each of
them sent or still waiting. -/
structure Closed (c c' : Census) : Prop where
  exceeded : c'.exceeded = c.exceeded
  admitted : c'.admitted.Perm c.admitted
  calls : c'.calls = c.calls
  requests : (c'.requests ++ c'.waiting.map (·.visit.request)).Perm
    (c.requests ++ c.waiting.map (·.visit.request))

theorem Closed.refl (c : Census) : Closed c c := ⟨rfl, .refl _, rfl, .refl _⟩

theorem Closed.trans {c'' : Census} (h : Closed c c') (h' : Closed c' c'') : Closed c c'' :=
  ⟨h'.exceeded.trans h.exceeded, h'.admitted.trans h.admitted, h'.calls.trans h.calls,
    h'.requests.trans h.requests⟩

/-- **Past a ceiling nothing is admitted and no call is allowed.** -/
theorem Step.closed (he : c.exceeded.isSome = true) (hs : Step p mayReply c c') : Closed c c' := by
  have hnot (ha : c.Admits p) : Closed c c' := by
    rw [ha.1] at he
    cases he
  cases hs with
  | refuse hp ha =>
    refine ⟨?_, .refl _, rfl, .refl _⟩
    obtain ⟨x, hx⟩ := Option.isSome_iff_exists.1 he
    rw [hx]
    rfl
  | lose hp ha => exact hnot ha
  | reuse hp ha => exact hnot ha
  | keep hp ha => exact hnot ha
  | withdraw hp ha => exact hnot ha
  | wait hp ha => exact hnot ha
  | grant hw hlt =>
    refine ⟨rfl, List.perm_iff_count.2 fun a => ?_, rfl, List.perm_iff_count.2 fun a => ?_⟩
    · simp only [admitted, hw, List.map_append, List.map_cons, List.map_nil, List.count_append,
        List.count_cons, List.count_nil]
      omega
    · simp only [hw, List.map_append, List.map_cons, List.count_append, List.count_cons,
        List.count_nil]
      omega
  | @finish before after d reply store result lines hi hr hf =>
    obtain ⟨d', rfl, hd'⟩ := result_of_finish hf
    refine ⟨rfl, List.perm_iff_count.2 fun a => ?_, rfl, .refl _⟩
    simp only [admitted, Census.settle, hi, List.map_append, List.map_cons, List.map_nil,
      List.count_append, List.count_cons, List.count_nil,
      show (Draft.result d' (.ofReply reply)).nodePath = d'.visit.path from rfl, hd']
    omega

/-! ## Runs -/

/-- **What holds of every census that a compilation comes to.** -/
structure Sound (p : TreePolicy) (c : Census) : Prop where
  named : c.Named
  booked : c.Booked
  counted : c.Counted p

theorem Sound.step (h : c.Sound p) (hs : Step p mayReply c c') : c'.Sound p :=
  ⟨h.named.step hs, h.booked.step h.named hs, h.counted.step hs⟩

theorem Sound.run (h : c.Sound p) (hs : Relation.ReflTransGen (Step p mayReply) c c') : c'.Sound p := by
  induction hs with
  | refl => exact h
  | tail _ hs ih => exact ih.step hs

theorem Closed.run (he : c.exceeded.isSome = true) (hs : Relation.ReflTransGen (Step p mayReply) c c') :
    Closed c c' := by
  induction hs with
  | refl => exact .refl c
  | tail _ hs ih => exact ih.trans (hs.closed (by rw [ih.exceeded]; exact he))

end Census

namespace TreeState

variable {p : TreePolicy} {s : TreeState}

theorem sound_initial (p : TreePolicy) (store : Store) (root : Spec.Document) (metrics : Metrics) :
    (initial store root metrics).census.Sound p where
  named := named_initial store root metrics
  booked := ⟨List.nodup_singleton rootName, .refl _⟩
  counted := ⟨Nat.zero_le _, rfl, Nat.zero_le _, rfl, Nat.zero_le _, by
    show (none : Option Ceiling).isSome = true ↔ ([] : List String) ≠ []
    simp⟩

/-- Any reply may come. -/
theorem follows_any (s : TreeState) (moves : List Move) : Follows p (fun _ _ => True) s moves := by
  induction moves generalizing s with
  | nil => trivial
  | cons m moves ih => exact ⟨by cases m <;> simp [Move.Follows], ih _⟩

/-- **Every state of a compilation is sound**, whatever the replies and the order of the moves. -/
theorem sound_run (h0 : p.directory.contains '\x00' = false) (store : Store) (root : Spec.Document)
    (metrics : Metrics) (moves : List Move) :
    ((initial store root metrics).run p moves).census.Sound p :=
  (sound_initial p store root metrics).run
    (census_run h0 (named_initial store root metrics) (follows_any _ moves)).1

theorem isDone_iff : s.isDone = true ↔ s.ready = [] ∧ s.waiting = [] ∧ s.inFlight = [] := by
  simp [isDone, and_assoc]

/-- The accounts of a compilation under way. -/
structure Accounts (p : TreePolicy) (s : TreeState) : Prop where
  inFlight : s.inFlight.length ≤ p.slots
  requests : s.requests.length ≤ p.maxCalls.toNat
  results : s.results.length ≤ p.maxNodes.toNat
  exceeded : s.report.exceeded.isSome = true ↔ s.report.skipped ≠ []
  /-- In the end the calls that were allowed have been made. -/
  calls : s.isDone = true → s.report.calls = s.requests.length
  /-- Past a ceiling no node is admitted and no call is allowed; calls that are allowed are made. -/
  closed : s.exceeded.isSome = true → ∀ moves,
    (s.run p moves).exceeded = s.exceeded
      ∧ (s.run p moves).census.admitted.Perm s.census.admitted
      ∧ (s.run p moves).calls = s.calls
      ∧ ((s.run p moves).isDone = true →
        (s.run p moves).requests.Perm (s.requests ++ s.waiting.map (·.visit.request)))
  /-- Without unexpected failures, results and skipped nodes are the root and all children. -/
  nodes : s.isDone = true → s.failures = [] →
    (s.report.nodes.map NodeResult.nodePath ++ s.report.skipped).Nodup
      ∧ (s.report.nodes.map NodeResult.nodePath ++ s.report.skipped).Perm
        (rootName :: s.report.nodes.flatMap childPaths)

end TreeState

end SpecTree.Plan
