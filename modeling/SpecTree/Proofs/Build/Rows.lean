import SpecTree.Proofs.Build.Accounting

/-!
# Along the rows

A build takes its leaves in rows of bounded width.

1. The rows are the leaves in their order (`flatten_rows`), and as few as the width allows (`length_rows`).
2. `Advance` says what a move can do (`advance_step`).
3. `Lined` says how far a build is along its rows. Every move keeps it (`Lined.advance`), so a run does.
-/

namespace SpecTree.Build

variable {b : Site} {s t : BuildState} {i : Nat} {slot : Slot} {rows : List (List Leaf)}

/-! ## Rows -/

theorem flatten_rows {α : Type} (width : Nat) (xs : List α) : (Build.rows width xs).flatten = xs := by
  fun_induction Build.rows width xs with
  | case1 => rfl
  | case2 x rest ih => rw [List.flatten_cons, ih, List.cons_append, List.take_append_drop]

/-- **There are as few rows as the width allows.** -/
theorem length_rows {α : Type} {width : Nat} (hw : 0 < width) (xs : List α) :
    (Build.rows width xs).length = xs.length ⌈/⌉ width := by
  rw [Nat.ceilDiv_eq_add_pred_div]
  fun_induction Build.rows width xs with
  | case1 => exact (Nat.div_eq_of_lt (by simp; omega)).symm
  | case2 x rest ih =>
    rw [List.length_cons, ih, List.length_drop, List.length_cons, ← Nat.add_div_right _ hw]
    rcases Nat.le_total (width - 1) rest.length with h | h
    · congr 1
      omega
    · rw [Nat.sub_eq_zero_of_le h, Nat.div_eq_of_lt_le (k := 1), Nat.div_eq_of_lt_le (k := 1)] <;> omega

theorem width_pos (parallelism : Int) : 0 < width parallelism := Nat.le_max_left ..

/-! ## Results of single leaves -/

/-- A leaf's result is listed under its path, and is a success if it has nothing to complain of. -/
structure LeafResult.IsFair (node : String) (r : LeafResult) : Prop where
  nodePath : r.nodePath = node
  executed : r.skipped = false
  success : r.success = r.errors.isEmpty

/-- A leaf that was left out. -/
def Leaf.skip (l : Leaf) : LeafResult := { nodePath := l.nodePath, skipped := true }

theorem isFair_deliver {store t : Store} {c c' : Claims} {node : String} {answer : Production}
    {ending : LeafEnding} (h : deliver b store c node answer = (t, c', ending)) :
    (ending.result node).IsFair node := by
  unfold deliver at h
  dsimp only at h
  split at h
  · cases h
    exact ⟨rfl, rfl, rfl⟩
  · split at h
    · cases h
      exact ⟨rfl, rfl, rfl⟩
    · split at h <;> cases h <;> exact ⟨rfl, rfl, rfl⟩

theorem nodePath_of_requestFor {store : Store} {plan node : String} {r : Request}
    (h : requestFor store plan node = .ok (some r)) : r.nodePath = node := by
  obtain ⟨spec, -, h⟩ := Store.bind_eq_ok h
  split at h
  · cases h
  · obtain ⟨context, -, h⟩ := Store.bind_eq_ok h
    cases h
    rfl

/-! ## How far a build is -/

namespace BuildState

/-- The paths of the leaves that wait. -/
def waiting (s : BuildState) : List String :=
  s.batch.filterMap fun slot => if slot.isWaiting then some slot.leaf.nodePath else none

/-- A leaf of the batch ended with an overlap: another leaf has one of its paths. -/
def Overlapped (s : BuildState) : Prop :=
  ∃ slot ∈ s.batch, slot.ending?.any LeafEnding.isOverlap = true

end BuildState

/-- What a move can do. -/
inductive Advance (s : BuildState) : BuildState → Prop
  | nothing : Advance s s
  | send (leaf : Leaf) (request : Request) (peak : Nat) (i : Nat)
      (hi : s.batch[i]? = some ⟨leaf, .waiting⟩) (hr : request.nodePath = leaf.nodePath) :
      Advance s ({ s with requests := s.requests ++ [request], peak }.set i (.inFlight request))
  | settle (store : Store) (claims : Claims) (metrics : Metrics) (slot : Slot) (ending : LeafEnding) (i : Nat)
      (hi : s.batch[i]? = some slot) (hs : slot.ending? = none)
      (hf : (ending.result slot.leaf.nodePath).IsFair slot.leaf.nodePath) :
      Advance s ({ s with store, claims, metrics }.set i (.settled ending))
  | leaveOut (hs : s.isSettled = true) (hd : s.isDone = false) (ho : s.Overlapped) :
      Advance s { s with
        results := s.results ++ s.batch.filterMap Slot.result? ++ s.later.flatten.map Leaf.skip
        batch := []
        later := []
        leftOut := some s.later.flatten.length }
  | last (hs : s.isSettled = true) (hd : s.isDone = false) (ho : ¬s.Overlapped) (hl : s.later = []) :
      Advance s { s with results := s.results ++ s.batch.filterMap Slot.result?, batch := [] }
  | begin (row : List Leaf) (later : List (List Leaf)) (hs : s.isSettled = true) (hd : s.isDone = false)
      (ho : ¬s.Overlapped) (hl : s.later = row :: later) :
      Advance s { s with
        results := s.results ++ s.batch.filterMap Slot.result?
        batch := row.map fun l => { leaf := l }
        later
        batches := s.batches + 1 }

theorem advance_step (b : Site) (s : BuildState) (m : Move) : Advance s (s.step b m) := by
  cases m with
  | start i =>
    simp only [BuildState.step]
    split
    · next leaf hi =>
      unfold BuildState.start
      split
      · next request hq => exact .send leaf request _ i hi (nodePath_of_requestFor hq)
      · exact .settle s.store s.claims s.metrics _ _ i hi rfl ⟨rfl, rfl, rfl⟩
      · exact .settle s.store s.claims s.metrics _ _ i hi rfl ⟨rfl, rfl, rfl⟩
    · exact .nothing
  | finish i reply =>
    simp only [BuildState.step]
    split
    · next leaf request hi =>
      unfold BuildState.receive
      cases reply with
      | error failure => exact .settle s.store s.claims _ _ _ i hi rfl ⟨rfl, rfl, rfl⟩
      | ok answer =>
        dsimp only
        generalize hd : deliver b s.store s.claims leaf.nodePath answer = delivered
        obtain ⟨store, claims, ending⟩ := delivered
        exact .settle store claims _ _ ending i hi rfl (isFair_deliver hd)
    · exact .nothing
  | next =>
    simp only [BuildState.step]
    split
    · next hm =>
      rw [Bool.and_eq_true, Bool.not_eq_true'] at hm
      unfold BuildState.next
      dsimp only
      split
      · next ho => exact .leaveOut hm.1 hm.2 (List.any_eq_true.1 ho)
      · next ho =>
        have ho : ¬s.Overlapped := fun h => ho (List.any_eq_true.2 h)
        split
        · next hl => exact .last hm.1 hm.2 ho hl
        · next row later hl => exact .begin row later hm.1 hm.2 ho hl
    · exact .nothing

/-- A build is on its way along the rows. -/
structure Lined (rows : List (List Leaf)) (s : BuildState) : Prop where
  /-- Every leaf has a result, is in the batch, or is still to come, in this order. -/
  paths : s.results.map LeafResult.nodePath ++ (s.batch.map fun slot => slot.leaf.nodePath)
    ++ s.later.flatten.map Leaf.nodePath = rows.flatten.map Leaf.nodePath
  later : s.leftOut = none → s.later = rows.drop s.batches
  begun : s.batches ≤ rows.length
  batch : s.batch ≠ [] →
    s.leftOut = none ∧ 0 < s.batches ∧ rows[s.batches - 1]? = some (s.batch.map Slot.leaf)
  results : ∃ executed : List LeafResult, (∀ r ∈ executed, r.IsFair r.nodePath)
    ∧ s.results = executed
      ++ if s.leftOut.isSome then (rows.drop s.batches).flatten.map Leaf.skip else []
  /-- A build that leaves out something has come to an end, and not all went well. -/
  leftOut : s.leftOut ≠ none → s.later = [] ∧ ∃ r ∈ s.results, r.success = false
  slots : ∀ slot ∈ s.batch, ∀ r, slot.result? = some r → r.IsFair slot.leaf.nodePath
  /-- Each leaf of the batches so far waits, was asked about once, or was not asked about. -/
  calls : (s.requests.map Request.nodePath ++ s.waiting).Subperm
    ((rows.take s.batches).flatten.map Leaf.nodePath)

theorem lined_initial (store : Store) (rows : List (List Leaf)) (metrics : Metrics) :
    Lined rows (.initial store rows metrics) where
  paths := rfl
  later _ := rfl
  begun := Nat.zero_le _
  batch h := absurd rfl h
  results := ⟨[], fun _ hr => absurd hr List.not_mem_nil, rfl⟩
  leftOut h := absurd rfl h
  slots _ hs := absurd hs List.not_mem_nil
  calls := List.nil_subperm

namespace Lined

/-- The batch is the row that was begun last, and the rows before it have their results. -/
theorem before (h : Lined rows s) (hb : s.batch ≠ []) :
    s.results.map LeafResult.nodePath = (rows.take (s.batches - 1)).flatten.map Leaf.nodePath := by
  obtain ⟨hnone, hpos, hrow⟩ := h.batch hb
  have hpaths := h.paths
  obtain ⟨n, hn⟩ : ∃ n, s.batches = n + 1 := ⟨s.batches - 1, by omega⟩
  rw [hn, Nat.add_sub_cancel] at hrow
  rw [h.later hnone, hn, List.append_assoc] at hpaths
  rw [hn, Nat.add_sub_cancel]
  obtain ⟨hlt, hget⟩ := List.getElem?_eq_some_iff.1 hrow
  have hsplit : rows = rows.take n ++ s.batch.map Slot.leaf :: rows.drop (n + 1) := by
    rw [← hget, List.getElem_cons_drop, List.take_append_drop]
  have hflat : rows.flatten.map Leaf.nodePath = (rows.take n).flatten.map Leaf.nodePath
      ++ ((s.batch.map fun slot => slot.leaf.nodePath)
        ++ (rows.drop (n + 1)).flatten.map Leaf.nodePath) := by
    conv_lhs => rw [hsplit]
    simp only [List.flatten_append, List.flatten_cons, List.map_append, List.map_map]
    rfl
  rw [hflat] at hpaths
  exact List.append_cancel_right hpaths

end Lined

/-! ## Moves keep to the rows -/

theorem map_leaf_modify {α : Type} (g : Leaf → α) (batch : List Slot) (i : Nat) (status : Status) :
    ((batch.modify i fun slot => { slot with status }).map fun slot => g slot.leaf)
      = batch.map fun slot => g slot.leaf := by
  refine List.ext_getElem? fun j => ?_
  rw [List.getElem?_map, List.getElem?_map, List.getElem?_modify]
  cases batch[j]? with
  | none => rfl
  | some slot => by_cases hij : i = j <;> simp [hij]

/-- The leaves that wait are one less, or as many, when a leaf goes on. -/
theorem waiting_set_perm (status : Status) (hi : s.batch[i]? = some slot)
    (hs : ({ slot with status } : Slot).isWaiting = false) :
    ((s.set i status).waiting ++ if slot.isWaiting then [slot.leaf.nodePath] else []).Perm s.waiting := by
  have hp := filterMap_modify_perm hi
    (fun slot => if slot.isWaiting then some slot.leaf.nodePath else none)
    fun slot => { slot with status }
  simp only [hs, Bool.false_eq_true, if_false, Option.toList_none, List.append_nil] at hp
  refine List.Perm.trans (.of_eq ?_) hp
  rw [BuildState.waiting, BuildState.set]
  cases slot.isWaiting <;> rfl

namespace Lined

/-- A leaf that is not settled goes on, or is settled with a fair result. -/
theorem set (h : Lined rows s) (store : Store) (claims : Claims) (metrics : Metrics)
    (requests : List Request) (peak : Nat) {status : Status} (hi : s.batch[i]? = some slot)
    (hr : ∀ r, ({ slot with status } : Slot).result? = some r → r.IsFair slot.leaf.nodePath)
    (hcalls : (requests.map Request.nodePath ++ (s.set i status).waiting).Subperm
      (s.requests.map Request.nodePath ++ s.waiting)) :
    Lined rows ({ s with store, claims, metrics, requests, peak }.set i status) where
  paths := by
    rw [← h.paths]
    exact congrArg (_ ++ · ++ _) (map_leaf_modify Leaf.nodePath s.batch i status)
  later := h.later
  begun := h.begun
  batch := by
    intro _
    have hne : s.batch ≠ [] := List.ne_nil_of_mem (List.mem_of_getElem? hi)
    obtain ⟨hnone, hpos, hrow⟩ := h.batch hne
    exact ⟨hnone, hpos, hrow.trans (congrArg some (map_leaf_modify id s.batch i status).symm)⟩
  results := h.results
  leftOut := h.leftOut
  slots := forall_mem_modify hi hr h.slots
  calls := hcalls.trans h.calls

/-- The results of a batch that is settled are those of its leaves. -/
theorem paths_of_isSettled {batch : List Slot}
    (hf : ∀ slot ∈ batch, ∀ r, slot.result? = some r → r.IsFair slot.leaf.nodePath)
    (hs : (batch.all fun slot => slot.ending?.isSome) = true) :
    (batch.filterMap Slot.result?).map LeafResult.nodePath
      = batch.map fun slot => slot.leaf.nodePath := by
  induction batch with
  | nil => rfl
  | cons slot batch ih =>
    obtain ⟨hslot, hbatch⟩ := List.forall_mem_cons.1 hf
    rw [List.all_cons, Bool.and_eq_true] at hs
    obtain ⟨ending, he⟩ := Option.isSome_iff_exists.1 hs.1
    have hr : slot.result? = some (ending.result slot.leaf.nodePath) := by
      rw [Slot.result?, he]
      rfl
    rw [List.filterMap_cons, hr]
    simp only [List.map_cons, (hslot _ hr).nodePath, ih hbatch hs.2]

theorem waiting_of_isSettled (hs : s.isSettled = true) : s.waiting = [] := by
  refine List.filterMap_eq_nil_iff.2 fun slot hslot => ?_
  have hsome := List.all_eq_true.1 hs slot hslot
  obtain ⟨leaf, status⟩ := slot
  cases status with
  | waiting => cases hsome
  | inFlight r => rfl
  | settled e => rfl

/-- A build that is not at its end has not left out anything. -/
theorem leftOut_eq_none (h : Lined rows s) (hd : s.isDone = false) : s.leftOut = none := by
  by_contra hsome
  obtain ⟨hlater, -⟩ := h.leftOut hsome
  have hbatch : s.batch ≠ [] := by
    intro hb
    rw [BuildState.isDone, hb, hlater] at hd
    cases hd
  exact hsome (h.batch hbatch).1

/-- Of two leaves that wanted one path, the second has no success. -/
theorem exists_failure (ho : s.Overlapped) :
    ∃ r ∈ s.batch.filterMap Slot.result?, r.success = false := by
  obtain ⟨⟨leaf, status⟩, hslot, he⟩ := ho
  cases status with
  | waiting => cases he
  | inFlight request => cases he
  | settled ending =>
    cases ending with
    | overlapping o => exact ⟨_, List.mem_filterMap.2 ⟨_, hslot, rfl⟩, rfl⟩
    | completed r => cases he
    | failed message => cases he
    | broken e => cases he

/-- The results of a batch that is settled are kept. -/
theorem keep (h : Lined rows s) (hs : s.isSettled = true) (hnone : s.leftOut = none) :
    Lined rows { s with results := s.results ++ s.batch.filterMap Slot.result?, batch := [] } := by
  obtain ⟨executed, hexecuted, hresults⟩ := h.results
  obtain rfl : s.results = executed := by simpa [hnone] using hresults
  refine ⟨?_, h.later, h.begun, fun hb => absurd rfl hb,
    ⟨s.results ++ s.batch.filterMap Slot.result?, fun r hr => ?_, ?_⟩,
    fun hsome => absurd hnone hsome, nofun, ?_⟩
  · rw [← h.paths, List.map_append, paths_of_isSettled h.slots hs, List.map_nil, List.append_nil]
  · rcases List.mem_append.1 hr with hr | hr
    · exact hexecuted r hr
    · obtain ⟨slot, hslot, hr⟩ := List.mem_filterMap.1 hr
      have hf := h.slots slot hslot r hr
      exact hf.nodePath ▸ hf
  · simp [hnone]
  · have hcalls := h.calls
    rwa [waiting_of_isSettled hs] at hcalls

/-- The leaves of the rows to come are left out. -/
theorem leaveOut (h : Lined rows s) (hb : s.batch = []) (hnone : s.leftOut = none)
    (hfail : ∃ r ∈ s.results, r.success = false) :
    Lined rows { s with
      results := s.results ++ s.later.flatten.map Leaf.skip
      batch := []
      later := []
      leftOut := some s.later.flatten.length } := by
  obtain ⟨executed, hexecuted, hresults⟩ := h.results
  obtain rfl : s.results = executed := by simpa [hnone] using hresults
  refine ⟨?_, nofun, h.begun, fun hb => absurd rfl hb, ⟨s.results, hexecuted, ?_⟩,
    fun _ => ⟨rfl, ?_⟩, nofun, ?_⟩
  · rw [← h.paths, hb]
    simp [Function.comp_def, Leaf.skip]
  · rw [h.later hnone]
    rfl
  · obtain ⟨r, hr, hf⟩ := hfail
    exact ⟨r, List.mem_append_left _ hr, hf⟩
  · have hcalls := h.calls
    rw [BuildState.waiting, hb] at hcalls
    exact hcalls

/-- The next row begins. -/
theorem begin {row : List Leaf} {later : List (List Leaf)} (h : Lined rows s) (hb : s.batch = [])
    (hnone : s.leftOut = none) (hl : s.later = row :: later) :
    Lined rows { s with
      batch := row.map fun l => { leaf := l }
      later
      batches := s.batches + 1 } := by
  have hlater := (h.later hnone).symm.trans hl
  have hlt : s.batches < rows.length := by
    by_contra hle
    rw [List.drop_eq_nil_of_le (by omega)] at hlater
    cases hlater
  obtain ⟨hrow, hrest⟩ := List.cons.inj ((List.drop_eq_getElem_cons hlt).symm.trans hlater)
  refine ⟨?_, fun _ => hrest.symm, hlt, fun _ => ⟨hnone, Nat.succ_pos _, ?_⟩, ?_,
    fun hsome => absurd hnone hsome, ?_, ?_⟩
  · rw [← h.paths, hb, hl]
    simp [Function.comp_def]
  · rw [Nat.add_sub_cancel, List.getElem?_eq_getElem hlt, hrow, List.map_map]
    exact congrArg some (List.map_id row).symm
  · simpa [hnone] using h.results
  · intro slot hslot r hr
    obtain ⟨l, -, rfl⟩ := List.mem_map.1 hslot
    cases hr
  · have hcalls := h.calls
    have hfresh (ls : List Leaf) : (ls.map fun l => ({ leaf := l } : Slot)).filterMap
        (fun slot => if slot.isWaiting then some slot.leaf.nodePath else none) = ls.map Leaf.nodePath := by
      rw [List.filterMap_map]
      exact congrFun List.filterMap_eq_map ls
    rw [BuildState.waiting, hb, List.filterMap_nil, List.append_nil] at hcalls
    rw [BuildState.waiting, hfresh, List.take_succ_eq_append_getElem hlt, List.flatten_append,
      List.map_append, hrow, List.flatten_singleton]
    exact (List.subperm_append_right _).2 hcalls

/-- **Every move keeps to the rows.** -/
theorem advance (h : Lined rows s) (ha : Advance s t) : Lined rows t := by
  cases ha with
  | nothing => exact h
  | send leaf request peak i hi hr =>
    have hp := waiting_set_perm (.inFlight request) hi rfl
    have hnode : [leaf.nodePath] = [request].map Request.nodePath := by rw [List.map_singleton, hr]
    refine h.set s.store s.claims s.metrics _ peak hi nofun ?_
    rw [List.map_append, List.append_assoc, ← hnode]
    exact (List.subperm_append_left _).2 (List.perm_append_comm.trans hp).subperm
  | settle store claims metrics slot ending i hi hs hf =>
    have hp := waiting_set_perm (.settled ending) hi rfl
    refine h.set store claims metrics s.requests s.peak hi (fun r he => Option.some.inj he ▸ hf) ?_
    exact (List.subperm_append_left _).2 ((List.sublist_append_left _ _).subperm.trans hp.subperm)
  | leaveOut hs hd ho =>
    have hnone := h.leftOut_eq_none hd
    obtain ⟨r, hr, hfail⟩ := exists_failure ho
    exact (h.keep hs hnone).leaveOut rfl hnone ⟨r, List.mem_append_right _ hr, hfail⟩
  | last hs hd => exact h.keep hs (h.leftOut_eq_none hd)
  | begin row later hs hd ho hl =>
    have hnone := h.leftOut_eq_none hd
    exact (h.keep hs hnone).begin rfl hnone hl

theorem run (h : Lined rows s) (moves : List Move) : Lined rows (s.run b moves) := by
  induction moves generalizing s with
  | nil => exact h
  | cons m moves ih => exact ih (h.advance (advance_step b s m))

end Lined

end SpecTree.Build
