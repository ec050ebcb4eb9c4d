import SpecTree.Proofs.Build.Rows

/-!
# Batches one after another

However the calls of a batch overlap, and whatever comes of them, a build's report lists every leaf once and
in order, no call of a batch is sent before all batches before it are settled, and the batches after an
overlap are left out (`build_accounts`).

1. A build leaves out leaves just if it has come to an overlap, and it ends with that batch (`leftOut_iff`).
2. A move that sends a call keeps the barrier between the batches (`Lined.keepsBarrier`).
3. At its end a build accounts for its leaves (`Lined.accounts`).
-/

namespace SpecTree.Build

variable {b : Site} {s t : BuildState} {i : Nat} {slot : Slot} {rows : List (List Leaf)}

/-! ## An overlap is the end -/

/-- What is settled stays settled while other leaves of the batch go on. -/
theorem Overlapped.modify {batch : List Slot} {f : Slot → Slot} (hi : batch[i]? = some slot)
    (hs : slot.ending? = none) (h : ∃ x ∈ batch, x.ending?.any LeafEnding.isOverlap = true) :
    ∃ x ∈ batch.modify i f, x.ending?.any LeafEnding.isOverlap = true := by
  obtain ⟨x, hx, ho⟩ := h
  obtain ⟨j, hj⟩ := List.mem_iff_getElem?.1 hx
  have hij : i ≠ j := by
    rintro rfl
    obtain rfl := Option.some.inj (hi.symm.trans hj)
    rw [hs] at ho
    cases ho
  have hget : (batch.modify i f)[j]? = some x := by
    rw [List.getElem?_modify, hj]
    simp [hij]
  exact ⟨x, List.mem_of_getElem? hget, ho⟩

/-- **After an overlap no batch begins.** -/
theorem Lined.advance_overlapped (h : Lined rows s) (ho : s.Overlapped ∨ s.leftOut ≠ none)
    (ha : Advance s t) : (t.Overlapped ∨ t.leftOut ≠ none) ∧ t.batches = s.batches := by
  cases ha with
  | nothing => exact ⟨ho, rfl⟩
  | send leaf request peak i hi hr => exact ⟨ho.imp_left (Overlapped.modify hi rfl), rfl⟩
  | settle store claims metrics slot ending i hi hs hf =>
    exact ⟨ho.imp_left (Overlapped.modify hi hs), rfl⟩
  | leaveOut => exact ⟨.inr nofun, rfl⟩
  | last hs hd hno => exact absurd (h.leftOut_eq_none hd) (ho.resolve_left hno)
  | begin row later hs hd hno => exact absurd (h.leftOut_eq_none hd) (ho.resolve_left hno)

theorem Lined.run_overlapped (h : Lined rows s) (ho : s.Overlapped ∨ s.leftOut ≠ none)
    (moves : List Move) :
    ((s.run b moves).Overlapped ∨ (s.run b moves).leftOut ≠ none)
      ∧ (s.run b moves).batches = s.batches := by
  induction moves generalizing s with
  | nil => exact ⟨ho, rfl⟩
  | cons m moves ih =>
    have ha := advance_step b s m
    obtain ⟨ho', hb⟩ := h.advance_overlapped ho ha
    obtain ⟨ho'', hb'⟩ := ih (h.advance ha) ho'
    exact ⟨ho'', hb'.trans hb⟩

/-- Leaves are left out for no other reason. -/
theorem overlapped_of_advance (ha : Advance s t) (h : t.leftOut ≠ none) :
    s.leftOut ≠ none ∨ s.Overlapped := by
  cases ha with
  | leaveOut hs hd ho => exact .inr ho
  | nothing | send | settle | last | begin => exact .inl h

theorem run_concat (b : Site) (s : BuildState) (moves : List Move) (m : Move) :
    s.run b (moves ++ [m]) = (s.run b moves).step b m := List.foldl_concat ..

theorem run_append (b : Site) (s : BuildState) (moves more : List Move) :
    s.run b (moves ++ more) = (s.run b moves).run b more := List.foldl_append

/-- Where leaves are left out, there was an overlap. -/
theorem exists_overlapped (hnone : s.leftOut = none) {moves : List Move}
    (hsome : (s.run b moves).leftOut ≠ none) : ∃ pre, pre <+: moves ∧ (s.run b pre).Overlapped := by
  induction moves using List.reverseRecOn with
  | nil => exact absurd hnone hsome
  | append_singleton moves m ih =>
    rw [run_concat] at hsome
    rcases overlapped_of_advance (advance_step b _ m) hsome with hsome | ho
    · obtain ⟨pre, hp, ho⟩ := ih hsome
      exact ⟨pre, hp.trans (List.prefix_append _ _), ho⟩
    · exact ⟨moves, List.prefix_append _ _, ho⟩

/-- **A build leaves out leaves just if it has come to an overlap**, and none of the batch where that was. -/
theorem leftOut_iff (h : Lined rows s) (hnone : s.leftOut = none) {moves : List Move}
    (hd : (s.run b moves).isDone = true) :
    ((s.run b moves).leftOut ≠ none ↔ ∃ pre, pre <+: moves ∧ (s.run b pre).Overlapped)
    ∧ ∀ pre, pre <+: moves → (s.run b pre).Overlapped →
      (s.run b moves).batches = (s.run b pre).batches := by
  have hstays (pre : List Move) (hp : pre <+: moves) (ho : (s.run b pre).Overlapped) :
      (s.run b moves).leftOut ≠ none ∧ (s.run b moves).batches = (s.run b pre).batches := by
    obtain ⟨post, rfl⟩ := hp
    rw [run_append] at hd ⊢
    obtain ⟨ho', hb⟩ := (h.run (b := b) pre).run_overlapped (b := b) (.inl ho) post
    refine ⟨ho'.resolve_left ?_, hb⟩
    rintro ⟨slot, hslot, -⟩
    rw [BuildState.isDone, Bool.and_eq_true, List.isEmpty_iff] at hd
    rw [hd.1] at hslot
    cases hslot
  refine ⟨⟨exists_overlapped hnone, ?_⟩, fun pre hp ho => (hstays pre hp ho).2⟩
  rintro ⟨pre, hp, ho⟩
  exact (hstays pre hp ho).1

/-! ## The barrier -/

/-- From one state to the next no call is sent, or one for a leaf of the row begun last, when every leaf of the
rows before has its result. -/
def KeepsBarrier (rows : List (List Leaf)) (s t : BuildState) : Prop :=
  t.requests = s.requests ∨
    ∃ row, 0 < s.batches ∧ rows[s.batches - 1]? = some row
      ∧ (∃ leaf ∈ row, ∃ request : Request, request.nodePath = leaf.nodePath
        ∧ t.requests = s.requests ++ [request])
      ∧ s.results.map LeafResult.nodePath = (rows.take (s.batches - 1)).flatten.map Leaf.nodePath

theorem Lined.keepsBarrier (h : Lined rows s) (ha : Advance s t) : KeepsBarrier rows s t := by
  cases ha with
  | send leaf request peak i hi hr =>
    have hmem : ⟨leaf, .waiting⟩ ∈ s.batch := List.mem_of_getElem? hi
    obtain ⟨-, hpos, hrow⟩ := h.batch (List.ne_nil_of_mem hmem)
    exact .inr ⟨_, hpos, hrow, ⟨leaf, List.mem_map_of_mem hmem, request, hr, rfl⟩,
      h.before (List.ne_nil_of_mem hmem)⟩
  | nothing | settle | leaveOut | last | begin => exact .inl rfl

/-! ## The report -/

/-- A report accounts for leaves in rows, and for the calls that were sent about them. -/
structure BuildReport.Accounts (r : BuildReport) (rows : List (List Leaf)) (requests : List Request) :
    Prop where
  /-- Every leaf is listed once, in order. -/
  listed : r.results.map LeafResult.nodePath = rows.flatten.map Leaf.nodePath
  total : r.total = rows.flatten.length
  counted : r.total = r.successes + r.failures
  /-- The leaves of the batches that began were carried out, the leaves of all others left out. -/
  executed : ∃ executed : List LeafResult,
    r.results = executed ++ (rows.drop r.batches).flatten.map Leaf.skip
      ∧ (∀ l ∈ executed, l.skipped = false)
      ∧ executed.map LeafResult.nodePath = (rows.take r.batches).flatten.map Leaf.nodePath
  /-- No leaf was asked about twice, and none that was left out. -/
  calls : (requests.map Request.nodePath).Subperm ((rows.take r.batches).flatten.map Leaf.nodePath)
  whole : r.aborted = false → r.batches = rows.length
  files : r.files = (r.results.map LeafResult.files).flatten
  questions : r.questions = (r.results.map LeafResult.questions).flatten
  considerations : r.considerations = (r.results.map LeafResult.considerations).flatten
  perfect : r.successes = r.total ↔ r.errors = []

/-- At its end a build has carried out the rows that began, and has left out the others. -/
theorem Lined.exists_executed (h : Lined rows s) (hd : s.isDone = true) :
    ∃ executed : List LeafResult, (∀ r ∈ executed, r.IsFair r.nodePath)
      ∧ s.results = executed ++ (rows.drop s.batches).flatten.map Leaf.skip := by
  obtain ⟨executed, hfair, hresults⟩ := h.results
  refine ⟨executed, hfair, hresults.trans (congrArg _ ?_)⟩
  by_cases hnone : s.leftOut = none
  · rw [BuildState.isDone, Bool.and_eq_true, List.isEmpty_iff, List.isEmpty_iff] at hd
    rw [← h.later hnone, hd.2, hnone]
    rfl
  · rw [if_pos (Option.isSome_iff_ne_none.2 hnone)]

/-- A report has nothing to complain of just if every leaf is a success. -/
theorem Lined.successes_iff (h : Lined rows s) (total : Nat) :
    (∀ r ∈ s.results, r.success = true) ↔ (s.report total).errors = [] := by
  obtain ⟨executed, hfair, hresults⟩ := h.results
  have hfair (hnone : s.leftOut = none) (r : LeafResult) (hr : r ∈ s.results) :
      r.success = r.errors.isEmpty := by
    refine (hfair r ?_).success
    simpa [hresults, hnone] using hr
  rw [BuildState.report, List.append_eq_nil_iff, List.flatMap_eq_nil_iff, BuildState.abortMessages,
    List.map_eq_nil_iff, Option.toList_eq_nil_iff]
  constructor
  · intro hall
    have hnone : s.leftOut = none := by
      by_contra hsome
      obtain ⟨r, hr, hfail⟩ := (h.leftOut hsome).2
      rw [hall r hr] at hfail
      cases hfail
    refine ⟨fun r hr => ?_, hnone⟩
    rw [← List.isEmpty_iff, ← hfair hnone r hr, hall r hr]
  · rintro ⟨herrors, hnone⟩ r hr
    rw [hfair hnone r hr, herrors r hr]
    rfl

theorem Lined.accounts (h : Lined rows s) (hd : s.isDone = true) :
    (s.report rows.flatten.length).Accounts rows s.requests := by
  have hd' := hd
  rw [BuildState.isDone, Bool.and_eq_true, List.isEmpty_iff, List.isEmpty_iff] at hd'
  have hlisted : s.results.map LeafResult.nodePath = rows.flatten.map Leaf.nodePath := by
    have hpaths := h.paths
    rw [hd'.1, hd'.2] at hpaths
    simpa using hpaths
  have hlength : s.results.length = rows.flatten.length := by
    simpa only [List.length_map] using congrArg List.length hlisted
  obtain ⟨executed, hfair, hresults⟩ := h.exists_executed hd
  refine ⟨hlisted, rfl, ?_, ⟨executed, hresults, fun l hl => (hfair l hl).executed, ?_⟩, ?_, fun ha => ?_,
    List.flatMap_def, List.flatMap_def, List.flatMap_def, ?_⟩
  · show rows.flatten.length = s.results.countP _ + s.results.countP _
    rw [← hlength, List.length_eq_countP_add_countP LeafResult.success]
    simp
  · have hsplit : rows.flatten.map Leaf.nodePath
        = (rows.take s.batches).flatten.map Leaf.nodePath
          ++ ((rows.drop s.batches).flatten.map Leaf.skip).map LeafResult.nodePath := by
      conv_lhs => rw [← List.take_append_drop s.batches rows]
      rw [List.flatten_append, List.map_append, List.map_map]
      rfl
    rw [hresults, List.map_append, hsplit] at hlisted
    exact List.append_cancel_right hlisted
  · have hcalls := h.calls
    rwa [BuildState.waiting, hd'.1, List.filterMap_nil, List.append_nil] at hcalls
  · have hnone : s.leftOut = none := Option.isSome_eq_false_iff.1 ha |> Option.isNone_iff_eq_none.1
    have hdrop : rows.drop s.batches = [] := by rw [← h.later hnone, hd'.2]
    exact Nat.le_antisymm h.begun (List.drop_eq_nil_iff.1 hdrop)
  · rw [← h.successes_iff]
    show s.results.countP _ = rows.flatten.length ↔ _
    rw [← hlength, List.countP_eq_length]

/-- **A build accounts for its leaves**, however wide its batches are, whatever comes of the calls, and in
whatever order. No run gets stuck, and none sends a call before the batches before are settled. At its end the
report accounts for the rows, of which there are as few as the width allows; it is an abort just if two leaves
wanted one path, and the batch with these is the last one that began. -/
theorem build_accounts (b : Site) (store : Store) (metrics : Metrics) (parallelism : Int)
    (leaves : List Leaf) (moves : List Move) :
    let rows := batches parallelism leaves
    let start := BuildState.initial store rows metrics
    let s := start.run b moves
    let r := s.report leaves.length
    rows.flatten = leaves ∧ rows.length = leaves.length ⌈/⌉ max 1 parallelism.toNat
    ∧ (∃ more, (start.run b (moves ++ more)).isDone = true)
    ∧ (∀ pre m, pre ++ [m] <+: moves → KeepsBarrier rows (start.run b pre) (start.run b (pre ++ [m])))
    ∧ (s.isDone = true → r.Accounts rows s.requests
      ∧ (r.aborted = true ↔ ∃ pre, pre <+: moves ∧ (start.run b pre).Overlapped)
      ∧ ∀ pre, pre <+: moves → (start.run b pre).Overlapped →
        r.batches = (start.run b pre).batches) := by
  intro rows start s r
  have hrows : rows.flatten = leaves := flatten_rows _ _
  have hstart : Lined rows start := lined_initial store rows metrics
  refine ⟨hrows, length_rows (width_pos parallelism) leaves, ?_, fun pre m _ => ?_, fun hd => ⟨?_, ?_⟩⟩
  · obtain ⟨more, -, hdone, -⟩ :=
      exists_run_complete b .prompt (fun _ => .ok {}) (start.run b moves)
    exact ⟨more, by rwa [run_append]⟩
  · rw [run_concat]
    exact (hstart.run pre).keepsBarrier (advance_step b _ m)
  · have haccounts := (hstart.run (b := b) moves).accounts hd
    rwa [hrows] at haccounts
  · obtain ⟨hleftOut, hbatches⟩ := leftOut_iff hstart rfl hd
    refine ⟨?_, hbatches⟩
    rw [← hleftOut]
    exact Option.isSome_iff_ne_none

/-! ## A build that is aborted -/

/-- An answer that has one path twice. -/
def doubledAnswer : Production := { files := [⟨"x.txt", "1"⟩, ⟨"./x.txt", "2"⟩] }

/-- Three leaves, of which the plan has only the first. -/
def threeLeaves : List Leaf := [loneLeaf, ⟨"a", "", ""⟩, ⟨"b", "", ""⟩]

/-- A width below zero is a width of one. -/
def threeBuild : BuildState :=
  .initial lonePlan (batches (-1) threeLeaves) { run := "run", phase := "build" }

def doubledMoves : List Move := [.next, .start 0, .finish 0 (.ok doubledAnswer), .next]

theorem batches_threeLeaves :
    batches (-1) threeLeaves = [[loneLeaf], [⟨"a", "", ""⟩], [⟨"b", "", ""⟩]] := by cbv

theorem deliver_doubledAnswer : ∃ c o,
    deliver lonePolicy.site lonePlan {} loneLeaf.nodePath doubledAnswer
      = (lonePlan, c, .overlapping o) := by
  have haccept : accept doubledAnswer.files = ([⟨"x.txt", "1"⟩, ⟨"x.txt", "2"⟩], []) := by
    decide +kernel
  unfold deliver
  rw [haccept]
  exact ⟨_, _, rfl⟩

theorem run_threeBuild :
    (threeBuild.run lonePolicy.site (doubledMoves.take 3)).Overlapped
      ∧ (threeBuild.run lonePolicy.site (doubledMoves.take 3)).batches = 1
      ∧ (threeBuild.run lonePolicy.site doubledMoves).isDone = true := by
  obtain ⟨c, o, hd⟩ := deliver_doubledAnswer
  have hr : requestFor lonePlan lonePolicy.site.plan loneLeaf.nodePath
      = .ok (some ⟨"root", "x", {}⟩) := by cbv
  rw [threeBuild, batches_threeLeaves]
  simp [doubledMoves, BuildState.Overlapped, BuildState.run, BuildState.step, BuildState.initial,
    BuildState.isSettled, BuildState.isDone, BuildState.next, BuildState.start, BuildState.send,
    BuildState.set, BuildState.receive, Slot.ending?, LeafEnding.isOverlap, hr, hd]

theorem build_accounts_doubled :
    let s := threeBuild.run lonePolicy.site doubledMoves
    let r := s.report 3
    s.isDone = true ∧ r.aborted = true ∧ r.batches = 1 ∧ r.failures + r.successes = 3
      ∧ ∃ l, r.results = [l, Leaf.skip ⟨"a", "", ""⟩, Leaf.skip ⟨"b", "", ""⟩] ∧ l.skipped = false := by
  obtain ⟨hoverlapped, hone, hdone⟩ := run_threeBuild
  obtain ⟨-, -, -, -, h⟩ := build_accounts lonePolicy.site lonePlan { run := "run", phase := "build" }
    (-1) threeLeaves doubledMoves
  obtain ⟨haccounts, haborted, hbatches⟩ := h hdone
  have hprefix : doubledMoves.take 3 <+: doubledMoves := List.take_prefix ..
  have hbatches := (hbatches _ hprefix hoverlapped).trans hone
  refine ⟨hdone, haborted.2 ⟨_, hprefix, hoverlapped⟩, hbatches, ?_, ?_⟩
  · exact (Nat.add_comm ..).trans haccounts.counted.symm
  · obtain ⟨executed, hresults, hexecuted, hpaths⟩ := haccounts.executed
    rw [hbatches] at hresults hpaths
    rw [batches_threeLeaves] at hpaths
    obtain ⟨l, rfl⟩ := List.length_eq_one_iff.1 (by simpa using congrArg List.length hpaths)
    refine ⟨l, hresults.trans ?_, hexecuted l List.mem_cons_self⟩
    rw [batches_threeLeaves]
    rfl

end SpecTree.Build
