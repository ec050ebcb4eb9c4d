import SpecTree.Proofs.Build.Batches
import SpecTree.Proofs.Build.Accounting
import SpecTree.Proofs.Plan.Tally

/-!
# What a build has counted

A build that starts with fresh metrics has counted in the end what its report tells: the calls, those
that failed, and the files. With the same of a compilation, metrics and reports tell the same story
(`metrics_agree`).

A leaf that settles brings its files along (`BuildState.Tallied.set`); the end of a batch only moves
results from one list to another.
-/

namespace SpecTree

namespace Build

/-- What a leaf waits for. -/
def Slot.request? (slot : Slot) : Option Request :=
  match slot.status with
  | .inFlight r => some r
  | _ => none

/-- The reply that a move takes, with the request that it answers. -/
def Move.taken (s : BuildState) : Move → List (Request × Except Failure Production)
  | .finish i reply => ((s.batch[i]?).bind Slot.request?).toList.map fun r => (r, reply)
  | .start _ | .next => []

namespace BuildState

variable {b : Site} {s : BuildState} {i : Nat} {slot : Slot}

/-- The replies that a run takes. -/
def taken (b : Site) : BuildState → List Move → List (Request × Except Failure Production)
  | _, [] => []
  | s, m :: moves => m.taken s ++ taken b (s.step b m) moves

/-- The files of the batches before and of the settled leaves of this one. -/
def files (s : BuildState) : List GeneratedFile :=
  (s.results ++ s.batch.filterMap Slot.result?).flatMap LeafResult.files

/-- What a build has counted after some replies. -/
structure Tallied (replies : List (Request × Except Failure Production)) (s : BuildState) : Prop where
  files : s.metrics.files = s.files.length
  calls : s.metrics.Tallies "generate" (replies.map Prod.snd)
  requests : s.requests.Perm (replies.map Prod.fst ++ s.batch.filterMap Slot.request?)

/-- A leaf without a result goes on: what is counted of it is its files, if it has a result now, and
the reply that it took. -/
theorem Tallied.set {replies new : List (Request × Except Failure Production)} (h : s.Tallied replies)
    (hi : s.batch[i]? = some slot) (hs : slot.result? = none) {status : Status} {store : Store}
    {claims : Claims} {metrics : Metrics} {requests : List Request} {peak : Nat}
    (hf : metrics.files
      = s.metrics.files + (({ slot with status } : Slot).result?.toList.flatMap LeafResult.files).length)
    (hc : metrics.Tallies "generate" ((replies ++ new).map Prod.snd))
    (hr : (requests ++ slot.request?.toList).Perm
      (s.requests ++ new.map Prod.fst ++ ({ slot with status } : Slot).request?.toList)) :
    ({ s with store, claims, metrics, requests, peak }.set i status).Tallied (replies ++ new) where
  files := by
    have hp := filterMap_modify_perm hi Slot.result? fun slot => { slot with status }
    rw [hs, Option.toList_none, List.append_nil] at hp
    have hp := ((hp.append_left s.results).flatMap_right LeafResult.files).trans
      (.of_eq (by rw [← List.append_assoc, List.flatMap_append]))
    have hl := hp.length_eq
    rw [List.length_append] at hl
    refine hf.trans ?_
    rw [h.files]
    exact_mod_cast hl.symm
  calls := hc
  requests := by
    have hp := filterMap_modify_perm hi Slot.request? fun slot => { slot with status }
    have hq := h.requests
    rw [List.perm_iff_count] at hp hq hr ⊢
    intro r
    have hp := hp r
    have hq := hq r
    have hr := hr r
    simp only [List.count_append, List.map_append, BuildState.set] at hp hq hr ⊢
    omega

theorem Tallied.start {replies : List (Request × Except Failure Production)} (h : s.Tallied replies)
    {leaf : Leaf} (hi : s.batch[i]? = some ⟨leaf, .waiting⟩) :
    (s.start b i leaf.nodePath).Tallied replies := by
  rw [← List.append_nil replies]
  have hc : s.metrics.Tallies "generate" ((replies ++ []).map Prod.snd) := by
    rw [List.append_nil]
    exact h.calls
  unfold BuildState.start
  split
  · next r _ =>
    have hset : ({ s with
        requests := s.requests ++ [r]
        peak := max s.peak ((s.set i (.inFlight r)).batch.countP Slot.isInFlight) }.set i
          (.inFlight r)).Tallied (replies ++ []) :=
      h.set hi rfl (by simp [Slot.result?, Slot.ending?]) hc (by simp [Slot.request?])
    exact hset
  all_goals
    exact h.set hi rfl (by simp [Slot.result?, Slot.ending?, LeafEnding.result]) hc
      (by simp [Slot.request?])

theorem Tallied.receive {replies : List (Request × Except Failure Production)} (h : s.Tallied replies)
    {leaf : Leaf} {r : Request} (hi : s.batch[i]? = some ⟨leaf, .inFlight r⟩)
    (reply : Except Failure Production) :
    (s.receive b i leaf.nodePath reply).Tallied (replies ++ [(r, reply)]) := by
  have hc : (s.metrics.countCall "generate" 0 (!reply.isOk)).Tallies "generate"
      ((replies ++ [(r, reply)]).map Prod.snd) := by
    rw [List.map_append]
    exact h.calls.countCall 0 reply
  unfold BuildState.receive
  cases reply with
  | error f =>
    exact h.set hi rfl (by simp [Slot.result?, Slot.ending?, LeafEnding.result, Metrics.countCall]) hc
      (by simp [Slot.request?])
  | ok answer =>
    dsimp only
    generalize deliver b s.store s.claims leaf.nodePath answer = delivered
    obtain ⟨store, claims, ending⟩ := delivered
    refine h.set hi rfl ?_ ?_ (by simp [Slot.request?])
    · cases ending <;>
        simp [Slot.result?, Slot.ending?, LeafEnding.result, Metrics.countCall, Metrics.countFiles]
    · cases ending <;> exact hc.of_eq rfl rfl

/-- Nothing is in flight in a batch that is settled. -/
theorem filterMap_request?_of_isSettled (h : s.isSettled = true) :
    s.batch.filterMap Slot.request? = [] := by
  rw [List.filterMap_eq_nil_iff]
  rintro ⟨leaf, status⟩ hslot
  have he := List.all_eq_true.1 h _ hslot
  cases status with
  | inFlight r => simp [Slot.ending?] at he
  | waiting | settled => rfl

theorem filterMap_request?_fresh (leaves : List Leaf) :
    (leaves.map fun l => ({ leaf := l } : Slot)).filterMap Slot.request? = [] := by
  rw [List.filterMap_eq_nil_iff, List.forall_mem_map]
  exact fun l _ => rfl

theorem Tallied.next {replies : List (Request × Except Failure Production)} (h : s.Tallied replies)
    (hs : s.isSettled = true) : s.next.Tallied replies := by
  have hq := h.requests
  rw [filterMap_request?_of_isSettled hs] at hq
  have hf := h.files
  have hskipped (leaves : List Leaf) :
      (leaves.map fun l => ({ nodePath := l.nodePath, skipped := true } : LeafResult)).flatMap
        LeafResult.files = [] := by
    rw [List.flatMap_eq_nil_iff, List.forall_mem_map]
    exact fun l _ => rfl
  unfold BuildState.next
  dsimp only
  split
  · refine ⟨?_, h.calls, hq⟩
    rw [BuildState.files, List.filterMap_nil, List.append_nil, List.flatMap_append, hskipped,
      List.append_nil]
    exact hf
  · split
    · refine ⟨?_, h.calls, hq⟩
      rw [BuildState.files, List.filterMap_nil, List.append_nil]
      exact hf
    · refine ⟨?_, h.calls, ?_⟩
      · rw [BuildState.files, filterMap_result?_fresh, List.append_nil]
        exact hf
      · rw [filterMap_request?_fresh]
        exact hq

/-- **A move changes metrics and results together.** -/
theorem Tallied.step {replies : List (Request × Except Failure Production)} (h : s.Tallied replies)
    (m : Move) : (s.step b m).Tallied (replies ++ m.taken s) := by
  cases m with
  | start i =>
    rw [Move.taken, List.append_nil, BuildState.step]
    split
    · next leaf hi => exact h.start hi
    · exact h
  | finish i reply =>
    rw [Move.taken, BuildState.step]
    split
    · next leaf r hi =>
      rw [hi]
      exact h.receive hi reply
    · next hno =>
      have hnone : (s.batch[i]?).bind Slot.request? = none := by
        rw [Option.bind_eq_none_iff]
        rintro ⟨leaf, status⟩ hi
        cases status with
        | inFlight r => exact absurd hi (hno leaf r)
        | waiting | settled => rfl
      rw [hnone]
      simpa using h
  | next =>
    rw [Move.taken, List.append_nil, BuildState.step]
    split
    · next hs => exact h.next (Bool.and_eq_true_iff.1 hs).1
    · exact h

/-- **So does a run.** -/
theorem Tallied.run {replies : List (Request × Except Failure Production)} (h : s.Tallied replies)
    (moves : List Move) : (s.run b moves).Tallied (replies ++ s.taken b moves) := by
  induction moves generalizing s replies with
  | nil =>
    rw [taken, List.append_nil]
    exact h
  | cons m moves ih =>
    rw [taken, ← List.append_assoc]
    exact ih (h.step m)

theorem tallied_initial (store : Store) (batches : List (List Leaf)) {metrics : Metrics}
    (h : metrics.IsFresh) : (initial store batches metrics).Tallied [] where
  files := h.files
  calls := h.tallies "generate"
  requests := .refl _

theorem taken_of_move? {pace : Plan.Pace} {provider : Request → Except Failure Production} {m : Move}
    (h : s.move? pace provider = some m) : ∀ x ∈ m.taken s, x.2 = provider x.1 := by
  have hfinish (h : s.finish? provider = some m) : ∀ x ∈ m.taken s, x.2 = provider x.1 := by
    simp only [finish?, Option.bind_eq_bind, Option.bind_eq_some_iff] at h
    obtain ⟨i, -, slot, hi, h⟩ := h
    split at h
    · next r hr =>
      cases h
      simp [Move.taken, hi, Slot.request?, hr]
    · cases h
  have hstart (h : s.start? = some m) : ∀ x ∈ m.taken s, x.2 = provider x.1 := by
    obtain ⟨_, -, rfl⟩ := Option.map_eq_some_iff.1 h
    nofun
  have hnext (h : s.next? = some m) : ∀ x ∈ m.taken s, x.2 = provider x.1 := by
    cases (Option.ite_none_right_eq_some.1 h).2
    nofun
  cases pace <;> simp only [move?, Option.or_eq_some_iff] at h
  · exact h.elim hfinish fun h => h.2.elim hstart fun h => hnext h.2
  · exact h.elim hstart fun h => h.2.elim hfinish fun h => hnext h.2

/-- A build that is run to its end makes moves, and the replies that it takes are its provider's. -/
theorem exists_taken_complete (b : Site) (pace : Plan.Pace)
    (provider : Request → Except Failure Production) (s : BuildState) :
    ∃ moves, s.complete b pace provider = s.run b moves ∧ (s.run b moves).isDone = true
      ∧ ∀ x ∈ s.taken b moves, x.2 = provider x.1 := by
  fun_induction complete b pace provider s with
  | case1 s h => exact ⟨[], rfl, isDone_of_move? h, fun x hx => absurd hx List.not_mem_nil⟩
  | case2 s m h ih =>
    obtain ⟨moves, hm, hd, ht⟩ := ih
    refine ⟨m :: moves, hm, hd, fun x hx => ?_⟩
    exact (List.mem_append.1 hx).elim (taken_of_move? h x) (ht x)

end BuildState

/-- A report tells what metrics have counted, after some requests and replies. -/
structure BuildReport.AgreesWith (r : BuildReport) (m : Metrics) (requests : List Request)
    (replies : List (Request × Except Failure Production)) : Prop where
  files : m.files = r.files.length
  calls : m.calls "generate" = requests.length
  /-- Each call has one reply. -/
  answered : (replies.map Prod.fst).Perm requests
  failures : m.failures = Metrics.failed (replies.map Prod.snd)

theorem BuildState.Tallied.agreesWith {s : BuildState}
    {replies : List (Request × Except Failure Production)} (h : s.Tallied replies)
    (hd : s.isDone = true) (total : Nat) :
    (s.report total).AgreesWith s.metrics s.requests replies := by
  obtain ⟨hb, -⟩ := Bool.and_eq_true_iff.1 hd
  rw [List.isEmpty_iff] at hb
  have hf := h.files
  have hq := h.requests
  rw [BuildState.files, hb, List.filterMap_nil, List.append_nil] at hf
  rw [hb, List.filterMap_nil, List.append_nil] at hq
  refine ⟨hf, ?_, hq.symm, h.calls.failures⟩
  rw [h.calls.calls, List.length_map, hq.length_eq, List.length_map]

theorem BuildReport.AgreesWith.of_provider {r : BuildReport} {m : Metrics} {requests : List Request}
    {replies : List (Request × Except Failure Production)}
    {provider : Request → Except Failure Production} (h : r.AgreesWith m requests replies)
    (hp : ∀ x ∈ replies, x.2 = provider x.1) :
    r.AgreesWith m requests (requests.map fun q => (q, provider q)) :=
  ⟨h.files, h.calls, .of_eq (by simp [Function.comp_def]),
    h.failures.trans (Metrics.answered_of_forall h.answered hp)⟩

/-- **A build counts what it reports**, whatever the replies and the order of the moves. -/
theorem BuildState.agreesWith_run {b : Site} {metrics : Metrics} (hm : metrics.IsFresh)
    (store : Store) (batches : List (List Leaf)) (moves : List Move) (total : Nat) :
    let start := initial store batches metrics
    let s := start.run b moves
    s.isDone = true → (s.report total).AgreesWith s.metrics s.requests (start.taken b moves) :=
  fun hd => ((tallied_initial store batches hm).run moves).agreesWith hd total

theorem agreesWith_runBuild {p : BuildPolicy} {store : Store} {metrics : Metrics} {pace : Plan.Pace}
    {provider : Request → Except Failure Production} {s : BuildState} {r : BuildReport}
    (hm : metrics.IsFresh) (h : runBuild p store metrics pace provider = (s, .ok r)) :
    r.AgreesWith s.metrics s.requests (s.requests.map fun q => (q, provider q)) := by
  unfold runBuild at h
  split at h
  · cases h
  next made _ =>
  split at h
  · cases h
  · cases h
    exact ⟨hm.files, (hm.tallies (α := Production) "generate").calls, .refl _, hm.failures⟩
  · next leaves _ _ =>
    cases h
    obtain ⟨moves, hrun, hdone, hreplies⟩ := BuildState.exists_taken_complete p.site pace provider
      (.initial made (batches p.parallelism leaves) metrics)
    rw [hrun]
    exact (BuildState.agreesWith_run hm made _ moves _ hdone).of_provider hreplies

end Build

/-- **Metrics and reports tell the same story**: of every compilation and every build that starts with
fresh metrics, under every order of moves and all replies, and so of whole runs with a provider. -/
theorem metrics_agree {metrics : Metrics} (hm : metrics.IsFresh) :
    (∀ (p : Plan.TreePolicy) (store : Store) (root : Spec.Document) (moves : List Plan.Move),
      (store.makeDirectories p.directory).2 = none →
      let start := Plan.TreeState.initial (store.makeDirectories p.directory).1 root metrics
      let s := start.run p moves
      s.isDone = true → s.report.AgreesWith s.metrics s.requests (start.taken p moves))
    ∧ (∀ p store root pace provider s r,
      Plan.compileTree p store root metrics pace provider = (s, .ok r) →
        r.AgreesWith s.metrics s.requests (s.requests.map fun q => (q, provider q)))
    ∧ (∀ (b : Build.Site) (store : Store) (batches : List (List Build.Leaf))
        (moves : List Build.Move) (total : Nat),
      let start := Build.BuildState.initial store batches metrics
      let s := start.run b moves
      s.isDone = true → (s.report total).AgreesWith s.metrics s.requests (start.taken b moves))
    ∧ ∀ p store pace provider s r, Build.runBuild p store metrics pace provider = (s, .ok r) →
      r.AgreesWith s.metrics s.requests (s.requests.map fun q => (q, provider q)) :=
  ⟨fun _ _ root moves h => Plan.TreeState.agreesWith_run hm h root moves,
    fun _ _ _ _ _ _ _ h => Plan.agreesWith_compileTree hm h,
    fun _ store batches moves total => Build.BuildState.agreesWith_run hm store batches moves total,
    fun _ _ _ _ _ _ h => Build.agreesWith_runBuild hm h⟩

namespace Build

/-- The one leaf of a plan is built to the end. -/
theorem exists_runBuild_lone (pace : Plan.Pace) (provider : Request → Except Failure Production) :
    ∃ s r, runBuild lonePolicy lonePlan { run := "run", phase := "build" } pace provider
      = (s, .ok r) := by
  have hprepare : prepareOutput lonePolicy lonePlan = (lonePlan, none) := by cbv
  have hleaves : discover lonePlan lonePolicy.site.plan = .ok [loneLeaf] := by cbv
  let s := (BuildState.initial lonePlan (batches lonePolicy.parallelism [loneLeaf])
    { run := "run", phase := "build" }).complete lonePolicy.site pace provider
  refine ⟨s, s.report 1, ?_⟩
  rw [runBuild, hprepare]
  dsimp only
  rw [hleaves]
  rfl

end Build

theorem metrics_agree_least :
    (∃ s r, Plan.compileTree Plan.leastSession.policy .empty Plan.emptyRoot { run := "", phase := "" }
        .prompt (fun _ => .ok {}) = (s, .ok r) ∧ s.metrics.nodes = 1 ∧ s.metrics.calls "compile" = r.calls)
    ∧ (∃ s r, Build.runBuild Build.lonePolicy Build.lonePlan { run := "run", phase := "build" }
        .prompt (fun _ => .error ⟨.timeout, ""⟩) = (s, .ok r)
          ∧ s.metrics.files = r.files.length ∧ s.metrics.failures = s.requests.length)
    ∧ (∃ s, s = Plan.leastSession.run .empty ∧ s.isDone = true
        ∧ s.metrics.leaves = s.report.leafCount)
    ∧ ∃ s, s = Build.threeBuild.run Build.lonePolicy.site Build.doubledMoves ∧ s.isDone = true
        ∧ s.metrics.calls "generate" = s.requests.length := by
  have hplan : ({ run := "", phase := "" } : Metrics).IsFresh := ⟨rfl, rfl, rfl, rfl, rfl, rfl⟩
  have hbuild : ({ run := "run", phase := "build" } : Metrics).IsFresh :=
    ⟨rfl, rfl, rfl, rfl, rfl, rfl⟩
  refine ⟨?_, ?_, ?_, ?_⟩
  · obtain ⟨s, r, hr, hlength⟩ := Plan.exists_compileTree_least .prompt fun _ => .ok {}
    have h := (metrics_agree hplan).2.1 _ _ _ _ _ _ _ hr
    exact ⟨s, r, hr, h.nodes.trans hlength, h.calls⟩
  · obtain ⟨s, r, hr⟩ := Build.exists_runBuild_lone .prompt fun _ => .error ⟨.timeout, ""⟩
    have h := (metrics_agree hbuild).2.2.2 _ _ _ _ _ _ hr
    refine ⟨s, r, hr, h.files, h.failures.trans ?_⟩
    simp [Metrics.failed, Except.isOk, Except.toBool]
  · have hdone := Plan.leastSession_run.1.isDone
    have h := (metrics_agree hplan).1 Plan.leastSession.policy .empty Plan.emptyRoot
      Plan.leastSession.moves (by decide) hdone
    exact ⟨_, rfl, hdone, h.leaves⟩
  · have hdone := Build.run_threeBuild.2.2
    have h := (metrics_agree hbuild).2.2.1 Build.lonePolicy.site Build.lonePlan
      (Build.batches (-1) Build.threeLeaves) Build.doubledMoves 3 hdone
    exact ⟨_, rfl, hdone, h.calls⟩

end SpecTree
