import SpecTree.Metrics.Basic
import SpecTree.Proofs.Plan.Single

/-!
# What a compilation has counted

A compilation that starts with fresh metrics has counted in the end what its report tells
(`TreeState.agreesWith_run`, `agreesWith_compileTree`): the nodes, leaves and cache hits, the calls,
and those that failed.

1. `Tallies`: the calls of an operation are counted reply by reply.
2. `taken`: the replies that a run takes, each with the request that it answers. What is sent is what
   is answered and what is in flight.
3. Most moves are `Quiet`: no call is sent or answered, and a node is counted when its result is kept.
   `Tallied.step` adds the moves that send and receive.
-/

namespace SpecTree

/-! ## Counters -/

namespace Metrics

variable {α : Type} {m : Metrics} {operation : String}

/-- Nothing has been counted. -/
structure IsFresh (m : Metrics) : Prop where
  nodes : m.nodes = 0
  leaves : m.leaves = 0
  cacheHits : m.cacheHits = 0
  files : m.files = 0
  latencies : m.latencies = {}
  failures : m.failures = 0

/-- How many replies are failures. -/
def failed (replies : List (Except Failure α)) : Nat := replies.countP fun r => !r.isOk

/-- One call was counted for each reply, and one failure for each that is one. -/
structure Tallies (m : Metrics) (operation : String) (replies : List (Except Failure α)) : Prop where
  calls : m.calls operation = replies.length
  failures : m.failures = failed replies

theorem IsFresh.tallies (h : m.IsFresh) (operation : String) :
    m.Tallies (α := α) operation [] where
  calls := by
    rw [calls, h.latencies]
    rfl
  failures := h.failures

theorem calls_countCall (millis : Float) (failed : Bool) :
    (m.countCall operation millis failed).calls operation = m.calls operation + 1 := by
  simp [calls, countCall, Table.get?_put]

theorem Tallies.countCall {replies : List (Except Failure α)} (h : m.Tallies operation replies)
    (millis : Float) (reply : Except Failure α) :
    (m.countCall operation millis (!reply.isOk)).Tallies operation (replies ++ [reply]) where
  calls := by rw [calls_countCall, h.calls, List.length_append, List.length_singleton]
  failures := by
    rw [failed, List.countP_append, ← failed, ← h.failures]
    cases reply <;> rfl

theorem Tallies.of_eq {m' : Metrics} {replies : List (Except Failure α)}
    (h : m.Tallies operation replies) (hl : m'.latencies = m.latencies)
    (hf : m'.failures = m.failures) : m'.Tallies operation replies where
  calls := by
    rw [Metrics.calls, hl]
    exact h.calls
  failures := hf.trans h.failures

/-- Replies that a provider gives are known from the requests. -/
theorem answered_of_forall {replies : List (Request × Except Failure α)} {requests : List Request}
    {provider : Request → Except Failure α} (hp : (replies.map Prod.fst).Perm requests)
    (h : ∀ x ∈ replies, x.2 = provider x.1) :
    failed (replies.map Prod.snd) = failed ((requests.map fun q => (q, provider q)).map Prod.snd) := by
  have hsnd : replies.map Prod.snd = (replies.map Prod.fst).map provider := by
    rw [List.map_map]
    exact List.map_congr_left h
  have hrequests : (requests.map fun q => (q, provider q)).map Prod.snd = requests.map provider :=
    List.map_map
  rw [hsnd, hrequests]
  exact (hp.map provider).countP_eq _

end Metrics

/-! ## Compilations -/

namespace Plan

/-- The reply that a move takes, with the request that it answers. -/
def Move.taken (s : TreeState) : Move → List (Request × Except Failure Expansion)
  | .finish i reply => (s.inFlight[i]?).toList.map fun d => (d.visit.request, reply)
  | .start _ | .grant _ => []

namespace TreeState

variable {p : TreePolicy} {s t u : TreeState}

/-- The replies that a run takes. -/
def taken (p : TreePolicy) : TreeState → List Move → List (Request × Except Failure Expansion)
  | _, [] => []
  | s, m :: moves => m.taken s ++ taken p (s.step p m) moves

/-- The nodes are counted as the results are. -/
structure CountsNodes (s : TreeState) : Prop where
  nodes : s.metrics.nodes = s.results.length
  leaves : s.metrics.leaves = s.results.countP NodeResult.isLeaf
  cacheHits : s.metrics.cacheHits = s.results.countP NodeResult.cacheHit

/-- From one state to the other no call is sent or answered, and what is counted has a result. -/
structure Quiet (s t : TreeState) : Prop where
  inFlight : t.inFlight = s.inFlight
  requests : t.requests = s.requests
  latencies : t.metrics.latencies = s.metrics.latencies
  failures : t.metrics.failures = s.metrics.failures
  nodes : s.CountsNodes → t.CountsNodes

theorem Quiet.trans (h : Quiet s t) (h' : Quiet t u) : Quiet s u :=
  ⟨h'.inFlight.trans h.inFlight, h'.requests.trans h.requests, h'.latencies.trans h.latencies,
    h'.failures.trans h.failures, h'.nodes ∘ h.nodes⟩

/-- Nothing is counted where there is no result. -/
theorem quiet_of_eq (hm : t.metrics = s.metrics) (hr : t.results = s.results)
    (hi : t.inFlight = s.inFlight) (hq : t.requests = s.requests) : Quiet s t := by
  refine ⟨hi, hq, by rw [hm], by rw [hm], fun h => ⟨?_, ?_, ?_⟩⟩
  · rw [hm, hr, h.nodes]
  · rw [hm, hr, h.leaves]
  · rw [hm, hr, h.cacheHits]

theorem quiet_refl (s : TreeState) : Quiet s s := quiet_of_eq rfl rfl rfl rfl

theorem quiet_exceed (s : TreeState) (c : Ceiling) (line : Log.Line) : Quiet s (s.exceed c line) := by
  unfold exceed
  split <;> exact quiet_of_eq rfl rfl rfl rfl

theorem quiet_branch (s : TreeState) (parent : List String) (children : List Visit) :
    Quiet s (s.branch parent children) := by
  unfold branch
  dsimp only
  split <;> exact quiet_of_eq rfl rfl rfl rfl

/-- **A result is counted when it is kept.** -/
theorem quiet_record (s : TreeState) (r : NodeResult) : Quiet s (s.record r) := by
  have hkeep : Quiet s { s with
      results := s.results ++ [r], metrics := s.metrics.countNode r.isLeaf r.cacheHit } :=
    ⟨rfl, rfl, rfl, rfl, fun h => {
      nodes := by simp [Metrics.countNode, h.nodes]
      leaves := by simp [Metrics.countNode, h.leaves, List.countP_cons]
      cacheHits := by simp [Metrics.countNode, h.cacheHits, List.countP_cons] }⟩
  exact hkeep.trans (quiet_branch _ _ _)

theorem quiet_notice (s : TreeState) (node : List String) : Quiet s (s.notice node) := by
  unfold notice
  split
  · exact quiet_refl s
  · dsimp only
    split <;> exact quiet_of_eq rfl rfl rfl rfl

theorem quiet_conclude (s : TreeState) (d : Draft) (o : Outcome) : Quiet s (s.conclude p d o) := by
  unfold conclude
  split
  · exact quiet_of_eq rfl rfl rfl rfl
  · next store _ lines _ =>
    have hstore : Quiet s (({ s with store }).tell lines) := quiet_of_eq rfl rfl rfl rfl
    exact hstore.trans (quiet_record _ _)

theorem quiet_prepareNode (s : TreeState) (v : Visit) (d : Difference) :
    Quiet s (s.prepareNode p v d).1 := by
  unfold prepareNode
  split <;> exact quiet_of_eq rfl rfl rfl rfl

theorem quiet_keepLeaf (s : TreeState) (v : Visit) (d : Difference) : Quiet s (s.keepLeaf p v d) := by
  have hp := quiet_prepareNode (p := p) s v d
  unfold keepLeaf
  split
  · next h => rwa [h] at hp
  · next h =>
    rw [h] at hp
    exact hp.trans (quiet_conclude _ _ _)

theorem quiet_ask (s : TreeState) (v : Visit) (d : Difference) : Quiet s (s.ask p v d) := by
  have hc : Quiet s (s.checkCalls p) := by
    unfold checkCalls
    split
    · exact quiet_exceed _ _ _
    · exact quiet_refl s
  unfold ask
  dsimp only
  split
  · exact hc.trans (quiet_of_eq rfl rfl rfl rfl)
  · have hp := quiet_prepareNode (p := p) { s.checkCalls p with calls := (s.checkCalls p).calls + 1 } v d
    have hcalls : Quiet s { s.checkCalls p with calls := (s.checkCalls p).calls + 1 } :=
      hc.trans (quiet_of_eq rfl rfl rfl rfl)
    split
    · next h =>
      rw [h] at hp
      exact hcalls.trans hp
    · next h =>
      rw [h] at hp
      exact (hcalls.trans hp).trans (quiet_of_eq rfl rfl rfl rfl)

theorem quiet_compile (s : TreeState) (v : Visit) : Quiet s (s.compile p v) := by
  unfold compile
  split
  · exact quiet_of_eq rfl rfl rfl rfl
  · next d lines _ =>
    have htell : Quiet s (s.tell lines) := quiet_of_eq rfl rfl rfl rfl
    split
    · exact htell.trans (quiet_record _ _)
    · exact htell.trans (quiet_keepLeaf _ _ _)
    · exact htell.trans (quiet_ask _ _ _)

theorem quiet_visit (s : TreeState) (v : Visit) : Quiet s (s.visit p v) := by
  have hc : Quiet s (s.checkNodes p) := by
    unfold checkNodes
    split
    · exact quiet_exceed _ _ _
    · exact quiet_refl s
  unfold visit
  dsimp only
  split
  · exact hc.trans (quiet_of_eq rfl rfl rfl rfl)
  · have hvisited : Quiet s { s.checkNodes p with visited := (s.checkNodes p).visited + 1 } :=
      hc.trans (quiet_of_eq rfl rfl rfl rfl)
    exact hvisited.trans (quiet_compile _ _)

/-- **No task sends a call or takes a reply.** -/
theorem quiet_start (s : TreeState) (task : Task) : Quiet s (s.start p task) := by
  cases task with
  | visit v => exact quiet_visit s v
  | notice node => exact quiet_notice s node
  | resume family => exact quiet_of_eq rfl rfl rfl rfl

/-- What a compilation has counted after some replies. -/
structure Tallied (replies : List (Request × Except Failure Expansion)) (s : TreeState) : Prop where
  nodes : s.CountsNodes
  calls : s.metrics.Tallies "compile" (replies.map Prod.snd)
  requests : s.requests.Perm (replies.map Prod.fst ++ s.inFlight.map (·.visit.request))

theorem Tallied.quiet {replies : List (Request × Except Failure Expansion)} (h : s.Tallied replies)
    (hq : Quiet s t) : t.Tallied replies where
  nodes := hq.nodes h.nodes
  calls := h.calls.of_eq hq.latencies hq.failures
  requests := by
    rw [hq.inFlight, hq.requests]
    exact h.requests

theorem Tallied.receive {replies : List (Request × Except Failure Expansion)} (h : s.Tallied replies)
    {i : Nat} {d : Draft} (hd : s.inFlight[i]? = some d) (reply : Except Failure Expansion) :
    ({ s with inFlight := s.inFlight.eraseIdx i }.receive p d reply).Tallied
      (replies ++ [(d.visit.request, reply)]) := by
  obtain ⟨before, after, hi, he⟩ := exists_split hd
  have hcounted (failed : Bool) (hf : failed = !reply.isOk) :
      ({ s with
        inFlight := s.inFlight.eraseIdx i
        metrics := s.metrics.countCall "compile" 0 failed }.tell
          [Metrics.callLine p.provider "compile" d.visit.path failed]).Tallied
        (replies ++ [(d.visit.request, reply)]) := by
    refine ⟨⟨h.nodes.nodes, h.nodes.leaves, h.nodes.cacheHits⟩, ?_, ?_⟩
    · rw [List.map_append, hf]
      exact h.calls.countCall 0 reply
    · refine h.requests.trans ?_
      rw [tell, he, hi]
      simp only [List.map_append, List.map_cons, List.map_nil, List.append_assoc, List.singleton_append]
      exact List.perm_middle.append_left _
  exact (hcounted _ (by cases reply <;> rfl)).quiet (quiet_conclude _ _ _)

/-- **A move changes metrics and results together.** -/
theorem Tallied.step {replies : List (Request × Except Failure Expansion)} (h : s.Tallied replies)
    (m : Move) : (s.step p m).Tallied (replies ++ m.taken s) := by
  cases m with
  | start i =>
    rw [Move.taken, List.append_nil, TreeState.step]
    split
    · have hready : Quiet s { s with ready := s.ready.eraseIdx i } := quiet_of_eq rfl rfl rfl rfl
      exact h.quiet (hready.trans (quiet_start _ _))
    · exact h
  | grant i =>
    rw [Move.taken, List.append_nil, TreeState.step]
    split
    · split
      · refine ⟨⟨h.nodes.nodes, h.nodes.leaves, h.nodes.cacheHits⟩, h.calls.of_eq rfl rfl, ?_⟩
        simp only [send, List.map_append, ← List.append_assoc]
        exact h.requests.append_right _
      · exact h
    · exact h
  | finish i reply =>
    rw [Move.taken, TreeState.step]
    split
    · next d hd =>
      rw [hd]
      exact h.receive hd reply
    · next hd =>
      rw [hd]
      simpa using h

/-- **So does a run.** -/
theorem Tallied.run {replies : List (Request × Except Failure Expansion)} (h : s.Tallied replies)
    (moves : List Move) : (s.run p moves).Tallied (replies ++ s.taken p moves) := by
  induction moves generalizing s replies with
  | nil =>
    rw [taken, List.append_nil]
    exact h
  | cons m moves ih =>
    rw [taken, ← List.append_assoc, run_cons]
    exact ih (h.step m)

theorem tallied_initial (store : Store) (root : Spec.Document) {metrics : Metrics}
    (h : metrics.IsFresh) : (initial store root metrics).Tallied [] where
  nodes := ⟨h.nodes, h.leaves, h.cacheHits⟩
  calls := h.tallies "compile"
  requests := .refl _

theorem taken_of_next? {pace : Pace} {provider : Request → Except Failure Expansion} {m : Move}
    (h : s.next? p pace provider = some m) : ∀ x ∈ m.taken s, x.2 = provider x.1 := by
  have hfinish (h : s.finish? provider = some m) : ∀ x ∈ m.taken s, x.2 = provider x.1 := by
    obtain ⟨d, hd, rfl⟩ := Option.map_eq_some_iff.1 h
    rw [List.head?_eq_getElem?] at hd
    simp [Move.taken, hd]
  have hgrant (h : s.grant? p = some m) : ∀ x ∈ m.taken s, x.2 = provider x.1 := by
    cases (Option.ite_none_right_eq_some.1 h).2
    nofun
  have hstart (h : s.start? = some m) : ∀ x ∈ m.taken s, x.2 = provider x.1 := by
    obtain ⟨_, -, rfl⟩ := Option.map_eq_some_iff.1 h
    nofun
  cases pace <;> simp only [next?, Option.or_eq_some_iff] at h
  · exact h.elim hfinish fun h => h.2.elim hgrant fun h => hstart h.2
  · exact h.elim hgrant fun h => h.2.elim hstart fun h => hfinish h.2

/-- A compilation in the order of a pace is a run, whose replies are the provider's. -/
theorem exists_taken_complete (p : TreePolicy) (pace : Pace)
    (provider : Request → Except Failure Expansion) (s : TreeState) :
    ∃ moves, s.complete p pace provider = s.run p moves ∧ (s.run p moves).isDone = true
      ∧ ∀ x ∈ s.taken p moves, x.2 = provider x.1 := by
  fun_induction complete p pace provider s with
  | case1 s h => exact ⟨[], rfl, isDone_of_next? h, fun x hx => absurd hx List.not_mem_nil⟩
  | case2 s m h ih =>
    obtain ⟨moves, hm, hd, ht⟩ := ih
    refine ⟨m :: moves, hm, hd, fun x hx => ?_⟩
    exact (List.mem_append.1 hx).elim (taken_of_next? h x) (ht x)

end TreeState

/-- A report tells what metrics have counted, after some requests and replies. -/
structure TreeReport.AgreesWith (r : TreeReport) (m : Metrics) (requests : List Request)
    (replies : List (Request × Except Failure Expansion)) : Prop where
  nodes : m.nodes = r.nodes.length
  leaves : m.leaves = r.leafCount
  cacheHits : m.cacheHits = r.cacheHits
  calls : m.calls "compile" = r.calls
  sent : r.calls = requests.length
  /-- Each call has one reply. -/
  answered : (replies.map Prod.fst).Perm requests
  failures : m.failures = Metrics.failed (replies.map Prod.snd)

theorem TreeState.Tallied.agreesWith {p : TreePolicy} {s : TreeState}
    {replies : List (Request × Except Failure Expansion)} (h : s.Tallied replies)
    (hs : s.census.Sound p) (hd : s.isDone = true) :
    s.report.AgreesWith s.metrics s.requests replies := by
  obtain ⟨-, hw, hi⟩ := TreeState.isDone_iff.1 hd
  have hp := h.requests
  rw [hi, List.map_nil, List.append_nil] at hp
  have hcalls : s.calls = s.requests.length + s.waiting.length := hs.counted.calls
  rw [hw, List.length_nil, Nat.add_zero] at hcalls
  refine ⟨h.nodes.nodes, h.nodes.leaves, h.nodes.cacheHits, ?_, hcalls, hp.symm, h.calls.failures⟩
  rw [h.calls.calls, List.length_map, ← List.length_map (f := Prod.fst), ← hp.length_eq]
  exact hcalls.symm

theorem TreeReport.AgreesWith.of_provider {r : TreeReport} {m : Metrics} {requests : List Request}
    {replies : List (Request × Except Failure Expansion)}
    {provider : Request → Except Failure Expansion} (h : r.AgreesWith m requests replies)
    (hp : ∀ x ∈ replies, x.2 = provider x.1) :
    r.AgreesWith m requests (requests.map fun q => (q, provider q)) :=
  ⟨h.nodes, h.leaves, h.cacheHits, h.calls, h.sent, .of_eq (by simp [Function.comp_def]),
    h.failures.trans (Metrics.answered_of_forall h.answered hp)⟩

/-- **A compilation counts what it reports**, whatever the replies and the order of the moves. -/
theorem TreeState.agreesWith_run {p : TreePolicy} {store : Store} {metrics : Metrics}
    (hm : metrics.IsFresh) (h : (store.makeDirectories p.directory).2 = none)
    (root : Spec.Document) (moves : List Move) :
    let start := initial (store.makeDirectories p.directory).1 root metrics
    let s := start.run p moves
    s.isDone = true → s.report.AgreesWith s.metrics s.requests (start.taken p moves) :=
  fun hd => ((tallied_initial _ root hm).run moves).agreesWith
    (sound_run (Store.noZero_of_makeDirectories h) _ root metrics moves) hd

theorem agreesWith_compileTree {p : TreePolicy} {store : Store} {root : Spec.Document}
    {metrics : Metrics} {pace : Pace} {provider : Request → Except Failure Expansion} {s : TreeState}
    {r : TreeReport} (hm : metrics.IsFresh)
    (h : compileTree p store root metrics pace provider = (s, .ok r)) :
    r.AgreesWith s.metrics s.requests (s.requests.map fun q => (q, provider q)) := by
  unfold compileTree at h
  split at h
  · cases h
  next made hmade =>
  have hnone : (store.makeDirectories p.directory).2 = none := by rw [hmade]
  have hmade : made = (store.makeDirectories p.directory).1 := by rw [hmade]
  obtain ⟨moves, hrun, hdone, hreplies⟩ := TreeState.exists_taken_complete p pace provider
    (.initial made root metrics)
  dsimp only at h
  split at h
  · cases h
  · cases h
    rw [hrun]
    subst hmade
    exact (TreeState.agreesWith_run hm hnone root moves hdone).of_provider hreplies

/-! ## The least compilation, counted -/

open TreeState

section

variable {p : TreePolicy} {pace : Pace} {provider : Request → Except Failure Expansion} {s : TreeState}

theorem complete_of_next? {m : Move} (h : s.next? p pace provider = some m) :
    s.complete p pace provider = (s.step p m).complete p pace provider := by
  rw [complete]
  split
  · next hn => cases hn.symm.trans h
  · next hn =>
    cases hn.symm.trans h
    rfl

theorem complete_of_isDone (h : s.isDone = true) : s.complete p pace provider = s := by
  obtain ⟨hr, hw, hi⟩ := isDone_iff.1 h
  have hn : s.next? p pace provider = none := by
    cases pace <;> simp [next?, finish?, grant?, start?, hr, hw, hi]
  rw [complete]
  split
  · rfl
  · next hm => cases hn.symm.trans hm

theorem next?_of_ready {task : Task} (hr : s.ready = [task]) (hw : s.waiting = [])
    (hi : s.inFlight = []) : s.next? p pace provider = some (.start 0) := by
  cases pace <;> simp [next?, finish?, grant?, start?, hr, hw, hi]

end

/-- In any pace, a root that is a plain leaf is compiled to the end. -/
theorem exists_compileTree_least (pace : Pace) (provider : Request → Except Failure Expansion) :
    ∃ s r, compileTree leastSession.policy .empty emptyRoot { run := "", phase := "" } pace provider
        = (s, .ok r) ∧ r.nodes.length = 1 := by
  obtain ⟨base, hs⟩ := vacant_empty.shelved
  let start : TreeState :=
    initial (Store.empty.makeDirectories ".").1 emptyRoot { run := "", phase := "" }
  obtain ⟨store, lines, d, d', q, hcompile, -, -, -, hd', -⟩ :=
    exists_compile_plain (p := leastSession.policy) (t := { start with ready := [], visited := 1 })
      (v := rootVisit emptyRoot) hs rfl nofun (hasParents_nil _) rfl
      ⟨by decide, fun _ hn => absurd hn List.not_mem_nil⟩ isPlainLeaf_emptyRoot
  obtain ⟨t, ht, hr, hw, hi, hfamilies, hfailures, hlength⟩ :
      ∃ t, start.step leastSession.policy (.start 0) = t ∧ t.ready = [.notice [rootName]]
        ∧ t.waiting = [] ∧ t.inFlight = [] ∧ t.families = [] ∧ t.failures = []
        ∧ t.results.length = 1 := by
    have hfirst := (step_root (by decide) { run := "", phase := "" }).trans hcompile
    have hd : (Draft.result d' .plain).ancestry = [rootName] := congrArg Visit.ancestry hd'
    rw [record, visitsBelow_of_isLeaf rfl, hd] at hfirst
    exact ⟨_, hfirst, rfl, rfl, rfl, rfl, rfl, rfl⟩
  have hcomplete : start.complete leastSession.policy pace provider = { t with ready := [] } := by
    have hdone : ({ t with ready := [] } : TreeState).isDone = true := isDone_iff.2 ⟨rfl, hw, hi⟩
    rw [complete_of_next? (next?_of_ready rfl rfl rfl), ht, complete_of_next? (next?_of_ready hr hw hi),
      step_notice hr hfamilies, complete_of_isDone hdone]
  have hmake : Store.empty.makeDirectories leastSession.policy.directory
      = ((Store.empty.makeDirectories ".").1, none) := Prod.ext rfl (by decide)
  have hroot : ({ t with ready := [] } : TreeState).rootFailure? = none := by
    rw [rootFailure?]
    simp only [hfailures, List.findSome?_nil]
  refine ⟨({ t with ready := [] } : TreeState).close, ({ t with ready := [] } : TreeState).report, ?_,
    hlength⟩
  rw [compileTree, hmake]
  dsimp only
  rw [show initial _ _ _ = start from rfl, hcomplete, hroot]

end Plan

end SpecTree
