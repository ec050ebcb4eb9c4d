import SpecTree.Plan.Tree

/-!
# Runs to the end

`rank` falls with every move that is possible, so each run ends, whatever its order. `complete`
makes one such run, in the order that a pace of the provider calls for.
-/

namespace SpecTree.Plan

/-- When a provider replies. -/
inductive Pace where
  /-- At once. -/
  | prompt
  /-- When nothing else is left to do. -/
  | held
  deriving Repr, DecidableEq

namespace Move

/-- Whether a move has something to act on. -/
def IsPossible (p : TreePolicy) (s : TreeState) : Move → Prop
  | .start i => i < s.ready.length
  | .grant i => i < s.waiting.length ∧ s.inFlight.length < p.slots
  | .finish i _ => i < s.inFlight.length

end Move

/-- A visit may end in a notice; a parent that goes on ends in one. -/
def Task.weight : Task → Nat
  | .visit _ => 2
  | .notice _ => 1
  | .resume _ => 2

def weight : List Task → Nat
  | [] => 0
  | t :: rest => t.weight + weight rest

theorem weight_append (a b : List Task) : weight (a ++ b) = weight a + weight b := by
  induction a with
  | nil => simp [weight]
  | cons t rest ih => simp [weight, ih, Nat.add_assoc]

theorem weight_singleton (t : Task) : weight [t] = t.weight := by
  simp [weight]

theorem weight_eraseIdx {tasks : List Task} {i : Nat} (h : i < tasks.length) :
    weight (tasks.eraseIdx i) + tasks[i].weight = weight tasks := by
  induction tasks generalizing i with
  | nil => simp at h
  | cons t rest ih =>
    cases i with
    | zero => simp [weight, Nat.add_comm]
    | succ i =>
      have := ih (Nat.lt_of_succ_lt_succ h)
      simp only [weight, List.eraseIdx_cons_succ, List.getElem_cons_succ] at this ⊢
      omega

namespace TreeState

/-- What is left to do: ceilings to pass, nodes to admit, calls to make, and tasks. Each family is
still to be resumed. -/
def rank (p : TreePolicy) (s : TreeState) : Nat × Nat × Nat × Nat :=
  (if s.exceeded.isSome then 0 else 1, (p.maxNodes - s.visited).toNat,
    2 * s.waiting.length + s.inFlight.length, weight s.ready + 2 * s.families.length)

/-- Of two ranks that differ, the first difference decides. -/
def RankLt (a b : Nat × Nat × Nat × Nat) : Prop := WellFoundedRelation.rel a b

theorem rankLt_iff {a b c d a' b' c' d' : Nat} :
    RankLt (a, b, c, d) (a', b', c', d') ↔
      a < a' ∨ a = a' ∧ (b < b' ∨ b = b' ∧ (c < c' ∨ c = c' ∧ d < d')) := by
  simp [RankLt, WellFoundedRelation.rel, Prod.lex_def, InvImage]

/-- The parts of the state that a compiled node leaves alone. -/
structure SameQueues (s t : TreeState) : Prop where
  waiting : s.waiting = t.waiting
  inFlight : s.inFlight = t.inFlight
  visited : s.visited = t.visited
  exceeded : s.exceeded = t.exceeded

theorem SameQueues.trans {s t u : TreeState} (h : SameQueues s t) (k : SameQueues t u) :
    SameQueues s u :=
  ⟨h.waiting.trans k.waiting, h.inFlight.trans k.inFlight, h.visited.trans k.visited,
    h.exceeded.trans k.exceeded⟩

theorem sameQueues_branch (s : TreeState) (parent : List String) (children : List Visit) :
    SameQueues (s.branch parent children) s := by
  unfold branch
  dsimp only
  split <;> exact ⟨rfl, rfl, rfl, rfl⟩

theorem sameQueues_record (s : TreeState) (r : NodeResult) : SameQueues (s.record r) s :=
  (sameQueues_branch ..).trans ⟨rfl, rfl, rfl, rfl⟩

theorem sameQueues_conclude (s : TreeState) (p : TreePolicy) (d : Draft) (o : Outcome) :
    SameQueues (s.conclude p d o) s := by
  unfold conclude
  split
  · exact ⟨rfl, rfl, rfl, rfl⟩
  · exact (sameQueues_record ..).trans ⟨rfl, rfl, rfl, rfl⟩

theorem exceeded_exceed_isSome (s : TreeState) (c : Ceiling) (line : Log.Line) :
    (s.exceed c line).exceeded.isSome = true := by
  unfold exceed
  split
  · assumption
  · rfl

theorem sameQueues_prepareNode (s : TreeState) (p : TreePolicy) (v : Visit) (d : Difference) :
    SameQueues (s.prepareNode p v d).1 s := by
  unfold prepareNode
  split <;> exact ⟨rfl, rfl, rfl, rfl⟩

theorem sameQueues_keepLeaf (s : TreeState) (p : TreePolicy) (v : Visit) (d : Difference) :
    SameQueues (s.keepLeaf p v d) s := by
  have h := sameQueues_prepareNode s p v d
  unfold keepLeaf
  split <;> rename_i t ht <;> rw [ht] at h
  · exact h
  · exact (sameQueues_conclude ..).trans h

/-- Compiling an admitted node passes a ceiling or keeps the number of admitted nodes. -/
theorem exceeded_compile (s : TreeState) (p : TreePolicy) (v : Visit) :
    (s.compile p v).exceeded.isSome = true
      ∨ (s.compile p v).exceeded = s.exceeded ∧ (s.compile p v).visited = s.visited := by
  unfold compile
  split
  · exact .inr ⟨rfl, rfl⟩
  · rename_i d lines _
    split
    · have h := sameQueues_record (s.tell lines) (v.reuse ‹_› d.reason)
      exact .inr ⟨h.exceeded, h.visited⟩
    · have h := sameQueues_keepLeaf (s.tell lines) p v d
      exact .inr ⟨h.exceeded, h.visited⟩
    · unfold ask checkCalls
      by_cases hc : p.maxCalls ≤ (s.tell lines).calls
      · simp only [if_pos hc, exceeded_exceed_isSome, if_true]
        exact .inl (exceeded_exceed_isSome ..)
      · simp only [if_neg hc]
        split
        · rename_i h
          exact .inl h
        · have h :=
            sameQueues_prepareNode { s.tell lines with calls := (s.tell lines).calls + 1 } p v d
          split <;> rename_i t ht <;> rw [ht] at h <;> exact .inr ⟨h.exceeded, h.visited⟩

/-- Where only tasks change, they decide. -/
theorem rankLt_of_tasks {p : TreePolicy} {s t : TreeState} (he : s.exceeded = t.exceeded)
    (hv : s.visited = t.visited) (hw : s.waiting = t.waiting) (hf : s.inFlight = t.inFlight)
    (h : weight s.ready + 2 * s.families.length < weight t.ready + 2 * t.families.length) :
    RankLt (s.rank p) (t.rank p) := by
  simp only [rank, rankLt_iff, he, hv, hw, hf]
  exact .inr ⟨trivial, .inr ⟨trivial, .inr ⟨trivial, h⟩⟩⟩

/-- A visit passes a ceiling, admits a node, or leaves no more than a notice. -/
theorem rank_visit (p : TreePolicy) (s : TreeState) (v : Visit) (rest : List Task)
    (h : weight rest + 2 = weight s.ready) :
    RankLt (({ s with ready := rest }.visit p v).rank p) (s.rank p) := by
  simp only [rank, rankLt_iff]
  unfold visit checkNodes
  by_cases hn : p.maxNodes ≤ s.visited
  · simp only [if_pos hn, exceeded_exceed_isSome, if_true, skip, await]
    unfold exceed
    cases he : s.exceeded <;> simp [tell, weight_append, weight_singleton, Task.weight]
    omega
  · simp only [if_neg hn]
    cases he : s.exceeded with
    | some c =>
      simp [skip, await, weight_append, weight_singleton, Task.weight]
      omega
    | none =>
      rcases exceeded_compile { s with ready := rest, visited := s.visited + 1, exceeded := none } p v
        with hc | ⟨hc, hv⟩
      · simp [hc]
      · simp [hc, hv]
        omega

/-- A notice is taken; the last one of a family gives way to its parent. -/
theorem rank_notice (p : TreePolicy) (s : TreeState) (node : List String) (rest : List Task)
    (h : weight rest + 1 = weight s.ready) :
    RankLt (({ s with ready := rest }.notice node).rank p) (s.rank p) := by
  unfold notice
  split
  · exact rankLt_of_tasks rfl rfl rfl rfl (by dsimp only; omega)
  · rename_i family hf
    have hm := List.mem_of_find?_eq_some hf
    have hl := List.length_eraseP_of_mem hm (List.find?_some hf)
    have hp := List.length_pos_of_mem hm
    dsimp only at hl hp ⊢
    split
    · refine rankLt_of_tasks rfl rfl rfl rfl ?_
      simp only [await, weight_append, weight_singleton, Task.weight]
      omega
    · refine rankLt_of_tasks rfl rfl rfl rfl ?_
      simp only [List.length_cons]
      omega

theorem rank_start {p : TreePolicy} {s : TreeState} {i : Nat} (h : i < s.ready.length) :
    RankLt ((s.step p (.start i)).rank p) (s.rank p) := by
  have hw := weight_eraseIdx h
  simp only [step, List.getElem?_eq_getElem h]
  cases ht : s.ready[i] with
  | visit v => exact rank_visit p s v _ (by rw [← hw, ht]; rfl)
  | notice node => exact rank_notice p s node _ (by rw [← hw, ht]; rfl)
  | resume family =>
    rw [ht] at hw
    refine rankLt_of_tasks rfl rfl rfl rfl ?_
    simp only [start, resume, await, tell, weight_append, weight_singleton]
    simp only [Task.weight] at hw ⊢
    omega

theorem rank_grant {p : TreePolicy} {s : TreeState} {i : Nat} (h : i < s.waiting.length)
    (hs : s.inFlight.length < p.slots) :
    RankLt ((s.step p (.grant i)).rank p) (s.rank p) := by
  have hw := List.length_eraseIdx_of_lt h
  simp only [step, List.getElem?_eq_getElem h, if_pos hs, send, rank, rankLt_iff,
    List.length_append, List.length_singleton, hw]
  exact .inr ⟨trivial, .inr ⟨trivial, .inl (by omega)⟩⟩

theorem rank_finish {p : TreePolicy} {s : TreeState} {i : Nat} {reply : Except Failure Expansion}
    (h : i < s.inFlight.length) :
    RankLt ((s.step p (.finish i reply)).rank p) (s.rank p) := by
  have hf := List.length_eraseIdx_of_lt h
  simp only [step, List.getElem?_eq_getElem h, receive]
  simp only [rank, rankLt_iff, (sameQueues_conclude ..).exceeded, (sameQueues_conclude ..).visited,
    (sameQueues_conclude ..).waiting, (sameQueues_conclude ..).inFlight, tell, hf]
  exact .inr ⟨trivial, .inr ⟨trivial, .inl (by omega)⟩⟩

/-- Every possible move makes the rank smaller. -/
theorem rank_step {p : TreePolicy} {s : TreeState} {m : Move} (h : m.IsPossible p s) :
    RankLt ((s.step p m).rank p) (s.rank p) :=
  match m, h with
  | .start _, h => rank_start h
  | .grant _, h => rank_grant h.1 h.2
  | .finish _ _, h => rank_finish h

/-! ## One run -/

/-- A reply to the first call in flight. -/
def finish? (s : TreeState) (provider : Request → Except Failure Expansion) : Option Move :=
  s.inFlight.head?.map fun d => .finish 0 (provider d.visit.request)

/-- A slot for the first call that waits. -/
def grant? (s : TreeState) (p : TreePolicy) : Option Move :=
  if 0 < s.waiting.length ∧ s.inFlight.length < p.slots then some (.grant 0) else none

/-- A start of the first task. -/
def start? (s : TreeState) : Option Move := s.ready.head?.map fun _ => .start 0

/-- The next move of a run. -/
def next? (s : TreeState) (p : TreePolicy) (pace : Pace)
    (provider : Request → Except Failure Expansion) : Option Move :=
  match pace with
  | .prompt => (s.finish? provider).or ((s.grant? p).or s.start?)
  | .held => (s.grant? p).or (s.start?.or (s.finish? provider))

theorem isPossible_of_next? {p : TreePolicy} {pace : Pace}
    {provider : Request → Except Failure Expansion} {s : TreeState} {m : Move}
    (h : s.next? p pace provider = some m) : m.IsPossible p s := by
  have hf (h : s.finish? provider = some m) : m.IsPossible p s := by
    obtain ⟨d, hd, rfl⟩ := Option.map_eq_some_iff.1 h
    exact List.length_pos_of_mem (List.mem_of_mem_head? hd)
  have hg (h : s.grant? p = some m) : m.IsPossible p s := by
    obtain ⟨hw, h⟩ := Option.ite_none_right_eq_some.1 h
    exact Option.some.inj h ▸ hw
  have hs (h : s.start? = some m) : m.IsPossible p s := by
    obtain ⟨v, hv, rfl⟩ := Option.map_eq_some_iff.1 h
    exact List.length_pos_of_mem (List.mem_of_mem_head? hv)
  cases pace <;> simp only [next?, Option.or_eq_some_iff] at h
  · exact h.elim hf fun h => h.2.elim hg fun h => hs h.2
  · exact h.elim hg fun h => h.2.elim hs fun h => hf h.2

/-- Makes moves until nothing is left to do. -/
def complete (p : TreePolicy) (pace : Pace) (provider : Request → Except Failure Expansion)
    (s : TreeState) : TreeState :=
  match _h : s.next? p pace provider with
  | none => s
  | some m => complete p pace provider (s.step p m)
termination_by s.rank p
decreasing_by exact rank_step (isPossible_of_next? _h)

end TreeState

end SpecTree.Plan
