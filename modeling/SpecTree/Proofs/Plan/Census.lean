import Mathlib.Logic.Relation
import SpecTree.Plan.Schedule
import SpecTree.Proofs.Plan.Draft

/-!
# What a move can do

A census keeps of a compilation what has become of each node, and leaves out logs, metrics and how
the end of a node is told to its parent. `Census.Step` lists what can happen: a visit is refused,
lost, answered from a record, kept as a leaf, withdrawn or left waiting for a call; a call is
granted; a reply is taken.

1. The nodes that a compilation knows of have ancestries of usable names (`Census.Named`).
2. Every move does one of these things or changes nothing (`census_step`), and a run does them one
   after another (`census_run`).
3. `complete` makes a run that leaves nothing to do (`exists_run_complete`).
-/

namespace SpecTree.Plan

theorem TreePolicy.slots_pos (p : TreePolicy) : 0 < p.slots :=
  Nat.lt_of_lt_of_le Nat.zero_lt_one (Nat.le_max_left 1 _)

/-! ## Census -/

/-- What has become of each node. -/
structure Census where
  store : Store
  /-- Visits that are ready. -/
  pending : List Visit
  waiting : List Draft
  inFlight : List Draft
  visited : Nat
  calls : Nat
  exceeded : Option Ceiling
  results : List NodeResult
  skipped : List String
  failures : List (Visit × FileError)
  requests : List Request

def Task.visit? : Task → Option Visit
  | .visit v => some v
  | .notice _ | .resume _ => none

def TreeState.census (s : TreeState) : Census where
  store := s.store
  pending := s.ready.filterMap Task.visit?
  waiting := s.waiting
  inFlight := s.inFlight
  visited := s.visited
  calls := s.calls
  exceeded := s.exceeded
  results := s.results
  skipped := s.skipped
  failures := s.failures
  requests := s.requests

namespace Census

/-- A node may be admitted. -/
def Admits (c : Census) (p : TreePolicy) : Prop := c.exceeded = none ∧ c.visited < p.maxNodes

/-- With the result of a node, whose children are to be visited. -/
def settle (c : Census) (r : NodeResult) : Census :=
  { c with results := c.results ++ [r], pending := c.pending ++ TreeState.visitsBelow r }

/-- What can happen in one move, where only some replies may come. -/
inductive Step (p : TreePolicy) (mayReply : Request → Except Failure Expansion → Prop) :
    Census → Census → Prop where
  | refuse {c : Census} {before after : List Visit} {v : Visit} :
      c.pending = before ++ v :: after → ¬ c.Admits p →
      Step p mayReply c { c with
        pending := before ++ after
        exceeded := c.exceeded.or (some .nodes)
        skipped := c.skipped ++ [v.path] }
  | lose {c : Census} {before after : List Visit} {v : Visit} {e : FileError} :
      c.pending = before ++ v :: after → c.Admits p →
      examine p.node c.store p.directory v = .error e →
      Step p mayReply c { c with
        pending := before ++ after
        visited := c.visited + 1
        failures := c.failures ++ [(v, e)] }
  | reuse {c : Census} {before after : List Visit} {v : Visit} {d : Difference} {r : Record}
      {lines : List Log.Line} :
      c.pending = before ++ v :: after → c.Admits p →
      examine p.node c.store p.directory v = .ok (d, lines) → judge p.node v d = .reuse r →
      Step p mayReply c
        ({ c with pending := before ++ after, visited := c.visited + 1 }.settle (v.reuse r d.reason))
  | keep {c : Census} {before after : List Visit} {v : Visit} {d : Difference} {draft : Draft}
      {store store' : Store} {result : NodeResult} {lines lines' : List Log.Line} :
      c.pending = before ++ v :: after → c.Admits p →
      examine p.node c.store p.directory v = .ok (d, lines) → judge p.node v d = .keepLeaf →
      prepare c.store p.directory v d = .ok (store, draft) →
      { draft with lines := [] }.finish p.node.stamp store p.directory .plain
        = .ok (store', result, lines') →
      Step p mayReply c
        ({ c with store := store', pending := before ++ after, visited := c.visited + 1 }.settle
          result)
  | withdraw {c : Census} {before after : List Visit} {v : Visit} {d : Difference}
      {lines : List Log.Line} :
      c.pending = before ++ v :: after → c.Admits p →
      examine p.node c.store p.directory v = .ok (d, lines) → judge p.node v d = .ask →
      p.maxCalls ≤ c.calls →
      Step p mayReply c { c with
        pending := before ++ after
        exceeded := some .calls
        skipped := c.skipped ++ [v.path] }
  | wait {c : Census} {before after : List Visit} {v : Visit} {d : Difference} {draft : Draft}
      {store : Store} {lines : List Log.Line} :
      c.pending = before ++ v :: after → c.Admits p →
      examine p.node c.store p.directory v = .ok (d, lines) → judge p.node v d = .ask →
      c.calls < p.maxCalls → prepare c.store p.directory v d = .ok (store, draft) →
      Step p mayReply c { c with
        store
        pending := before ++ after
        waiting := c.waiting ++ [{ draft with lines := [] }]
        visited := c.visited + 1
        calls := c.calls + 1 }
  | grant {c : Census} {before after : List Draft} {d : Draft} :
      c.waiting = before ++ d :: after → c.inFlight.length < p.slots →
      Step p mayReply c { c with
        waiting := before ++ after
        inFlight := c.inFlight ++ [d]
        requests := c.requests ++ [d.visit.request] }
  | finish {c : Census} {before after : List Draft} {d : Draft} {reply : Except Failure Expansion}
      {store : Store} {result : NodeResult} {lines : List Log.Line} :
      c.inFlight = before ++ d :: after → mayReply d.visit.request reply →
      d.finish p.node.stamp c.store p.directory (.ofReply reply) = .ok (store, result, lines) →
      Step p mayReply c ({ c with store, inFlight := before ++ after }.settle result)

end Census

/-! ## Parts of a move -/

namespace TreeState

variable {s : TreeState} {p : TreePolicy} {v : Visit}

theorem census_tell (s : TreeState) (lines : List Log.Line) : (s.tell lines).census = s.census := rfl

theorem census_await {task : Task} (h : task.visit? = none) (s : TreeState) :
    (s.await task).census = s.census := by
  simp [await, census, h]

theorem census_branch (s : TreeState) (parent : List String) (children : List Visit) :
    (s.branch parent children).census
      = { s.census with pending := s.census.pending ++ children } := by
  unfold branch
  dsimp only
  split
  · next h =>
    rw [census_await rfl, List.isEmpty_iff.1 h, List.append_nil]
  · have hc : (children.map Task.visit).filterMap Task.visit? = children := by
      rw [List.filterMap_map]
      exact List.filterMap_some
    simp only [census, List.filterMap_append, hc]

theorem census_record (s : TreeState) (r : NodeResult) :
    (s.record r).census = s.census.settle r := by
  rw [record, census_branch]
  rfl

theorem census_abandon (s : TreeState) (v : Visit) (e : FileError) :
    (s.abandon v e).census = { s.census with failures := s.failures ++ [(v, e)] } := by
  rw [abandon, census_await rfl]
  rfl

theorem census_skip (s : TreeState) (v : Visit) :
    (s.skip v).census = { s.census with skipped := s.skipped ++ [v.path] } := by
  rw [skip, census_await rfl]
  rfl

theorem census_exceed (s : TreeState) (c : Ceiling) (line : Log.Line) :
    (s.exceed c line).census = { s.census with exceeded := s.exceeded.or (some c) } := by
  unfold exceed
  split
  · next h =>
    obtain ⟨x, hx⟩ := Option.isSome_iff_exists.1 h
    simp [census, hx]
  · next h =>
    rw [Option.not_isSome_iff_eq_none] at h
    simp [census, tell, h]

theorem census_notice (s : TreeState) (node : List String) : (s.notice node).census = s.census := by
  unfold notice
  split
  · rfl
  · dsimp only
    split
    · rw [census_await rfl]
      rfl
    · rfl

theorem census_resume (s : TreeState) (family : Family) : (s.resume family).census = s.census := by
  rw [resume, census_await rfl]
  rfl

theorem conclude_of_finish {d : Draft} {o : Outcome} {store : Store} {result : NodeResult}
    {lines : List Log.Line}
    (h : d.finish p.node.stamp s.store p.directory o = .ok (store, result, lines)) :
    s.conclude p d o = (({ s with store }).tell lines).record result := by
  rw [conclude, h]

theorem census_conclude {d : Draft} {o : Outcome} {store : Store} {result : NodeResult}
    {lines : List Log.Line}
    (h : d.finish p.node.stamp s.store p.directory o = .ok (store, result, lines)) :
    (s.conclude p d o).census = { s.census with store }.settle result := by
  rw [conclude_of_finish h]
  exact census_record _ _

theorem prepareNode_of_prepare {d : Difference} {store : Store} {draft : Draft}
    (h : prepare s.store p.directory v d = .ok (store, draft)) :
    s.prepareNode p v d = (({ s with store }).tell draft.lines, some { draft with lines := [] }) := by
  unfold prepareNode
  generalize prepare s.store p.directory v d = x at h
  subst h
  rfl

theorem keepLeaf_of_finish {d : Difference} {draft : Draft} {store store' : Store}
    {result : NodeResult} {lines : List Log.Line}
    (hd : prepare s.store p.directory v d = .ok (store, draft))
    (hf : { draft with lines := [] }.finish p.node.stamp store p.directory .plain
      = .ok (store', result, lines)) :
    s.keepLeaf p v d
      = (({ ({ s with store }).tell draft.lines with store := store' }).tell lines).record result := by
  have hn := prepareNode_of_prepare hd
  unfold keepLeaf
  generalize s.prepareNode p v d = x at hn
  subst hn
  exact conclude_of_finish hf

theorem census_keepLeaf {d : Difference} {draft : Draft} {store store' : Store}
    {result : NodeResult} {lines : List Log.Line}
    (hd : prepare s.store p.directory v d = .ok (store, draft))
    (hf : { draft with lines := [] }.finish p.node.stamp store p.directory .plain
      = .ok (store', result, lines)) :
    (s.keepLeaf p v d).census = { s.census with store := store' }.settle result := by
  rw [keepLeaf_of_finish hd hf]
  exact census_record _ _

theorem census_ask_of_le {d : Difference} (hex : s.exceeded = none) (hc : p.maxCalls ≤ s.calls) :
    (s.ask p v d).census = { s.census with
      exceeded := some .calls
      visited := s.visited - 1
      skipped := s.skipped ++ [v.path] } := by
  have hnot : ¬ s.exceeded.isSome = true := by simp [hex]
  have hask : s.ask p v d = (({ s with exceeded := some .calls }).tell
      [limitLine "Provider call" p.maxCalls]).withdraw v := by
    rw [ask, checkCalls, if_pos hc, exceed, if_neg hnot]
    exact if_pos rfl
  rw [hask, withdraw, census_skip]
  rfl

theorem ask_of_lt {d : Difference} {store : Store} {draft : Draft} (hex : s.exceeded = none)
    (hc : s.calls < p.maxCalls) (hd : prepare s.store p.directory v d = .ok (store, draft)) :
    s.ask p v d = { ({ s with calls := s.calls + 1, store }).tell draft.lines with
      waiting := s.waiting ++ [{ draft with lines := [] }] } := by
  have hnot : ¬ s.exceeded.isSome = true := by simp [hex]
  rw [ask, checkCalls, if_neg (Int.not_le.2 hc)]
  dsimp only
  rw [if_neg hnot, prepareNode_of_prepare (s := { s with calls := s.calls + 1 }) hd]
  rfl

theorem census_ask_of_lt {d : Difference} {store : Store} {draft : Draft} (hex : s.exceeded = none)
    (hc : s.calls < p.maxCalls) (hd : prepare s.store p.directory v d = .ok (store, draft)) :
    (s.ask p v d).census = { s.census with
      store
      waiting := s.waiting ++ [{ draft with lines := [] }]
      calls := s.calls + 1 } := by
  rw [ask_of_lt hex hc hd]
  rfl

/-! ## Moves -/

section

variable {mayReply : Request → Except Failure Expansion → Prop} {before after : List Visit}

/-- Compiling an admitted node. -/
theorem step_compile (h0 : p.directory.contains '\x00' = false) (hv : IsAncestry v.ancestry)
    {c : Census} (hp : c.pending = before ++ v :: after)
    (hc : s.census = { c with pending := before ++ after, visited := c.visited + 1 })
    (ha : c.Admits p) : Census.Step p mayReply c (s.compile p v).census := by
  have hstore : s.store = c.store := congrArg Census.store hc
  have hcalls : s.calls = c.calls := congrArg Census.calls hc
  have hskip : s.skipped = c.skipped := congrArg Census.skipped hc
  have hvis : s.visited = c.visited + 1 := congrArg Census.visited hc
  have hwait : s.waiting = c.waiting := congrArg Census.waiting hc
  have hex : s.exceeded = none := (congrArg Census.exceeded hc).trans ha.1
  unfold compile
  rw [hstore]
  split
  · next e he =>
    have hs : Census.Step p mayReply c _ := .lose hp ha he
    rw [census_abandon, hc]
    rwa [← show s.failures = c.failures from congrArg Census.failures hc] at hs
  · next d lines he =>
    split
    · next r hj =>
      rw [census_record, census_tell, hc]
      exact .reuse hp ha he hj
    · next hj =>
      obtain ⟨store, draft, hd, hdv⟩ := exists_prepare h0 hv c.store d
      obtain ⟨store', d', lines', hf, -⟩ := exists_finish h0
        (d := { draft with lines := [] }) (by rw [hdv]; exact hv) store p.node.stamp .plain
      rw [census_keepLeaf (s := s.tell lines) (hstore ▸ hd) hf, census_tell, hc]
      exact .keep hp ha he hj hd hf
    · next hj =>
      by_cases hle : p.maxCalls ≤ c.calls
      · rw [census_ask_of_le (s := s.tell lines) hex (hcalls ▸ hle), census_tell, hc]
        have hs : Census.Step p mayReply c _ := .withdraw hp ha he hj hle
        have h1 : (s.tell lines).visited - 1 = c.visited := by
          show s.visited - 1 = c.visited
          rw [hvis, Nat.add_sub_cancel]
        rw [h1, show (s.tell lines).skipped = c.skipped from hskip]
        exact hs
      · obtain ⟨store, draft, hd, -⟩ := exists_prepare h0 hv c.store d
        have hlt := Int.not_le.1 hle
        rw [census_ask_of_lt (s := s.tell lines) hex (hcalls ▸ hlt) (hstore ▸ hd), census_tell, hc]
        have hs : Census.Step p mayReply c _ := .wait hp ha he hj hlt hd
        rw [show (s.tell lines).waiting = c.waiting from hwait,
          show (s.tell lines).calls = c.calls from hcalls]
        exact hs

theorem visit_of_lt (hex : s.exceeded = none) (hn : s.visited < p.maxNodes) :
    s.visit p v = { s with visited := s.visited + 1 }.compile p v := by
  have hcheck : s.checkNodes p = s := by rw [checkNodes, if_neg (Int.not_le.2 hn)]
  have hnot : ¬ s.exceeded.isSome = true := by simp [hex]
  rw [visit, hcheck, if_neg hnot]

/-- A visit admits its node and compiles it, or refuses it. -/
theorem step_visit (h0 : p.directory.contains '\x00' = false) (hv : IsAncestry v.ancestry)
    {c : Census} (hp : c.pending = before ++ v :: after)
    (hc : s.census = { c with pending := before ++ after }) :
    Census.Step p mayReply c (s.visit p v).census := by
  have hvis : s.visited = c.visited := congrArg Census.visited hc
  have hex : s.exceeded = c.exceeded := congrArg Census.exceeded hc
  have hskip : s.skipped = c.skipped := congrArg Census.skipped hc
  by_cases ha : c.Admits p
  · rw [visit_of_lt (hex.trans ha.1) (hvis ▸ ha.2)]
    refine step_compile h0 hv hp ?_ ha
    show { s.census with visited := s.visited + 1 } = _
    rw [hc, hvis]
  · have hcheck : (s.checkNodes p).census
        = { s.census with exceeded := s.exceeded.or (some .nodes) } := by
      unfold checkNodes
      split
      · exact census_exceed s .nodes _
      · next hle =>
        obtain ⟨x, hx⟩ : ∃ x, s.exceeded = some x := by
          refine Option.ne_none_iff_exists'.1 fun hn => ha ⟨hex ▸ hn, ?_⟩
          rw [← hvis]
          exact Int.not_le.1 hle
        rw [hx, Option.some_or, ← hx]
        rfl
    have hsome : (s.checkNodes p).exceeded.isSome = true := by
      rw [show (s.checkNodes p).exceeded = s.exceeded.or (some .nodes) from
        congrArg Census.exceeded hcheck]
      simp
    have hskip' : (s.checkNodes p).skipped = c.skipped :=
      (congrArg Census.skipped hcheck).trans hskip
    rw [visit, if_pos hsome, census_skip, hcheck, hskip', hc, hex]
    exact .refuse hp ha

end

end TreeState

/-! ## Visits of children -/

namespace TreeState

variable {r : NodeResult} {v : Visit}

theorem visitsBelow_of_isLeaf (h : r.isLeaf = true) : visitsBelow r = [] := if_pos h

theorem ancestries_visitsBelow (hr : IsAncestry r.ancestry) (h : r.isLeaf = false) :
    (visitsBelow r).map Visit.ancestry
      = (distinctNames (r.children.map ChildSpec.name)).map (r.ancestry ++ [·]) := by
  have hlen : (distinctNames (r.children.map ChildSpec.name)).length ≤ r.children.length := by
    rw [length_distinctNames, List.length_map]
  rw [visitsBelow, h]
  simp only [Bool.false_eq_true, if_false, List.map_map]
  conv_rhs => rw [← List.map_snd_zip hlen, List.map_map]
  exact List.map_congr_left fun x _ => childAncestry_of_isAncestry hr x.2

/-- A child's ancestry adds one of the names that its parent gives. -/
theorem exists_name_of_mem_visitsBelow (hr : IsAncestry r.ancestry) (hv : v ∈ visitsBelow r) :
    r.isLeaf = false ∧ ∃ n ∈ distinctNames (r.children.map ChildSpec.name),
      v.ancestry = r.ancestry ++ [n] := by
  cases hl : r.isLeaf with
  | true =>
    rw [visitsBelow_of_isLeaf hl] at hv
    cases hv
  | false =>
    have hm := List.mem_map_of_mem (f := Visit.ancestry) hv
    rw [ancestries_visitsBelow hr hl] at hm
    obtain ⟨n, hn, he⟩ := List.mem_map.1 hm
    exact ⟨rfl, n, hn, he.symm⟩

theorem isAncestry_of_mem_visitsBelow (hr : IsAncestry r.ancestry) (hv : v ∈ visitsBelow r) :
    IsAncestry v.ancestry := by
  obtain ⟨-, n, hn, he⟩ := exists_name_of_mem_visitsBelow hr hv
  rw [he]
  exact isAncestry_child hr (isNodeName_of_mem hn)

end TreeState

/-! ## Usable names -/

theorem mem_split_iff {α : Type} {before after : List α} {a x : α} :
    x ∈ before ++ a :: after ↔ x ∈ before ++ after ∨ x = a := by
  rw [List.mem_append, List.mem_cons, List.mem_append, or_assoc, or_comm (a := x = a)]

theorem mem_split_of_mem {α : Type} {before after : List α} {a x : α} (h : x ∈ before ++ after) :
    x ∈ before ++ a :: after := mem_split_iff.2 (.inl h)

namespace Census

/-- The result of a node is told under the path of its ancestry. -/
structure IsFiled (r : NodeResult) : Prop where
  ancestry : IsAncestry r.ancestry
  path : r.nodePath = nodePath r.ancestry

/-- **Every node that a compilation knows of** has an ancestry of usable names. -/
structure Named (c : Census) : Prop where
  pending : ∀ v ∈ c.pending, IsAncestry v.ancestry
  waiting : ∀ d ∈ c.waiting, IsAncestry d.visit.ancestry
  inFlight : ∀ d ∈ c.inFlight, IsAncestry d.visit.ancestry
  results : ∀ r ∈ c.results, IsFiled r

variable {p : TreePolicy} {mayReply : Request → Except Failure Expansion → Prop} {c c' : Census}

theorem Named.settle (h : c.Named) {r : NodeResult} (hr : IsFiled r) : (c.settle r).Named where
  pending := List.forall_mem_append.2
    ⟨h.pending, fun _ hv => TreeState.isAncestry_of_mem_visitsBelow hr.ancestry hv⟩
  waiting := h.waiting
  inFlight := h.inFlight
  results := List.forall_mem_append.2 ⟨h.results, List.forall_mem_singleton.2 hr⟩

theorem isFiled_of_finish {directory stamp : String} {d : Draft} (hd : IsAncestry d.visit.ancestry) {s t : Store}
    {o : Outcome} {r : NodeResult} {lines : List Log.Line}
    (h : d.finish stamp s directory o = .ok (t, r, lines)) : IsFiled r := by
  obtain ⟨d', rfl, hv⟩ := result_of_finish h
  refine ⟨?_, rfl⟩
  show IsAncestry d'.visit.ancestry
  rwa [hv]

theorem forall_mem_split {α : Type} {P : α → Prop} {l before after : List α} {a : α}
    (hl : l = before ++ a :: after) (h : ∀ x ∈ l, P x) : P a ∧ ∀ x ∈ before ++ after, P x := by
  subst hl
  exact ⟨h a (mem_split_iff.2 (.inr rfl)), fun x hx => h x (mem_split_of_mem hx)⟩

/-- Usable names stay usable. -/
theorem Named.step (h : c.Named) (hs : Step p mayReply c c') : c'.Named := by
  cases hs with
  | refuse hp ha => exact { h with pending := (forall_mem_split hp h.pending).2 }
  | lose hp ha he => exact { h with pending := (forall_mem_split hp h.pending).2 }
  | withdraw hp ha he hj hc => exact { h with pending := (forall_mem_split hp h.pending).2 }
  | @reuse before after v d r lines hp ha he hj =>
    obtain ⟨hv, hrest⟩ := forall_mem_split hp h.pending
    have hc : Named { c with pending := before ++ after, visited := c.visited + 1 } :=
      ⟨hrest, h.waiting, h.inFlight, h.results⟩
    exact hc.settle ⟨hv, rfl⟩
  | @keep before after v d draft store store' result lines lines' hp ha he hj hd hf =>
    obtain ⟨hv, hrest⟩ := forall_mem_split hp h.pending
    have hc : Named
        { c with store := store', pending := before ++ after, visited := c.visited + 1 } :=
      ⟨hrest, h.waiting, h.inFlight, h.results⟩
    rw [← (prepare_eq_ok hd).2] at hv
    exact hc.settle (isFiled_of_finish (d := { draft with lines := [] }) hv hf)
  | wait hp ha he hj hc hd =>
    obtain ⟨hv, hrest⟩ := forall_mem_split hp h.pending
    rw [← (prepare_eq_ok hd).2] at hv
    exact { h with
      pending := hrest
      waiting := List.forall_mem_append.2 ⟨h.waiting, List.forall_mem_singleton.2 hv⟩ }
  | grant hw hn =>
    obtain ⟨hd, hrest⟩ := forall_mem_split hw h.waiting
    exact { h with
      waiting := hrest
      inFlight := List.forall_mem_append.2 ⟨h.inFlight, List.forall_mem_singleton.2 hd⟩ }
  | @finish before after d reply store result lines hi hr hf =>
    obtain ⟨hd, hrest⟩ := forall_mem_split hi h.inFlight
    have hc : Named { c with store, inFlight := before ++ after } :=
      ⟨h.pending, h.waiting, hrest, h.results⟩
    exact hc.settle (isFiled_of_finish hd hf)

end Census

/-! ## Runs -/

/-- A move that takes a reply takes one that may come. -/
def Move.Follows (mayReply : Request → Except Failure Expansion → Prop) (s : TreeState) : Move → Prop
  | .start _ | .grant _ => True
  | .finish i reply => ∀ d, s.inFlight[i]? = some d → mayReply d.visit.request reply

namespace TreeState

variable {p : TreePolicy} {mayReply : Request → Except Failure Expansion → Prop} {s : TreeState}

/-- All replies of a run may come. -/
def Follows (p : TreePolicy) (mayReply : Request → Except Failure Expansion → Prop) :
    TreeState → List Move → Prop
  | _, [] => True
  | s, m :: moves => m.Follows mayReply s ∧ Follows p mayReply (s.step p m) moves

theorem exists_split {α : Type} {l : List α} {i : Nat} {a : α} (h : l[i]? = some a) :
    ∃ before after, l = before ++ a :: after ∧ l.eraseIdx i = before ++ after := by
  obtain ⟨hi, rfl⟩ := List.getElem?_eq_some_iff.1 h
  exact ⟨l.take i, l.drop (i + 1), by rw [← List.drop_eq_getElem_cons hi, List.take_append_drop],
    List.eraseIdx_eq_take_drop_succ l i⟩

/-- **A move does one of the things that can happen, or changes nothing.** -/
theorem census_step (h0 : p.directory.contains '\x00' = false) (hn : s.census.Named) {m : Move}
    (hm : m.Follows mayReply s) :
    (s.step p m).census = s.census ∨ Census.Step p mayReply s.census (s.step p m).census := by
  cases m with
  | start i =>
    rw [step]
    split
    · next task ht =>
      obtain ⟨before, after, hr, he⟩ := exists_split ht
      cases task with
      | visit v =>
        have hp : s.census.pending
            = before.filterMap Task.visit? ++ v :: after.filterMap Task.visit? := by
          simp [census, hr, Task.visit?]
        refine .inr (step_visit h0 (hn.pending v (by simp [hp])) hp ?_)
        simp [census, he]
      | notice node =>
        refine .inl ((census_notice _ node).trans ?_)
        simp only [census, he]
        simp only [hr, List.filterMap_append, List.filterMap_cons, Task.visit?]
      | resume family =>
        refine .inl ((census_resume _ family).trans ?_)
        simp only [census, he]
        simp only [hr, List.filterMap_append, List.filterMap_cons, Task.visit?]
    · exact .inl rfl
  | grant i =>
    rw [step]
    split
    · next d hd =>
      obtain ⟨before, after, hw, he⟩ := exists_split hd
      split
      · next hlt =>
        refine .inr ?_
        rw [he]
        exact .grant hw hlt
      · exact .inl rfl
    · exact .inl rfl
  | finish i reply =>
    rw [step]
    split
    · next d hd =>
      obtain ⟨before, after, hi, he⟩ := exists_split hd
      have hd' : IsAncestry d.visit.ancestry := hn.inFlight d (by simp [census, hi])
      obtain ⟨store, d', lines, hf, -⟩ := exists_finish h0 hd' s.store p.node.stamp (.ofReply reply)
      refine .inr ?_
      unfold receive
      rw [census_conclude (by exact hf), census_tell, he]
      exact .finish hi (hm d hd) hf
    · exact .inl rfl

theorem run_cons (p : TreePolicy) (s : TreeState) (m : Move) (moves : List Move) :
    s.run p (m :: moves) = (s.step p m).run p moves := rfl

theorem run_append (p : TreePolicy) (s : TreeState) (before after : List Move) :
    s.run p (before ++ after) = (s.run p before).run p after := List.foldl_append

theorem follows_append {before after : List Move} : Follows p mayReply s (before ++ after)
    ↔ Follows p mayReply s before ∧ Follows p mayReply (s.run p before) after := by
  induction before generalizing s with
  | nil => exact (and_iff_right trivial).symm
  | cons m moves ih => exact (and_congr_right fun _ => ih).trans and_assoc.symm

/-- **A run does one after another of the things that can happen.** -/
theorem census_run (h0 : p.directory.contains '\x00' = false) {moves : List Move}
    (hn : s.census.Named) (hm : Follows p mayReply s moves) :
    Relation.ReflTransGen (Census.Step p mayReply) s.census (s.run p moves).census
      ∧ (s.run p moves).census.Named := by
  induction moves generalizing s with
  | nil => exact ⟨.refl, hn⟩
  | cons m moves ih =>
    obtain ⟨hm, hmoves⟩ := hm
    rw [run_cons]
    rcases census_step h0 hn hm with he | hs
    · obtain ⟨hr, hn'⟩ := ih (by rwa [he]) hmoves
      exact ⟨by rwa [he] at hr, hn'⟩
    · obtain ⟨hr, hn'⟩ := ih (hn.step hs) hmoves
      exact ⟨.head hs hr, hn'⟩

theorem isDone_of_next? {pace : Pace}
    {provider : Request → Except Failure Expansion} (h : s.next? p pace provider = none) : s.isDone = true := by
  have hall : s.finish? provider = none ∧ s.grant? p = none ∧ s.start? = none := by
    cases pace <;> simp only [next?, Option.or_eq_none_iff] at h
    · exact h
    · exact ⟨h.2.2, h.1, h.2.1⟩
  obtain ⟨hf, hg, hs⟩ := hall
  have hi : s.inFlight = [] := List.head?_eq_none_iff.1 (Option.map_eq_none_iff.1 hf)
  have hr : s.ready = [] := List.head?_eq_none_iff.1 (Option.map_eq_none_iff.1 hs)
  have hw : s.waiting = [] := by
    by_contra hne
    rw [grant?, if_pos ⟨List.length_pos_of_ne_nil hne, by rw [hi]; exact p.slots_pos⟩] at hg
    cases hg
  simp [isDone, hi, hr, hw]

/-- **A compilation in the order of a pace is a run**, and goes on until nothing is left to do. -/
theorem exists_run_complete (p : TreePolicy) (pace : Pace)
    (provider : Request → Except Failure Expansion) (s : TreeState) :
    ∃ moves, s.complete p pace provider = s.run p moves
      ∧ (s.complete p pace provider).isDone = true := by
  fun_induction complete p pace provider s with
  | case1 s h => exact ⟨[], rfl, isDone_of_next? h⟩
  | case2 s m h ih =>
    obtain ⟨moves, hm, hd⟩ := ih
    exact ⟨m :: moves, hm, hd⟩

theorem named_initial (store : Store) (root : Spec.Document) (metrics : Metrics) :
    (initial store root metrics).census.Named where
  pending := by
    intro v hv
    obtain rfl := List.mem_singleton.1 hv
    exact isAncestry_root
  waiting := fun _ h => absurd h List.not_mem_nil
  inFlight := fun _ h => absurd h List.not_mem_nil
  results := fun _ h => absurd h List.not_mem_nil

end TreeState

end SpecTree.Plan
