import SpecTree.Build.Execution
import SpecTree.Metrics.Basic
import SpecTree.Plan.Schedule

/-!
# Running a build

A build runs its leaves in batches of bounded width. The leaves of a batch overlap, batches do not. The machine has three moves:

1. `start` reads a leaf of the batch and sends its call;
2. `finish` ends a call in flight with the provider's reply;
3. `next`, once the whole batch is settled, keeps its results and goes on to the next batch. If
   two leaves wanted one path, the leaves of all later batches are skipped.

`rank` falls with every possible move; `complete` makes one run to the end.
-/

namespace SpecTree.Build

/-! ## Batches -/

/-- The items in rows of `width`, the last one possibly shorter. -/
def rows {α : Type} (width : Nat) (xs : List α) : List (List α) :=
  match xs with
  | [] => []
  | x :: rest => (x :: rest.take (width - 1)) :: rows width (rest.drop (width - 1))
termination_by xs.length
decreasing_by simp only [List.length_drop, List.length_cons]; omega

/-- The width of a batch; there is room for one leaf at least. -/
def width (parallelism : Int) : Nat := max 1 parallelism.toNat

/-- The items in batches. -/
def batches {α : Type} (parallelism : Int) (xs : List α) : List (List α) :=
  rows (width parallelism) xs

/-! ## The machine -/

open Plan (Pace)

/-- How far a leaf of the batch is. -/
inductive Status where
  | waiting
  | inFlight (request : Request)
  | settled (ending : LeafEnding)

/-- A leaf of the batch. -/
structure Slot where
  leaf : Leaf
  status : Status := .waiting

namespace Slot

def isWaiting (s : Slot) : Bool := s.status matches .waiting

def isInFlight (s : Slot) : Bool := s.status matches .inFlight _

def ending? (s : Slot) : Option LeafEnding :=
  match s.status with
  | .settled e => some e
  | _ => none

def result? (s : Slot) : Option LeafResult := s.ending?.map (LeafEnding.result s.leaf.nodePath)

/-- The moves that a leaf still needs. -/
def weight (s : Slot) : Nat :=
  match s.status with
  | .waiting => 2
  | .inFlight _ => 1
  | .settled _ => 0

end Slot

/-- A build under way. -/
structure BuildState where
  store : Store
  claims : Claims := {}
  batch : List Slot := []
  /-- The batches that have not begun. -/
  later : List (List Leaf)
  /-- The batches that have begun. -/
  batches : Nat := 0
  /-- The results of the batches before this one. -/
  results : List LeafResult := []
  /-- The leaves that an overlap left out, if there was one. -/
  leftOut : Option Nat := none
  requests : List Request := []
  /-- The most calls that were in flight at once. -/
  peak : Nat := 0
  metrics : Metrics

/-- One move of a build; leaves are counted from the front of the batch. -/
inductive Move where
  | start (i : Nat)
  | finish (i : Nat) (reply : Except Failure Production)
  | next

namespace BuildState

def set (s : BuildState) (i : Nat) (status : Status) : BuildState :=
  { s with batch := s.batch.modify i fun slot => { slot with status } }

/-- Sends a call for a leaf. -/
def send (s : BuildState) (i : Nat) (r : Request) : BuildState :=
  let s := s.set i (.inFlight r)
  { s with requests := s.requests ++ [r], peak := max s.peak (s.batch.countP Slot.isInFlight) }

/-- Reads a leaf; it settles at once if there is nothing to ask. -/
def start (s : BuildState) (b : Site) (i : Nat) (node : String) : BuildState :=
  match requestFor s.store b.plan node with
  | .ok (some r) => s.send i r
  | .ok none => s.set i (.settled (.failed ("No spec artifact found for " ++ node)))
  | .error e => s.set i (.settled (.broken e))

/-- Takes a reply. -/
def receive (s : BuildState) (b : Site) (i : Nat) (node : String)
    (reply : Except Failure Production) : BuildState :=
  let s := { s with metrics := s.metrics.countCall "generate" 0 (reply matches .error _) }
  match reply with
  | .error f =>
    s.set i (.settled (.failed ("Provider generation failed for " ++ node ++ ": " ++ f.message)))
  | .ok answer =>
    let (store, claims, ending) := deliver b s.store s.claims node answer
    let metrics :=
      match ending with
      | .completed r => s.metrics.countFiles r.files.length
      | _ => s.metrics
    { s with store, claims, metrics }.set i (.settled ending)

/-- Whether every leaf of the batch is settled. -/
def isSettled (s : BuildState) : Bool := s.batch.all fun slot => slot.ending?.isSome

def isDone (s : BuildState) : Bool := s.batch.isEmpty && s.later.isEmpty

/-- Keeps the results of the batch and begins the next one, unless there was an overlap. -/
def next (s : BuildState) : BuildState :=
  let results := s.results ++ s.batch.filterMap Slot.result?
  if s.batch.any fun slot => slot.ending?.any LeafEnding.isOverlap then
    let leaves := s.later.flatten
    let skipped := leaves.map fun l => { nodePath := l.nodePath, skipped := true }
    { s with
      results := results ++ skipped
      batch := []
      later := []
      leftOut := some leaves.length }
  else
    match s.later with
    | [] => { s with results, batch := [] }
    | batch :: later =>
      { s with
        results
        batch := batch.map fun l => { leaf := l }
        later
        batches := s.batches + 1 }

/-- One move; a move that is not possible changes nothing. -/
def step (b : Site) (s : BuildState) : Move → BuildState
  | .start i =>
    match s.batch[i]? with
    | some ⟨leaf, .waiting⟩ => s.start b i leaf.nodePath
    | _ => s
  | .finish i reply =>
    match s.batch[i]? with
    | some ⟨leaf, .inFlight _⟩ => s.receive b i leaf.nodePath reply
    | _ => s
  | .next => if s.isSettled && !s.isDone then s.next else s

/-- Moves one after another. -/
def run (b : Site) (s : BuildState) (moves : List Move) : BuildState := moves.foldl (step b) s

/-! ## Runs to the end -/

/-- A start of the first leaf that waits. -/
def start? (s : BuildState) : Option Move := (s.batch.findIdx? Slot.isWaiting).map .start

/-- A reply to the first call in flight. -/
def finish? (s : BuildState) (provider : Request → Except Failure Production) : Option Move := do
  let i ← s.batch.findIdx? Slot.isInFlight
  match (← s.batch[i]?).status with
  | .inFlight r => some (.finish i (provider r))
  | _ => none

def next? (s : BuildState) : Option Move :=
  if s.isSettled && !s.isDone then some .next else none

/-- The next move of a run. -/
def move? (s : BuildState) (pace : Pace) (provider : Request → Except Failure Production) :
    Option Move :=
  match pace with
  | .prompt => (s.finish? provider).or (s.start?.or s.next?)
  | .held => s.start?.or ((s.finish? provider).or s.next?)

/-- The moves that are left in a batch. -/
def weight : List Slot → Nat
  | [] => 0
  | slot :: batch => slot.weight + weight batch

/-- The moves that are left in batches still to come. -/
def laterWeight : List (List Leaf) → Nat
  | [] => 0
  | b :: later => 2 * b.length + 2 + laterWeight later

/-- The moves that are left at most. -/
def rank (s : BuildState) : Nat :=
  weight s.batch + (if s.batch.isEmpty then 0 else 1) + laterWeight s.later

theorem weight_modify {batch : List Slot} {i : Nat} {slot : Slot} (f : Slot → Slot)
    (h : batch[i]? = some slot) :
    weight (batch.modify i f) + slot.weight = weight batch + (f slot).weight := by
  induction batch generalizing i with
  | nil => simp at h
  | cons a batch ih =>
    cases i with
    | zero =>
      simp only [List.getElem?_cons_zero, Option.some.injEq] at h
      simp only [List.modify_zero_cons, weight, h]
      omega
    | succ i =>
      have := ih (by simpa using h)
      simp only [List.modify_succ_cons, weight]
      omega

/-- A leaf that is nearer to its end lowers the rank. -/
theorem rank_set {s : BuildState} {i : Nat} {slot : Slot} {status : Status}
    (h : s.batch[i]? = some slot) (hw : ({ slot with status } : Slot).weight < slot.weight) :
    (s.set i status).rank < s.rank := by
  have := weight_modify (fun slot => { slot with status }) h
  have hl : (s.set i status).batch.length = s.batch.length := List.length_modify ..
  have he : (s.set i status).batch.isEmpty = s.batch.isEmpty := by
    rw [Bool.eq_iff_iff, List.isEmpty_iff, List.isEmpty_iff, ← List.length_eq_zero_iff, hl,
      List.length_eq_zero_iff]
  simp only [rank, he]
  simp only [set] at this ⊢
  omega

theorem rank_start {s : BuildState} {b : Site} {i : Nat} {leaf : Leaf} {node : String}
    (h : s.batch[i]? = some ⟨leaf, .waiting⟩) : (s.start b i node).rank < s.rank := by
  unfold start
  split
  · exact rank_set h (Nat.lt_succ_self 1)
  · exact rank_set h Nat.zero_lt_two
  · exact rank_set h Nat.zero_lt_two

theorem rank_receive {s : BuildState} {b : Site} {i : Nat} {leaf : Leaf} {node : String}
    {r : Request} {reply : Except Failure Production}
    (h : s.batch[i]? = some ⟨leaf, .inFlight r⟩) : (s.receive b i node reply).rank < s.rank := by
  unfold receive
  dsimp only
  split <;> refine rank_set h ?_ <;> exact Nat.zero_lt_one

theorem weight_fresh (batch : List Leaf) :
    weight (batch.map fun l => { leaf := l }) = 2 * batch.length := by
  induction batch with
  | nil => rfl
  | cons l batch ih =>
    simp only [List.map_cons, List.length_cons, weight, ih, Slot.weight]
    omega

theorem rank_pos {s : BuildState} (h : s.isDone = false) : 0 < s.rank := by
  unfold rank
  cases hb : s.batch with
  | cons slot batch =>
    simp only [List.isEmpty_cons]
    exact Nat.add_pos_left (Nat.add_pos_right _ Nat.zero_lt_one) _
  | nil =>
    cases hl : s.later with
    | cons b later =>
      simp only [laterWeight]
      omega
    | nil => rw [isDone, hb, hl] at h; exact absurd h (by decide)

theorem rank_next {s : BuildState} (h : s.isDone = false) : s.next.rank < s.rank := by
  unfold next
  dsimp only
  split
  · exact rank_pos h
  · split
    · rename_i hl
      show 0 + 0 + laterWeight s.later < s.rank
      rw [hl]
      exact rank_pos h
    · rename_i b later hl
      simp only [rank, hl, weight_fresh, laterWeight]
      split <;> omega

theorem rank_move {s : BuildState} {b : Site} {pace : Pace}
    {provider : Request → Except Failure Production} {m : Move}
    (h : s.move? pace provider = some m) : (s.step b m).rank < s.rank := by
  have hf (h : s.finish? provider = some m) : (s.step b m).rank < s.rank := by
    simp only [finish?, Option.bind_eq_bind, Option.bind_eq_some_iff] at h
    obtain ⟨i, _, ⟨leaf, status⟩, hi, h⟩ := h
    cases status <;> simp at h
    simp only [← h, step, hi]
    exact rank_receive hi
  have hs (h : s.start? = some m) : (s.step b m).rank < s.rank := by
    obtain ⟨i, hi, rfl⟩ := Option.map_eq_some_iff.1 h
    obtain ⟨hlt, hw, _⟩ := List.findIdx?_eq_some_iff_getElem.1 hi
    have hg := List.getElem?_eq_getElem hlt
    generalize s.batch[i] = slot at hw hg
    obtain ⟨leaf, status⟩ := slot
    cases status <;> simp [Slot.isWaiting] at hw
    simp only [step, hg]
    exact rank_start hg
  have hn (h : s.next? = some m) : (s.step b m).rank < s.rank := by
    obtain ⟨hd, h⟩ := Option.ite_none_right_eq_some.1 h
    obtain rfl := Option.some.inj h
    simp only [step, if_pos hd]
    exact rank_next (by simpa using (Bool.and_eq_true_iff.1 hd).2)
  cases pace <;> simp only [move?, Option.or_eq_some_iff] at h
  · exact h.elim hf fun h => h.2.elim hs fun h => hn h.2
  · exact h.elim hs fun h => h.2.elim hf fun h => hn h.2

/-- Makes moves until nothing is left to do. -/
def complete (b : Site) (pace : Pace) (provider : Request → Except Failure Production)
    (s : BuildState) : BuildState :=
  match _h : s.move? pace provider with
  | none => s
  | some m => complete b pace provider (s.step b m)
termination_by s.rank
decreasing_by exact rank_move _h

end BuildState

end SpecTree.Build
