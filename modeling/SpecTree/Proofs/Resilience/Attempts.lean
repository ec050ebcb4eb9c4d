import Mathlib.Algebra.Order.Field.Rat
import Mathlib.Tactic.NormNum
import SpecTree.Provider.Policy

/-!
# Attempts

How often a task is attempted, what is waited for in between, and what its caller sees, with waiting times in
rationals.

1. `Policy.IsRun` says of a run which attempt was its last. By `runFrom_of_last` and `runFrom_of_mends` one attempt
   ends the run or is followed by another, and `exists_isRun` goes along the attempts that are left.
2. `call_attempts` says the same of a call under a time limit, in terms of how the task ends time after time.
-/

namespace SpecTree

namespace Retry

/-! ## One attempt after the other -/

section

variable {α σ β : Type}

/-- The attempt at a task with an index; each starts from the state that the one before it left. -/
def attemptAt (task : σ → Attempt α σ β) (s : σ) (k : Nat) : Attempt α σ β :=
  task ((fun s => (task s).after)^[k] s)

/-- The attempt failed in a way that another one may mend. -/
def Policy.Mends (p : Policy α) (a : Attempt α σ β) : Prop :=
  ∃ f, a.outcome = .error f ∧ p.mends f.kind = true

/-- The attempt tells of no waiting time itself. -/
def Attempt.IsWaitless (a : Attempt α σ β) : Prop := a.notices.filterMap Notice.delay? = []

theorem Policy.attempts_eq (p : Policy α) : (p.attempts : ℤ) = max 1 p.limit := by
  unfold Policy.attempts
  omega

end

/-! ## A run -/

variable {σ β : Type}

/-- A run whose last attempt has the index `last`. It starts after `made` attempts, and `spare` more may follow
its first one. -/
structure Policy.IsRun (p : Policy ℚ) (task : σ → Attempt ℚ σ β) (made spare : Nat) (s : σ) (r : Run ℚ σ β)
    (last : Nat) : Prop where
  attempts_eq : r.attempts = last + 1
  last_le : last ≤ spare
  mends : ∀ k < last, p.Mends (attemptAt task s k)
  last_eq : p.Mends (attemptAt task s last) → last = spare
  outcome_eq : r.outcome = (attemptAt task s last).outcome
  after_eq : r.after = (attemptAt task s last).after
  delays_eq : r.delays = (List.range last).map fun k =>
    min (p.backoff.base * p.backoff.factor ^ (made + k)) p.backoff.limit

variable {p : Policy ℚ} {task : σ → Attempt ℚ σ β} {s : σ}

/-- An attempt that is the last one ends the run, and nothing is waited for. -/
theorem runFrom_of_last (made : Nat) {spare : Nat} (hend : p.Mends (task s) → spare = 0) :
    ∃ told, told.filterMap Notice.delay? = [] ∧ p.runFrom task made spare s =
      ⟨(task s).outcome, 1, (task s).notices ++ told, (task s).after⟩ := by
  cases ho : (task s).outcome with
  | ok value =>
    by_cases hm : made = 0
    · exact ⟨[], rfl, by simp [Policy.runFrom, ho, hm]⟩
    · exact ⟨[.recovered (made + 1)], rfl, by simp [Policy.runFrom, ho, hm]⟩
  | error f =>
    by_cases hf : p.mends f.kind = true
    · obtain rfl := hend ⟨f, ho, hf⟩
      exact ⟨[.exhausted f], rfl, by simp [Policy.runFrom, ho, hf]⟩
    · cases spare <;> exact ⟨[], rfl, by simp [Policy.runFrom, ho, hf]⟩

/-- An attempt that another one may mend is followed by the rest of the run, after a waiting time. -/
theorem runFrom_of_mends (hm : p.Mends (task s)) (made spare : Nat) :
    ∃ f, p.runFrom task made (spare + 1) s =
      let rest := p.runFrom task (made + 1) spare (task s).after
      { rest with
        attempts := rest.attempts + 1
        notices := (task s).notices ++ .retrying (made + 1) f
          (min (p.backoff.base * p.backoff.factor ^ made) p.backoff.limit) :: rest.notices } := by
  obtain ⟨f, ho, hf⟩ := hm
  have hdelay : Seconds.delay p.backoff made =
      .ok (min (p.backoff.base * p.backoff.factor ^ made) p.backoff.limit) := rfl
  refine ⟨f, ?_⟩
  rw [Policy.runFrom]
  simp only [ho, hf, if_true, hdelay]

/-- A run that ends with its first attempt. -/
theorem isRun_zero (hw : (task s).IsWaitless) (made : Nat) {spare : Nat} (hend : p.Mends (task s) → spare = 0) :
    p.IsRun task made spare s (p.runFrom task made spare s) 0 := by
  obtain ⟨told, htold, hrun⟩ := runFrom_of_last made hend
  rw [hrun]
  exact {
    attempts_eq := rfl
    last_le := Nat.zero_le _
    mends := fun k hk => absurd hk (Nat.not_lt_zero k)
    last_eq := fun hm => (hend hm).symm
    outcome_eq := rfl
    after_eq := rfl
    delays_eq := by
      rw [Run.delays, List.filterMap_append, hw, htold]
      rfl }

/-- A run that goes on after its first attempt. -/
theorem isRun_succ (hw : (task s).IsWaitless) (hm : p.Mends (task s)) {made spare last : Nat}
    (h : p.IsRun task (made + 1) spare (task s).after (p.runFrom task (made + 1) spare (task s).after) last) :
    p.IsRun task made (spare + 1) s (p.runFrom task made (spare + 1) s) (last + 1) := by
  obtain ⟨f, hrun⟩ := runFrom_of_mends hm made spare
  rw [hrun]
  exact {
    attempts_eq := congrArg Nat.succ h.attempts_eq
    last_le := Nat.succ_le_succ h.last_le
    -- an attempt at the rest of the run is an attempt at the run, one index further
    mends := fun k hk => by
      cases k with
      | zero => exact hm
      | succ k => exact h.mends k (Nat.lt_of_succ_lt_succ hk)
    last_eq := fun hl => congrArg Nat.succ (h.last_eq hl)
    outcome_eq := h.outcome_eq
    after_eq := h.after_eq
    delays_eq := by
      have htail := h.delays_eq
      have hshift : ∀ k, made + 1 + k = made + (k + 1) := fun k => by omega
      simp only [Run.delays, hshift] at htail
      rw [Run.delays, List.filterMap_append, hw, List.nil_append, List.filterMap_cons, htail,
        List.range_succ_eq_map, List.map_cons, List.map_map]
      rfl }

/-- **Every run has a last attempt**: the first that no other can mend, or the last one that is allowed. -/
theorem exists_isRun (hw : ∀ s, (task s).IsWaitless) (made spare : Nat) (s : σ) :
    ∃ last, p.IsRun task made spare s (p.runFrom task made spare s) last := by
  -- on the attempts that are left; the number of those made only counts for the waiting times
  induction spare generalizing made s with
  | zero => exact ⟨0, isRun_zero (hw s) made fun _ => rfl⟩
  | succ spare ih =>
    by_cases hm : p.Mends (task s)
    · obtain ⟨last, hlast⟩ := ih (made + 1) (task s).after
      exact ⟨last + 1, isRun_succ (hw s) hm hlast⟩
    · exact ⟨0, isRun_zero (hw s) made fun h => absurd h hm⟩

end Retry

namespace CallPolicy

open Retry

/-! ## A call -/

section

variable {σ β : Type}

/-- A task under a time limit; a limit of zero leaves no time to begin. -/
def limited (p : CallPolicy ℚ) (task : σ → Ending β × σ) (s : σ) : Ending β × σ :=
  if 0 < p.timeout then task s else (.silent, s)

/-- The state after a number of calls of a task. -/
def stateAfter (task : σ → Ending β × σ) (s : σ) (n : Nat) : σ := (fun s => (task s).2)^[n] s

/-- How the call of a task with an index ends. -/
def endingAt (task : σ → Ending β × σ) (s : σ) (k : Nat) : Ending β := (task (stateAfter task s k)).1

/-- An ending that leaves hope for the next attempt: no answer in time, or a failure of the provider or of the
system. -/
def IsTransient : Ending β → Prop
  | .answered _ => False
  | .failed f => f.kind ∈ [.provider, .response, .timeout, .system]
  | .silent => True

/-- What a caller sees of an ending; all that takes too long is a failure of the provider. -/
def seen (subject : Subject) : Ending β → Except Failure β
  | .answered value => .ok value
  | .failed f => .error (if f.kind = .timeout then ⟨.provider, subject.timeoutMessage⟩ else f)
  | .silent => .error ⟨.provider, subject.timeoutMessage⟩

theorem mends_iff (kind : FailureKind) :
    mends kind = true ↔ kind ∈ [.provider, .response, .timeout, .system] := by
  cases kind <;> decide

/-- The outcome of an attempt by how the task ends. -/
def outcomeOf : Ending β → Except Failure β
  | .answered value => .ok value
  | .failed f => .error f
  | .silent => .error ⟨.timeout, ""⟩

variable (p : CallPolicy ℚ) (task : σ → Ending β × σ) (s : σ)

theorem attempt_outcome : (p.attempt task s).outcome = outcomeOf (p.limited task s).1 := by
  unfold attempt limited
  split
  · split
    · next hc => rw [hc]; rfl
    · next f after hc =>
      rw [hc]
      obtain ⟨kind, message⟩ := f
      cases kind <;> rfl
    · next hc => rw [hc]; rfl
  · rfl

theorem attempt_after : (p.attempt task s).after = (p.limited task s).2 := by
  unfold attempt limited
  split
  · split
    · next hc => rw [hc]
    · next hc => rw [hc]; split <;> rfl
    · next hc => rw [hc]
  · rfl

theorem attempt_isWaitless : (p.attempt task s).IsWaitless := by
  unfold attempt
  split
  · split
    · rfl
    · split <;> rfl
    · rfl
  · rfl

theorem attemptAt_eq (k : Nat) :
    attemptAt (p.attempt task) s k = p.attempt task (stateAfter (p.limited task) s k) := by
  rw [attemptAt, stateAfter, funext (attempt_after p task)]

theorem outcome_attemptAt (k : Nat) :
    (attemptAt (p.attempt task) s k).outcome = outcomeOf (endingAt (p.limited task) s k) := by
  rw [attemptAt_eq, attempt_outcome, endingAt]

theorem mends_attemptAt_iff (k : Nat) :
    p.retry.Mends (attemptAt (p.attempt task) s k) ↔ IsTransient (endingAt (p.limited task) s k) := by
  rw [Policy.Mends, outcome_attemptAt]
  cases endingAt (p.limited task) s k with
  | answered value => exact iff_of_false (fun ⟨_, h, _⟩ => nomatch h) id
  | failed f =>
    refine Iff.trans ⟨?_, fun h => ⟨f, rfl, h⟩⟩ (mends_iff f.kind)
    rintro ⟨f', hf, h⟩
    rwa [Except.error.inj hf]
  | silent => exact iff_of_true ⟨_, rfl, rfl⟩ trivial

theorem mapError_report (subject : Subject) (e : Ending β) :
    (outcomeOf e).mapError (report subject) = seen subject e := by
  cases e with
  | answered value => rfl
  | failed f => simp [outcomeOf, Except.mapError, report, seen]
  | silent => rfl

/-- Waiting times that double up to a minute. -/
theorem delays_mono {base : ℚ} (h : 0 ≤ base) (n : Nat) :
    ((List.range n).map fun k => min (base * 2 ^ k) 60).Pairwise (· ≤ ·) ∧
      ∀ d ∈ (List.range n).map fun k => min (base * 2 ^ k) 60, 0 ≤ d ∧ d ≤ 60 := by
  constructor
  · refine List.pairwise_map.2 (List.pairwise_lt_range.imp fun {j k} hjk => ?_)
    have hpow : (2 : ℚ) ^ j ≤ 2 ^ k := pow_le_pow_right₀ one_le_two hjk.le
    exact min_le_min_right 60 (mul_le_mul_of_nonneg_left hpow h)
  · intro d hd
    obtain ⟨k, -, rfl⟩ := List.mem_map.1 hd
    exact ⟨le_min (mul_nonneg h (pow_nonneg zero_le_two k)) (by decide), min_le_right _ _⟩

/-- **A call is attempted until an ending leaves no hope, or as often as the policy allows.** The waiting times
double up to a minute, there is none after the last attempt, and the caller sees how the last attempt ended. -/
theorem call_attempts {p : CallPolicy ℚ} (hbase : 0 ≤ p.baseDelay) (subject : Subject)
    (task : σ → Ending β × σ) (s : σ) :
    let run := p.call subject task s
    let ending := endingAt (p.limited task) s
    ∃ n, run.attempts = n + 1 ∧ (n + 1 : ℤ) ≤ max 1 p.attempts ∧ (∀ k < n, IsTransient (ending k)) ∧
      (IsTransient (ending n) → (n + 1 : ℤ) = max 1 p.attempts) ∧
      run.outcome = seen subject (ending n) ∧ run.after = stateAfter (p.limited task) s (n + 1) ∧
      run.delays = (List.range n).map (fun k => min (p.baseDelay * 2 ^ k) 60) ∧
      run.delays.Pairwise (· ≤ ·) ∧ ∀ d ∈ run.delays, 0 ≤ d ∧ d ≤ 60 := by
  intro run ending
  obtain ⟨n, hn⟩ := exists_isRun (p := p.retry) (attempt_isWaitless p task) 0 (p.retry.attempts - 1) s
  have hlimit : (p.retry.attempts : ℤ) = max 1 p.attempts := p.retry.attempts_eq
  have hlast := hn.last_le
  have hdelays : run.delays = (List.range n).map fun k => min (p.baseDelay * 2 ^ k) 60 := by
    refine hn.delays_eq.trans (List.map_congr_left fun k _ => ?_)
    rw [Nat.zero_add]
    rfl
  refine ⟨n, hn.attempts_eq, by omega, fun k hk => ?_, fun h => ?_, ?_, ?_, hdelays, ?_⟩
  · exact (mends_attemptAt_iff p task s k).1 (hn.mends k hk)
  · have := hn.last_eq ((mends_attemptAt_iff p task s n).2 h)
    omega
  · rw [← mapError_report, ← outcome_attemptAt, ← hn.outcome_eq]
    rfl
  · rw [stateAfter, Function.iterate_succ_apply', ← attempt_after, ← stateAfter, ← attemptAt_eq]
    exact hn.after_eq
  · rw [hdelays]
    exact delays_mono hbase n

/-- A task that ends as a script says, and does not end behind it. -/
def scripted : List (Ending β) → Ending β × List (Ending β)
  | [] => (.silent, [])
  | e :: rest => (e, rest)

/-- The third attempt succeeds; the time before it would be longer than a minute. -/
theorem call_attempts_thirdTime :
    let p : CallPolicy ℚ := ⟨.whole 5, 3, 40⟩
    let run := p.call (p.subject "chat" "compile") scripted
      [.failed ⟨.response, "no object"⟩, .silent, .answered 7]
    0 ≤ p.baseDelay ∧ run.attempts = 3 ∧ run.delays = [40, 60] ∧ run.outcome = .ok 7 := by
  intro p run
  have hbase : 0 ≤ p.baseDelay := by decide
  obtain ⟨n, hattempts, hle, -, hend, houtcome, -, hdelays, -⟩ :=
    call_attempts hbase (p.subject "chat" "compile") scripted
      [.failed ⟨.response, "no object"⟩, .silent, .answered 7]
  have hn : n = 2 := by
    have hmax : max 1 p.attempts = 3 := rfl
    -- an earlier ending that leaves hope would have been the last one allowed
    have h0 : n ≠ 0 := by
      rintro rfl
      cases hend (show FailureKind.response ∈ _ by decide)
    have h1 : n ≠ 1 := by
      rintro rfl
      cases hend trivial
    omega
  subst hn
  refine ⟨hbase, hattempts, hdelays.trans ?_, houtcome⟩
  change [min (40 * 2 ^ 0) 60, min (40 * 2 ^ 1) 60] = [(40 : ℚ), 60]
  norm_num

end

end CallPolicy

end SpecTree
