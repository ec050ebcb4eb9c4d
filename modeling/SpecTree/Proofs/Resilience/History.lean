import Mathlib.Data.List.Perm.Basic
import SpecTree.Resilience.Traffic

/-!
# Histories of a breaker

What events do to the traffic through a breaker, and what is remembered of them.

1. `Traffic.Step` has one rule for each thing that an event can do, guards included; `step_spec` says
   that there is nothing else. What every state keeps is shown rule by rule.
2. `Traffic.gather` collects a note from each event: the calls let through (`admissions`), and the calls
   that ended (`departures`). `departures_perm` balances the two against the calls in flight.
-/

namespace SpecTree.Breaker.Traffic

variable {τ : Type} [Sub τ] [LT τ] [DecidableLT τ] [Zero τ]

/-- A closed breaker with no call in flight. -/
def start (config : Config τ) : Traffic τ := ⟨{ config }, []⟩

/-! ## One event -/

/-- What an event does to the traffic, and why it refuses a call if it does. -/
inductive Step (t : Traffic τ) : Event τ → Traffic τ → Option (Refusal τ) → Prop
  | pass {call : Nat} {now : τ} (hm : t.breaker.mode = .closed) :
      Step t (.begin call now) ⟨t.breaker, call :: t.inFlight⟩ none
  | probe {call : Nat} {now : τ} (hm : t.breaker.mode = .probing)
      (hn : t.breaker.probesMade < t.breaker.config.probes) :
      Step t (.begin call now)
        ⟨{ t.breaker with probesMade := t.breaker.probesMade + 1 }, call :: t.inFlight⟩ none
  | spent {call : Nat} {now : τ} (hm : t.breaker.mode = .probing)
      (hn : t.breaker.config.probes ≤ t.breaker.probesMade) :
      Step t (.begin call now) t (some .probesSpent)
  /-- The pause is over: the breaker begins to probe, with this call. -/
  | turn {call : Nat} {now : τ} (hm : t.breaker.mode = .opened) (hr : t.breaker.isRested now = true)
      (hn : 0 < t.breaker.config.probes) :
      Step t (.begin call now)
        ⟨{ t.breaker with mode := .probing, probesMade := 1, successes := 0 }, call :: t.inFlight⟩ none
  /-- A breaker that has no probes to make begins to probe all the same. -/
  | turnSpent {call : Nat} {now : τ} (hm : t.breaker.mode = .opened)
      (hr : t.breaker.isRested now = true) (hn : t.breaker.config.probes ≤ 0) :
      Step t (.begin call now)
        ⟨{ t.breaker with mode := .probing, probesMade := 0, successes := 0 }, t.inFlight⟩
        (some .probesSpent)
  | refuse {call : Nat} {now : τ} (hm : t.breaker.mode = .opened)
      (hr : t.breaker.isRested now = false) :
      Step t (.begin call now) t (some (.opened t.breaker.config.pause))
  | close {call : Nat} {now : τ} (hc : call ∈ t.inFlight) (hm : t.breaker.mode = .probing)
      (hn : t.breaker.config.probes ≤ (t.breaker.successes + 1 : Nat)) :
      Step t (.finish call .returned now) ⟨t.breaker.reset, t.inFlight.erase call⟩ none
  | count {call : Nat} {now : τ} (hc : call ∈ t.inFlight) (hm : t.breaker.mode = .probing)
      (hn : (t.breaker.successes + 1 : Nat) < t.breaker.config.probes) :
      Step t (.finish call .returned now)
        ⟨{ t.breaker with successes := t.breaker.successes + 1 }, t.inFlight.erase call⟩ none
  | forgive {call : Nat} {now : τ} (hc : call ∈ t.inFlight) (hm : t.breaker.mode ≠ .probing) :
      Step t (.finish call .returned now)
        ⟨{ t.breaker with failures := 0 }, t.inFlight.erase call⟩ none
  | reopen {call : Nat} {now : τ} (hc : call ∈ t.inFlight) (hm : t.breaker.mode = .probing) :
      Step t (.finish call .failed now)
        ⟨{ t.breaker with
            mode := .opened, failures := t.breaker.failures + 1, lastFailure := some now,
            successes := 0, probesMade := 0 }, t.inFlight.erase call⟩ none
  | trip {call : Nat} {now : τ} (hc : call ∈ t.inFlight) (hm : t.breaker.mode = .closed)
      (hn : t.breaker.config.threshold ≤ (t.breaker.failures + 1 : Nat)) :
      Step t (.finish call .failed now)
        ⟨{ t.breaker with
            mode := .opened, failures := t.breaker.failures + 1, lastFailure := some now,
            successes := 0 }, t.inFlight.erase call⟩ none
  /-- A failure that leaves the mode as it is. -/
  | bear {call : Nat} {now : τ} (hc : call ∈ t.inFlight) (hm : t.breaker.mode ≠ .probing)
      (hn : t.breaker.mode = .closed → (t.breaker.failures + 1 : Nat) < t.breaker.config.threshold) :
      Step t (.finish call .failed now)
        ⟨{ t.breaker with failures := t.breaker.failures + 1, lastFailure := some now },
          t.inFlight.erase call⟩ none
  | cancel {call : Nat} {now : τ} (hc : call ∈ t.inFlight) :
      Step t (.finish call .cancelled now) ⟨t.breaker, t.inFlight.erase call⟩ none
  | ignore {call : Nat} {ending : Ending} {now : τ} (hc : call ∉ t.inFlight) :
      Step t (.finish call ending now) t none
  | reset : Step t .reset ⟨t.breaker.reset, t.inFlight⟩ none

theorem step_begin (t : Traffic τ) (call : Nat) (now : τ) :
    t.Step (.begin call now) (t.step (.begin call now)).1 (t.step (.begin call now)).2 := by
  obtain ⟨⟨config, mode, failures, successes, made, last⟩, inFlight⟩ := t
  cases mode with
  | closed => exact .pass rfl
  | probing =>
    by_cases hn : config.probes ≤ made
    · simp only [step, ask, Breaker.probe, if_pos hn]
      exact .spent rfl hn
    · simp only [step, ask, Breaker.probe, if_neg hn]
      exact .probe rfl (Int.not_le.1 hn)
  | opened =>
    cases hr : isRested (⟨config, .opened, failures, successes, made, last⟩ : Breaker τ) now with
    | false =>
      simp only [step, ask, hr]
      exact .refuse rfl hr
    | true =>
      by_cases hn : config.probes ≤ 0
      · simp only [step, ask, hr, Breaker.probe, if_true, Int.ofNat_zero, if_pos hn]
        exact .turnSpent rfl hr hn
      · simp only [step, ask, hr, Breaker.probe, if_true, Int.ofNat_zero, if_neg hn]
        exact .turn rfl hr (Int.not_le.1 hn)

theorem step_finish (t : Traffic τ) (call : Nat) (ending : Ending) (now : τ) :
    t.Step (.finish call ending now) (t.step (.finish call ending now)).1
      (t.step (.finish call ending now)).2 := by
  obtain ⟨⟨config, mode, failures, successes, made, last⟩, inFlight⟩ := t
  by_cases hc : call ∈ inFlight
  · simp only [step, if_pos hc]
    cases ending with
    | cancelled => exact .cancel hc
    | returned =>
      cases mode with
      | closed | opened => exact .forgive hc nofun
      | probing =>
        by_cases hn : config.probes ≤ (successes + 1 : Nat)
        · simp only [settle, succeed, if_pos hn]
          exact .close hc rfl hn
        · simp only [settle, succeed, if_neg hn]
          exact .count hc rfl (Int.not_le.1 hn)
    | failed =>
      cases mode with
      | opened => exact .bear hc nofun nofun
      | probing => exact .reopen hc rfl
      | closed =>
        by_cases hn : config.threshold ≤ (failures + 1 : Nat)
        · simp only [settle, fail, if_pos hn]
          exact .trip hc rfl hn
        · simp only [settle, fail, if_neg hn]
          exact .bear hc nofun fun _ => Int.not_le.1 hn
  · simp only [step, if_neg hc]
    exact .ignore hc

/-- **What an event does is one of the rules.** -/
theorem step_spec (t : Traffic τ) (e : Event τ) : t.Step e (t.step e).1 (t.step e).2 := by
  cases e with
  | begin call now => exact step_begin t call now
  | finish call ending now => exact step_finish t call ending now
  | reset => exact .reset

theorem isRested_iff {b : Breaker τ} {now : τ} :
    b.isRested now = true ↔
      ∃ f, b.lastFailure = some f ∧ (f < 0 ∨ 0 < f) ∧ b.config.pause < now - f := by
  unfold isRested
  cases b.lastFailure <;> simp

theorem Step.config_eq {t t' : Traffic τ} {e : Event τ} {refusal : Option (Refusal τ)}
    (h : t.Step e t' refusal) : t'.breaker.config = t.breaker.config := by
  cases h <;> rfl

/-! ## Runs -/

@[simp] theorem run_nil (t : Traffic τ) : t.run [] = t := rfl

@[simp] theorem run_cons (t : Traffic τ) (e : Event τ) (events : List (Event τ)) :
    t.run (e :: events) = (t.step e).1.run events := rfl

theorem run_append (t : Traffic τ) (before after : List (Event τ)) :
    t.run (before ++ after) = (t.run before).run after := List.foldl_append

theorem run_concat (t : Traffic τ) (events : List (Event τ)) (e : Event τ) :
    t.run (events ++ [e]) = ((t.run events).step e).1 := run_append t events [e]

@[simp] theorem config_run (t : Traffic τ) (events : List (Event τ)) :
    (t.run events).breaker.config = t.breaker.config := by
  induction events generalizing t with
  | nil => rfl
  | cons e events ih => exact (ih _).trans (step_spec t e).config_eq

/-- What one event keeps, a run keeps. -/
theorem run_induction {P : Traffic τ → Prop}
    (hstep : ∀ {t t' : Traffic τ} {e : Event τ} {refusal : Option (Refusal τ)},
      t.Step e t' refusal → P t → P t')
    {t : Traffic τ} (h : P t) (events : List (Event τ)) : P (t.run events) := by
  induction events generalizing t with
  | nil => exact h
  | cons e events ih => exact ih (hstep (step_spec t e) h)

/-! ## Notes -/

/-- The notes taken of the events of a run, in order. A note may depend on the traffic that the event
meets, and on whether it refuses a call. -/
def gather {α : Type} (note : Traffic τ → Event τ → Option (Refusal τ) → Option α) (t : Traffic τ) :
    List (Event τ) → List α
  | [] => []
  | e :: events => (note t e (t.step e).2).toList ++ gather note (t.step e).1 events

section Gather

variable {α : Type} (note : Traffic τ → Event τ → Option (Refusal τ) → Option α)

theorem gather_append (t : Traffic τ) (before after : List (Event τ)) :
    t.gather note (before ++ after) = t.gather note before ++ (t.run before).gather note after := by
  induction before generalizing t with
  | nil => rfl
  | cons e before ih => simp [gather, ih]

theorem gather_concat (t : Traffic τ) (events : List (Event τ)) (e : Event τ) :
    t.gather note (events ++ [e])
      = t.gather note events ++ (note (t.run events) e ((t.run events).step e).2).toList := by
  rw [gather_append]
  simp [gather]

end Gather

/-- The call that an event lets through. -/
def admitted? (_ : Traffic τ) : Event τ → Option (Refusal τ) → Option Nat
  | .begin call _, none => some call
  | _, _ => none

/-- A call that was let through and has ended. -/
structure Departure (τ : Type) where
  call : Nat
  ending : Ending
  time : τ
  deriving DecidableEq

/-- The end of a call that is in flight. -/
def departed? (t : Traffic τ) : Event τ → Option (Refusal τ) → Option (Departure τ)
  | .finish call ending now, _ => if call ∈ t.inFlight then some ⟨call, ending, now⟩ else none
  | _, _ => none

/-- The calls that the events let through. -/
def admissions (t : Traffic τ) (events : List (Event τ)) : List Nat := t.gather admitted? events

/-- The calls that end by the events. -/
def departures (t : Traffic τ) (events : List (Event τ)) : List (Departure τ) :=
  t.gather departed? events

/-- The calls that end in one way. -/
def endedBy (ending : Ending) (t : Traffic τ) (events : List (Event τ)) : List (Departure τ) :=
  (t.departures events).filter (·.ending = ending)

theorem Step.departed_perm {t t' : Traffic τ} {e : Event τ} {refusal : Option (Refusal τ)}
    (h : t.Step e t' refusal) :
    ((departed? t e refusal).toList.map Departure.call ++ t'.inFlight).Perm
      (t.inFlight ++ (admitted? t e refusal).toList) := by
  cases h with
  | pass | probe | turn => simpa [departed?, admitted?] using (List.perm_append_singleton ..).symm
  | spent | turnSpent | refuse | reset => simp [departed?, admitted?]
  | ignore hc => simp [departed?, admitted?, hc]
  | close hc | count hc | forgive hc | reopen hc | trip hc | bear hc | cancel hc =>
    simpa [departed?, admitted?, hc] using (List.perm_cons_erase hc).symm

/-- **No call is lost**: what was in flight or is let through either has ended or is in flight. -/
theorem departures_perm (t : Traffic τ) (events : List (Event τ)) :
    ((t.departures events).map Departure.call ++ (t.run events).inFlight).Perm
      (t.inFlight ++ t.admissions events) := by
  induction events generalizing t with
  | nil => simp [departures, admissions, gather]
  | cons e events ih =>
    have hlater := ih (t.step e).1
    have hstep := (step_spec t e).departed_perm
    simp only [departures, admissions, gather, List.map_append, run_cons] at hlater ⊢
    refine List.perm_iff_count.2 fun call => ?_
    have hl := List.perm_iff_count.1 hlater call
    have hs := List.perm_iff_count.1 hstep call
    simp only [List.count_append] at hl hs ⊢
    omega

end SpecTree.Breaker.Traffic
