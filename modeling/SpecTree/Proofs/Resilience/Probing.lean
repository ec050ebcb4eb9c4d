import Mathlib
import SpecTree.Proofs.Resilience.History

/-!
# Periods of probing

A period begins when an open breaker has rested, and lasts for as long as the breaker probes.

1. `IsPeriod` splits a history where the breaker last began to probe, which can always be done
   (`exists_isPeriod`) and in one way only (`IsPeriod.unique`).
2. During a period the breaker's two counters are those of the history: the calls let through
   (`made_run`), and the calls that returned (`gained_run`). No failure is among the calls that end.
3. `closes_on_returns`: a period that a call ends by closing the breaker has seen as many calls return
   as probes are asked for. They are probes if no older call is among them; `staleReturn_closes` is a
   history in which one is.
-/

namespace SpecTree.Breaker.Traffic

variable {τ : Type} [Sub τ] [LT τ] [DecidableLT τ] [Zero τ]

/-! ## Periods -/

/-- The breaker probes after each of the events. -/
def StaysProbing (t : Traffic τ) : List (Event τ) → Prop
  | [] => True
  | e :: events => (t.step e).1.breaker.mode = .probing ∧ StaysProbing (t.step e).1 events

theorem StaysProbing.concat {t : Traffic τ} {events : List (Event τ)} {e : Event τ}
    (h : t.StaysProbing events) (he : (t.run (events ++ [e])).breaker.mode = .probing) :
    t.StaysProbing (events ++ [e]) := by
  induction events generalizing t with
  | nil => exact ⟨he, trivial⟩
  | cons d events ih => exact ⟨h.1, ih h.2 he⟩

/-- The breaker does not probe after the events `before`, and probes from then on. -/
structure IsPeriod (config : Config τ) (before during : List (Event τ)) : Prop where
  idle : ((start config).run before).breaker.mode ≠ .probing
  stays : ((start config).run before).StaysProbing during

/-- **Every history ends with a period**, which is empty unless the breaker probes. -/
theorem exists_isPeriod (config : Config τ) (events : List (Event τ)) :
    ∃ before during, events = before ++ during ∧ IsPeriod config before during := by
  induction events using List.reverseRecOn with
  | nil => exact ⟨[], [], rfl, nofun, trivial⟩
  | append_singleton events e ih =>
    obtain ⟨before, during, rfl, hperiod⟩ := ih
    by_cases hm : ((start config).run (before ++ during ++ [e])).breaker.mode = .probing
    · refine ⟨before, during ++ [e], List.append_assoc .., hperiod.idle, hperiod.stays.concat ?_⟩
      rwa [List.append_assoc, run_append] at hm
    · exact ⟨_, [], (List.append_nil _).symm, hm, trivial⟩

theorem StaysProbing.run_of_append {t : Traffic τ} {events later : List (Event τ)}
    (h : t.StaysProbing (events ++ later)) (hne : events ≠ []) :
    (t.run events).breaker.mode = .probing := by
  induction events generalizing t with
  | nil => exact absurd rfl hne
  | cons e events ih =>
    cases events with
    | nil => exact h.1
    | cons => exact ih h.2 nofun

/-- No other period ends the same history: one that began earlier would not probe all the time. -/
theorem IsPeriod.unique {config : Config τ} {before before' during during' : List (Event τ)}
    (h : IsPeriod config before during) (h' : IsPeriod config before' during')
    (heq : before ++ during = before' ++ during') : before = before' ∧ during = during' := by
  -- The history at which the later period begins lies within the earlier one, so it probes there.
  have hnone : ∀ {a b c d : List (Event τ)}, IsPeriod config a (b ++ c) →
      IsPeriod config (a ++ b) d → b = [] := by
    intro a b c d hlong hshort
    by_contra hne
    refine hshort.idle ?_
    rw [run_append]
    exact hlong.stays.run_of_append hne
  rcases List.append_eq_append_iff.1 heq with ⟨b, rfl, rfl⟩ | ⟨b, rfl, rfl⟩
  · simp [hnone h h']
  · simp [hnone h' h]

/-! ## Counters -/

/-- The probes made in the period that lasts. -/
def made (t : Traffic τ) : Nat := if t.breaker.mode = .probing then t.breaker.probesMade else 0

/-- The successes counted in the period that lasts. -/
def gained (t : Traffic τ) : Nat := if t.breaker.mode = .probing then t.breaker.successes else 0

section Step

variable {t t' : Traffic τ} {e : Event τ} {refusal : Option (Refusal τ)}

theorem Step.made_eq (h : t.Step e t' refusal) (hm : t'.breaker.mode = .probing) :
    t'.made = t.made + (admitted? t e refusal).toList.length := by
  cases h with
  | probe h' | spent h' | count _ h' => simp [made, admitted?, h']
  | turn h' | turnSpent h' => simp [made, admitted?, h']
  | cancel | ignore => rfl
  | pass h' | refuse h' => simp [h'] at hm
  | forgive _ h' | bear _ h' => exact absurd hm h'
  | close | reopen | trip | reset => cases hm

theorem Step.gained_eq (h : t.Step e t' refusal) (hm : t'.breaker.mode = .probing) :
    t'.gained = t.gained
      + ((departed? t e refusal).toList.filter (·.ending = .returned)).length := by
  cases h with
  | probe h' | spent h' => simp [gained, departed?, h']
  | turn h' | turnSpent h' => simp [gained, departed?, h']
  | count hc h' => simp [gained, departed?, hc, h']
  | cancel hc | ignore hc => simp [gained, departed?, hc]
  | pass h' | refuse h' => simp [h'] at hm
  | forgive _ h' | bear _ h' => exact absurd hm h'
  | close | reopen | trip | reset => cases hm

/-- A failure ends the period. -/
theorem Step.not_failed (h : t.Step e t' refusal) (hm : t'.breaker.mode = .probing) :
    ∀ d ∈ departed? t e refusal, d.ending ≠ .failed := by
  cases h with
  | probe | spent | turn | turnSpent | pass | refuse | reset => exact nofun
  | count hc | close hc | forgive hc | cancel hc | ignore hc => simp [departed?, hc]
  | bear _ h' => exact absurd hm h'
  | reopen | trip => cases hm

end Step

section Run

variable {t : Traffic τ} {events : List (Event τ)} (h : t.StaysProbing events)

include h in
theorem made_run : (t.run events).made = t.made + (t.admissions events).length := by
  induction events generalizing t with
  | nil => rfl
  | cons e events ih =>
    rw [run_cons, ih h.2, (step_spec t e).made_eq h.1]
    simp [admissions, gather, Nat.add_assoc]

include h in
theorem gained_run : (t.run events).gained = t.gained + (t.endedBy .returned events).length := by
  induction events generalizing t with
  | nil => rfl
  | cons e events ih =>
    rw [run_cons, ih h.2, (step_spec t e).gained_eq h.1]
    simp [endedBy, departures, gather, Nat.add_assoc]

include h in
theorem not_failed_of_staysProbing : ∀ d ∈ t.departures events, d.ending ≠ .failed := by
  induction events generalizing t with
  | nil => exact nofun
  | cons e events ih =>
    intro d hd
    rcases List.mem_append.1 hd with hd | hd
    · exact (step_spec t e).not_failed h.1 d (Option.mem_toList.1 hd)
    · exact ih h.2 d hd

end Run

/-- The probes made are the calls let through in the period. -/
theorem IsPeriod.made_eq {config : Config τ} {before during : List (Event τ)}
    (h : IsPeriod config before during) :
    ((start config).run (before ++ during)).made
      = (((start config).run before).admissions during).length := by
  rw [run_append, made_run h.stays, made, if_neg h.idle, Nat.zero_add]

/-- The successes counted are the calls that returned in the period. -/
theorem IsPeriod.gained_eq {config : Config τ} {before during : List (Event τ)}
    (h : IsPeriod config before during) :
    ((start config).run (before ++ during)).gained
      = (((start config).run before).endedBy .returned during).length := by
  rw [run_append, gained_run h.stays, gained, if_neg h.idle, Nat.zero_add]

/-! ## How a period ends well -/

theorem endedBy_concat (ending : Ending) (t : Traffic τ) (events : List (Event τ)) (e : Event τ) :
    t.endedBy ending (events ++ [e]) = t.endedBy ending events
      ++ (departed? (t.run events) e ((t.run events).step e).2).toList.filter (·.ending = ending) := by
  rw [endedBy, departures, gather_concat, List.filter_append]
  rfl

/-- The calls that the events end were in flight, or have been let through by them. -/
theorem count_endedBy_le (ending : Ending) (t : Traffic τ) (events : List (Event τ)) (call : Nat) :
    ((t.endedBy ending events).map Departure.call).count call
      ≤ t.inFlight.count call + (t.admissions events).count call := by
  have hsub : ((t.endedBy ending events).map Departure.call).Sublist
      ((t.departures events).map Departure.call) := List.filter_sublist.map _
  have hle := hsub.count_le call
  have hperm := List.perm_iff_count.1 (t.departures_perm events) call
  simp only [List.count_append] at hperm
  omega

/-- Only a call that returns closes a breaker that probes. -/
theorem Step.of_close {t t' : Traffic τ} {e : Event τ} {refusal : Option (Refusal τ)}
    (h : t.Step e t' refusal) (hm : t.breaker.mode = .probing) (hm' : t'.breaker.mode = .closed)
    (he : e ≠ .reset) :
    t.breaker.config.probes ≤ (t.breaker.successes + 1 : Nat) ∧
      ((departed? t e refusal).toList.filter (·.ending = .returned)).length = 1 ∧
      admitted? t e refusal = none := by
  cases h with
  | close hc _ hn => exact ⟨hn, by simp [departed?, hc], rfl⟩
  | pass h' | refuse h' | trip _ h' => simp [hm] at h'
  | forgive _ h' | bear _ h' => exact absurd hm h'
  | probe | spent | count | cancel | ignore => simp [hm] at hm'
  | turn | turnSpent | reopen => cases hm'
  | reset => exact absurd rfl he

/-- **The breaker closes on calls that return.** When a call closes a breaker that probes, as many calls
have returned since it began to probe as it asks for; if none of them was in flight when it began, all
of them are probes of this period. -/
theorem closes_on_returns {config : Config τ} {events : List (Event τ)} {e : Event τ}
    (hprobing : ((start config).run events).breaker.mode = .probing)
    (hclosed : ((start config).run (events ++ [e])).breaker.mode = .closed) (he : e ≠ .reset) :
    ∃ before during, events = before ++ during ∧ IsPeriod config before during ∧
      let begun := (start config).run before
      let returned := (begun.endedBy .returned (during ++ [e])).map Departure.call
      config.probes ≤ returned.length ∧
        ((∀ call ∈ begun.inFlight, call ∉ returned) → returned.Subperm (begun.admissions during)) := by
  obtain ⟨before, during, rfl, hperiod⟩ := exists_isPeriod config events
  rw [run_concat] at hclosed
  obtain ⟨hn, hone, hnone⟩ := (step_spec _ e).of_close hprobing hclosed he
  have hgained := hperiod.gained_eq
  rw [gained, if_pos hprobing] at hgained
  rw [run_append] at hone hnone
  -- The successes counted so far are the calls that returned; the call that closes is one more.
  refine ⟨before, during, rfl, hperiod, ?_, fun hnew => List.subperm_ext_iff.2 fun call hcall => ?_⟩
  · rw [List.length_map, endedBy_concat, List.length_append, hone, ← hgained]
    simpa [start] using hn
  · have hold : ((start config).run before).inFlight.count call = 0 :=
      List.count_eq_zero.2 fun hold => hnew call hold hcall
    have hcount := count_endedBy_le .returned ((start config).run before) (during ++ [e]) call
    rwa [hold, Nat.zero_add, admissions, gather_concat, hnone, Option.toList_none,
      List.append_nil] at hcount

/-- Of three calls that begin one after another, the third probes and closes the breaker. -/
theorem probe_closes :
    let config : Config Int := ⟨2, 5, 1⟩
    let events : List (Event Int) :=
      [.begin 0 1, .begin 1 1, .finish 1 .failed 2, .finish 0 .failed 3, .begin 2 10]
    ((start config).run events).breaker.mode = .probing ∧
      ((start config).run (events ++ [.finish 2 .returned 11])).breaker.mode = .closed ∧
      ∃ before during, events = before ++ during ∧ IsPeriod config before during ∧
        let begun := (start config).run before
        let returned :=
          (begun.endedBy .returned (during ++ [.finish 2 .returned 11])).map Departure.call
        config.probes ≤ returned.length ∧
          ((∀ call ∈ begun.inFlight, call ∉ returned) → returned.Subperm (begun.admissions during)) :=
  ⟨by decide, by decide, closes_on_returns (by decide) (by decide) nofun⟩

/-- **An old call closes the breaker**: it begins before the failure that opens the breaker, and returns
while the only probe is still in flight. -/
theorem staleReturn_closes :
    let config : Config Int := ⟨1, 5, 1⟩
    let before : List (Event Int) := [.begin 0 1, .begin 1 1, .finish 1 .failed 2]
    let during : List (Event Int) := [.begin 2 10]
    let begun := (start config).run before
    let returned := (begun.endedBy .returned (during ++ [.finish 0 .returned 11])).map Departure.call
    IsPeriod config before during ∧
      ((start config).run (before ++ during)).breaker.mode = .probing ∧
      ((start config).run (before ++ during ++ [.finish 0 .returned 11])).breaker.mode = .closed ∧
      ((returned.filter (· ∈ begun.admissions during)).length : Int) < config.probes :=
  ⟨⟨by decide, rfl, trivial⟩, by decide, by decide, by decide⟩

end SpecTree.Breaker.Traffic
