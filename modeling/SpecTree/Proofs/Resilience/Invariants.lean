import SpecTree.Proofs.Resilience.Probing

/-!
# What holds of a breaker in every state

Whatever calls overlap, however they end and whatever the clock says:

1. the counters stay within their bounds (`IsSound`, kept by every event);
2. the last failure is that of the history (`getLast?_failureTimes`);
3. a closed breaker counts the failures since the last success (`failures_eq_streak`).

`invariants_hold` puts them together.
-/

namespace SpecTree.Breaker

variable {τ : Type}

/-- Failures can open the breaker, and probes can close it. -/
structure Config.IsUsable (c : Config τ) : Prop where
  threshold : 1 ≤ c.threshold
  probes : 1 ≤ c.probes

/-- The counters are within their bounds. -/
structure IsSound (b : Breaker τ) : Prop where
  closed : b.mode = .closed → b.failures < b.config.threshold
  opened : b.mode = .opened → b.lastFailure.isSome
  successes : b.mode = .probing → b.successes < b.config.probes
  probesMade : b.mode = .probing → b.probesMade ≤ b.config.probes

theorem isSound_reset (b : Breaker τ) (hc : b.config.IsUsable) : b.reset.IsSound :=
  ⟨fun _ => hc.threshold, nofun, nofun, nofun⟩

theorem isSound_of_probing {b : Breaker τ} (hm : b.mode = .probing)
    (hs : b.successes < b.config.probes) (hp : b.probesMade ≤ b.config.probes) : b.IsSound := by
  refine ⟨fun h => ?_, fun h => ?_, fun _ => hs, fun _ => hp⟩
  · simp [hm] at h
  · simp [hm] at h

namespace Traffic

variable [Sub τ] [LT τ] [DecidableLT τ] [Zero τ]

variable {t t' : Traffic τ} {e : Event τ} {refusal : Option (Refusal τ)}

/-! ## Bounds -/

/-- **Every event keeps the counters within their bounds.** -/
theorem Step.isSound (h : t.Step e t' refusal) (hc : t.breaker.config.IsUsable)
    (hs : t.breaker.IsSound) : t'.breaker.IsSound := by
  cases h with
  | pass | spent | refuse | cancel | ignore => exact hs
  | close | reset => exact isSound_reset _ hc
  | probe hm hn => exact isSound_of_probing hm (hs.successes hm) hn
  | turn _ _ hn => exact isSound_of_probing rfl hn hn
  | turnSpent => exact isSound_of_probing rfl hc.probes (Int.le_of_lt hc.probes)
  | count _ hm hn => exact isSound_of_probing hm hn (hs.probesMade hm)
  | forgive _ hm => exact ⟨fun _ => hc.threshold, hs.opened, fun h => absurd h hm, fun h => absurd h hm⟩
  | reopen | trip => exact ⟨nofun, fun _ => rfl, nofun, nofun⟩
  | bear _ hm hn => exact ⟨hn, fun _ => rfl, fun h => absurd h hm, fun h => absurd h hm⟩

theorem isSound_run {config : Config τ} (hc : config.IsUsable) (events : List (Event τ)) :
    ((start config).run events).breaker.IsSound := by
  have hstart : (start config).breaker.config = config ∧ (start config).breaker.IsSound :=
    ⟨rfl, isSound_reset { config } hc⟩
  refine (run_induction (P := fun t => t.breaker.config = config ∧ t.breaker.IsSound)
    (fun h ⟨he, hs⟩ => ⟨h.config_eq.trans he, h.isSound (he ▸ hc) hs⟩) hstart events).2

/-! ## The last failure -/

/-- When calls failed. -/
def failureTimes (t : Traffic τ) (events : List (Event τ)) : List τ :=
  (t.endedBy .failed events).map Departure.time

theorem Step.lastFailure_eq (h : t.Step e t' refusal) :
    t'.breaker.lastFailure = none ∨
      t'.breaker.lastFailure =
        (((departed? t e refusal).toList.filter (·.ending = .failed)).map Departure.time).getLast?.or
          t.breaker.lastFailure := by
  cases h with
  | pass | probe | spent | turn | turnSpent | refuse => exact .inr rfl
  | close | reset => exact .inl rfl
  | count hc | forgive hc | reopen hc | trip hc | bear hc | cancel hc | ignore hc =>
    exact .inr (by simp [departed?, hc])

/-- The last failure that the breaker knows of is the last one of the history. -/
theorem getLast?_failureTimes {config : Config τ} {events : List (Event τ)} {f : τ}
    (h : ((start config).run events).breaker.lastFailure = some f) :
    ((start config).failureTimes events).getLast? = some f := by
  induction events using List.reverseRecOn with
  | nil => cases h
  | append_singleton events e ih =>
    rw [run_concat] at h
    rw [failureTimes, endedBy_concat, List.map_append, List.getLast?_append]
    rcases (step_spec ((start config).run events) e).lastFailure_eq with hn | hl
    · simp [hn] at h
    · rw [hl] at h
      cases hg : (((departed? ((start config).run events) e
          (((start config).run events).step e).2).toList.filter
            (·.ending = .failed)).map Departure.time).getLast? with
      | some g => rwa [hg] at h
      | none =>
        rw [hg] at h
        exact ih h

/-! ## Failures in a row -/

/-- What an event tells of the service: that a call failed, or that one returned. A reset counts as a
call that returned. -/
def failed? (t : Traffic τ) : Event τ → Option (Refusal τ) → Option Bool
  | .finish call .failed _, _ => if call ∈ t.inFlight then some true else none
  | .finish call .returned _, _ => if call ∈ t.inFlight then some false else none
  | .reset, _ => some false
  | _, _ => none

/-- The failures since the last call that returned, or the last reset. -/
def streak (t : Traffic τ) (events : List (Event τ)) : Nat :=
  ((t.gather failed? events).rtakeWhile id).length

theorem streak_concat (t : Traffic τ) (events : List (Event τ)) (e : Event τ) :
    t.streak (events ++ [e]) =
      (failed? (t.run events) e ((t.run events).step e).2).elim (t.streak events)
        fun failed => if failed then t.streak events + 1 else 0 := by
  rw [streak, gather_concat]
  rcases failed? (t.run events) e ((t.run events).step e).2 with _ | _ | _ <;>
    simp [streak]

/-- What an event does to the failures that a closed breaker counts. -/
theorem Step.failures_eq (h : t.Step e t' refusal) (hm : t'.breaker.mode = .closed) :
    (t.breaker.mode = .closed ∧ failed? t e refusal = none ∧ t'.breaker.failures = t.breaker.failures) ∨
    (failed? t e refusal = some false ∧ t'.breaker.failures = 0) ∨
    (t.breaker.mode = .closed ∧ failed? t e refusal = some true ∧
      t'.breaker.failures = t.breaker.failures + 1) := by
  cases h with
  | pass hm' => exact .inl ⟨hm', rfl, rfl⟩
  | spent | refuse => exact .inl ⟨hm, rfl, rfl⟩
  | probe hm' => simp [hm'] at hm
  | turn | turnSpent | reopen | trip => cases hm
  | close hc => exact .inr (.inl ⟨by simp [failed?, hc], rfl⟩)
  | count _ hm' => simp [hm'] at hm
  | forgive hc => exact .inr (.inl ⟨by simp [failed?, hc], rfl⟩)
  | bear hc => exact .inr (.inr ⟨hm, by simp [failed?, hc], rfl⟩)
  | cancel => exact .inl ⟨hm, rfl, rfl⟩
  | @ignore call ending now hc => exact .inl ⟨hm, by cases ending <;> simp [failed?, hc], rfl⟩
  | reset => exact .inr (.inl ⟨rfl, rfl⟩)

/-- A closed breaker counts the failures since the last success. -/
theorem failures_eq_streak {config : Config τ} {events : List (Event τ)}
    (hm : ((start config).run events).breaker.mode = .closed) :
    ((start config).run events).breaker.failures = (start config).streak events := by
  induction events using List.reverseRecOn with
  | nil => rfl
  | append_singleton events e ih =>
    rw [run_concat] at hm
    rw [run_concat, streak_concat]
    rcases (step_spec ((start config).run events) e).failures_eq hm with
      ⟨hm', hf, hn⟩ | ⟨hf, hn⟩ | ⟨hm', hf, hn⟩
    · rw [hf, hn]
      exact ih hm'
    · rw [hf, hn]
      rfl
    · rw [hf, hn, ih hm']
      rfl

/-- A closed breaker stays closed, or is opened by a failure. -/
theorem Step.of_closed (h : t.Step e t' refusal) (hm : t.breaker.mode = .closed) :
    t'.breaker.mode = .closed ∨
      (t'.breaker.mode = .opened ∧ t.breaker.config.threshold ≤ (t.breaker.failures + 1 : Nat) ∧
        failed? t e refusal = some true) := by
  cases h with
  | pass | cancel | ignore | forgive | bear => exact .inl hm
  | close | reset => exact .inl rfl
  | trip hc _ hn => exact .inr ⟨rfl, hn, by simp [failed?, hc]⟩
  | probe h' | spent h' | turn h' | turnSpent h' | refuse h' => simp [hm] at h'
  | count _ h' | reopen _ h' => simp [hm] at h'

/-- **A closed breaker opens at its threshold**, and not before. -/
theorem opens_iff_streak {config : Config τ} (hc : config.IsUsable) {events : List (Event τ)}
    (hm : ((start config).run events).breaker.mode = .closed) (e : Event τ) :
    ((start config).run (events ++ [e])).breaker.mode = .opened ↔
      (start config).streak (events ++ [e]) = config.threshold := by
  -- A breaker that stays closed counts less than its threshold; one that opens counted one less.
  have hlt := (isSound_run hc events).closed hm
  have hcount := failures_eq_streak hm
  have hlater : ((start config).run (events ++ [e])).breaker.mode = .closed →
      ((start config).run (events ++ [e])).breaker.failures = (start config).streak (events ++ [e]) :=
    failures_eq_streak
  have hsound := isSound_run hc (events ++ [e])
  rw [run_concat] at hlater hsound ⊢
  rcases (step_spec ((start config).run events) e).of_closed hm with hclosed | ⟨hopened, hn, hf⟩
  · have hbelow := hsound.closed hclosed
    rw [hlater hclosed, (step_spec _ e).config_eq, config_run] at hbelow
    refine ⟨fun h => ?_, fun h => ?_⟩
    · simp [hclosed] at h
    · exact absurd h (Int.ne_of_lt hbelow)
  · rw [config_run] at hlt hn
    refine ⟨fun _ => ?_, fun _ => hopened⟩
    rw [streak_concat, hf, Option.elim_some, if_pos rfl, ← hcount]
    exact Int.le_antisymm hlt hn

/-! ## All together -/

theorem Step.isRested {call : Nat} {now : τ} (h : t.Step (.begin call now) t' none)
    (hm : t.breaker.mode = .opened) : t.breaker.isRested now = true := by
  cases h with
  | turn _ hr => exact hr
  | pass h' | probe h' => simp [hm] at h'

/-- While the breaker probes, it lets no more calls through than it may make probes. -/
theorem admissions_le {config : Config τ} (hc : config.IsUsable) {events later : List (Event τ)}
    (h : ((start config).run events).StaysProbing later) :
    (((start config).run events).admissions later).length ≤ config.probes := by
  have hsound := isSound_run hc (events ++ later)
  have hmade := made_run h
  rw [← run_append] at hmade
  have hle : (((start config).run (events ++ later)).made : Int) ≤ config.probes := by
    unfold made
    split
    · next hm => simpa [start] using hsound.probesMade hm
    · exact Int.le_of_lt hc.probes
  omega

/-- A breaker that is opened lets a call through only when it has rested since the last failure. -/
theorem rested_of_admitted {config : Config τ} {events : List (Event τ)} {call : Nat} {now : τ}
    (hm : ((start config).run events).breaker.mode = .opened)
    (ha : (((start config).run events).step (.begin call now)).2 = none) :
    ∃ f, ((start config).failureTimes events).getLast? = some f ∧ config.pause < now - f := by
  have hstep := step_spec ((start config).run events) (.begin call now)
  rw [ha] at hstep
  obtain ⟨f, hf, -, hlt⟩ := isRested_iff.1 (hstep.isRested hm)
  rw [config_run] at hlt
  exact ⟨f, getLast?_failureTimes hf, hlt⟩

/-- **What holds of a breaker after any history**, for a threshold and a number of probes of at least
one. The counters are within their bounds. An open breaker lets a call through only when it has rested
for longer than its pause since the last failure. While it probes, it lets no more calls through than it
may make probes. When it is closed, the event that opens it is the failure that makes the failures since
the last success or reset as many as its threshold. -/
theorem invariants_hold (config : Config τ) (hc : config.IsUsable) (events : List (Event τ)) :
    let t := (start config).run events
    t.breaker.IsSound ∧
      (∀ call now, t.breaker.mode = .opened → (t.step (.begin call now)).2 = none →
        ∃ f, ((start config).failureTimes events).getLast? = some f ∧ config.pause < now - f) ∧
      (∀ later, t.StaysProbing later → (t.admissions later).length ≤ config.probes) ∧
      (t.breaker.mode = .closed → ∀ e,
        (t.step e).1.breaker.mode = .opened ↔
          (start config).streak (events ++ [e]) = config.threshold) := by
  refine ⟨isSound_run hc events, fun call now => rested_of_admitted, fun later hl => ?_,
    fun hm e => ?_⟩
  · exact admissions_le hc hl
  · rw [← run_concat]
    exact opens_iff_streak hc hm e

/-- A breaker that asks for two failures in a row is closed after the first, and opened by the second. -/
theorem secondFailure_opens :
    let config : Config Int := ⟨2, 5, 1⟩
    let events : List (Event Int) := [.begin 0 1, .begin 1 1, .finish 0 .failed 2]
    let t := (start config).run events
    config.IsUsable ∧ t.breaker.IsSound ∧ t.breaker.mode = .closed ∧
      (t.step (.finish 1 .failed 3)).1.breaker.mode = .opened := by
  have hc : (⟨2, 5, 1⟩ : Config Int).IsUsable := ⟨by decide, by decide⟩
  have h := invariants_hold _ hc [.begin 0 1, .begin 1 1, .finish 0 .failed 2]
  exact ⟨hc, h.1, by decide, (h.2.2.2 (by decide) _).2 (by decide)⟩

end Traffic

end SpecTree.Breaker
