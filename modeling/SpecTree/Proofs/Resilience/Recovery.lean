import SpecTree.Proofs.Resilience.Invariants

/-!
# Recovery of a breaker

A breaker that probes has no clock to go by: it waits for its probes to end. So it recovers as long as
every probe ends in success or failure.

1. `made_le_gained`: in a quiet period none of whose probes is cancelled, the probes have all returned.
2. `admits_when_rested`: then the next call is let through.
3. `stuck`: a breaker that has lost its probes refuses all calls, and `lostProbe_blocks` is a history
   that leads there.
-/

namespace SpecTree.Breaker.Traffic

variable {τ : Type} [Sub τ] [LT τ] [DecidableLT τ] [Zero τ]

/-! ## Accounts of a quiet period -/

theorem length_departures {t : Traffic τ} {events : List (Event τ)} (h : t.StaysProbing events) :
    (t.departures events).length
      = (t.endedBy .returned events).length + (t.endedBy .cancelled events).length := by
  have hrest : (t.departures events).filter (fun d => !decide (d.ending = .returned))
      = t.endedBy .cancelled events := by
    refine List.filter_congr fun d hd => ?_
    have hne := not_failed_of_staysProbing h d hd
    cases he : d.ending <;> simp_all
  rw [← hrest]
  exact List.length_eq_length_filter_add _

/-- Calls that are cancelled, but were not let through since, are some of those that were in flight. -/
theorem length_cancelled_le {t : Traffic τ} {events : List (Event τ)}
    (h : ∀ d ∈ t.endedBy .cancelled events, d.call ∉ t.admissions events) :
    (t.endedBy .cancelled events).length ≤ t.inFlight.length := by
  have hsub : ((t.endedBy .cancelled events).map Departure.call).Subperm t.inFlight := by
    refine List.subperm_ext_iff.2 fun call hcall => ?_
    obtain ⟨d, hd, rfl⟩ := List.mem_map.1 hcall
    have hcount := count_endedBy_le .cancelled t events d.call
    rwa [List.count_eq_zero.2 (h d hd), Nat.add_zero] at hcount
  simpa using hsub.length_le

/-- **In a quiet period that lost no probe, every probe has been counted as a success.** -/
theorem made_le_gained {config : Config τ} {before during : List (Event τ)}
    (hperiod : IsPeriod config before during)
    (hquiet : ((start config).run (before ++ during)).inFlight = [])
    (hkept : ∀ d ∈ ((start config).run before).endedBy .cancelled during,
      d.call ∉ ((start config).run before).admissions during) :
    ((start config).run (before ++ during)).made ≤ ((start config).run (before ++ during)).gained := by
  -- All calls have ended: by returning, or, as many as were in flight at first, by being cancelled.
  have hperm := (((start config).run before).departures_perm during).length_eq
  rw [← run_append, hquiet, List.append_nil, List.length_map, List.length_append,
    length_departures hperiod.stays] at hperm
  have hlost := length_cancelled_le hkept
  rw [hperiod.made_eq, hperiod.gained_eq]
  omega

/-! ## The next call -/

/-- What lets a call through. -/
theorem admits_of {t : Traffic τ} {call : Nat} {now : τ}
    (hopened : t.breaker.mode = .opened → t.breaker.isRested now = true ∧ 0 < t.breaker.config.probes)
    (hprobing : t.breaker.mode = .probing → t.breaker.probesMade < t.breaker.config.probes) :
    (t.step (.begin call now)).2 = none := by
  have hstep := step_begin t call now
  generalize (t.step (.begin call now)).1 = t', (t.step (.begin call now)).2 = refusal at hstep ⊢
  cases hstep with
  | pass | probe | turn => rfl
  | spent hm hn => exact absurd (hprobing hm) (Int.not_lt.2 hn)
  | turnSpent hm _ hn => exact absurd (hopened hm).2 (Int.not_lt.2 hn)
  | refuse hm hr => simp [(hopened hm).1] at hr

/-- **A breaker recovers**: at a positive clock, after any history that leaves no call in flight, the next
call is let through if the breaker is closed or the pause since the last failure is over, provided that
no probe was cancelled since the breaker began to probe. -/
theorem admits_when_rested (config : Config τ) (hc : config.IsUsable) (events : List (Event τ))
    (hclock : ∀ f ∈ (start config).failureTimes events, 0 < f)
    (hquiet : ((start config).run events).inFlight = []) :
    ∃ before during, events = before ++ during ∧ IsPeriod config before during ∧
      let begun := (start config).run before
      let t := (start config).run events
      ((∀ d ∈ begun.endedBy .cancelled during, d.call ∉ begun.admissions during) →
        ∀ call now,
          (t.breaker.mode = .closed ∨ ∃ f, t.breaker.lastFailure = some f ∧ config.pause < now - f) →
            (t.step (.begin call now)).2 = none) := by
  obtain ⟨before, during, rfl, hperiod⟩ := exists_isPeriod config events
  refine ⟨before, during, rfl, hperiod, fun hkept call now hdue => admits_of (fun hm => ?_) fun hm => ?_⟩
  · rw [hm] at hdue
    obtain ⟨f, hf, hlt⟩ := hdue.resolve_left nofun
    have hpositive := hclock f (List.mem_of_getLast? (getLast?_failureTimes hf))
    refine ⟨isRested_iff.2 ⟨f, hf, .inr hpositive, ?_⟩, ?_⟩
    · rwa [config_run]
    · rw [config_run]
      exact hc.probes
  -- All probes made have been counted as successes, and these are not enough to close the breaker.
  · have hle := made_le_gained hperiod hquiet hkept
    rw [made, gained, if_pos hm, if_pos hm] at hle
    have hlt := (isSound_run hc (before ++ during)).successes hm
    omega

/-- A call that is cancelled while the breaker is closed does no harm: when the pause is over, the next
call is let through. -/
theorem admits_after_pause :
    let config : Config Int := ⟨1, 5, 1⟩
    let events : List (Event Int) :=
      [.begin 0 1, .begin 1 1, .finish 0 .cancelled 2, .finish 1 .failed 3]
    config.IsUsable ∧ (∀ f ∈ (start config).failureTimes events, 0 < f) ∧
      ((start config).run events).inFlight = [] ∧
      (((start config).run events).step (.begin 2 10)).2 = none := by
  intro config events
  have hc : config.IsUsable := ⟨by decide, by decide⟩
  have hclock : ∀ f ∈ (start config).failureTimes events, 0 < f := by decide
  have hquiet : ((start config).run events).inFlight = [] := by decide
  obtain ⟨before, during, heq, hperiod, hadmits⟩ :=
    admits_when_rested config hc events hclock hquiet
  have hlast : IsPeriod config events [] := ⟨by decide, trivial⟩
  obtain ⟨rfl, rfl⟩ := hperiod.unique hlast (heq.symm.trans (List.append_nil _).symm)
  exact ⟨hc, hclock, hquiet, hadmits (by decide) 2 10 (.inr ⟨3, by decide, by decide⟩)⟩

/-! ## Lost probes -/

theorem Step.eq_of_spent {t t' : Traffic τ} {e : Event τ} {refusal : Option (Refusal τ)}
    (h : t.Step e t' refusal) (hm : t.breaker.mode = .probing)
    (hn : t.breaker.config.probes ≤ t.breaker.probesMade) (hquiet : t.inFlight = []) (he : e ≠ .reset) :
    t' = t ∧ admitted? t e refusal = none := by
  cases h with
  | spent | ignore => exact ⟨rfl, rfl⟩
  | probe _ hlt => exact absurd hn (Int.not_le.2 hlt)
  | pass h' | turn h' | turnSpent h' | refuse h' => simp [hm] at h'
  | close hc | count hc | forgive hc | reopen hc | trip hc | bear hc | cancel hc => simp [hquiet] at hc
  | reset => exact absurd rfl he

/-- **Lost probes are not made again**: a breaker that has made all its probes, none of which is in
flight any more, lets no call through until it is reset. -/
theorem stuck {t : Traffic τ} (hm : t.breaker.mode = .probing)
    (hn : t.breaker.config.probes ≤ t.breaker.probesMade) (hquiet : t.inFlight = [])
    {events : List (Event τ)} (he : .reset ∉ events) : t.run events = t ∧ t.admissions events = [] := by
  induction events with
  | nil => exact ⟨rfl, rfl⟩
  | cons e events ih =>
    obtain ⟨hfirst, hlater⟩ := not_or.1 (List.mem_cons.not.1 he)
    obtain ⟨hsame, hnone⟩ := (step_spec t e).eq_of_spent hm hn hquiet (Ne.symm hfirst)
    obtain ⟨hrun, hadmitted⟩ := ih hlater
    rw [run_cons, hsame, admissions, gather, hsame, hnone]
    exact ⟨hrun, hadmitted⟩

/-- **A cancelled probe blocks the breaker for good**: nothing is in flight and the pause is over, but no
call is let through any more, whatever the time. -/
theorem lostProbe_blocks :
    let config : Config Int := ⟨1, 5, 1⟩
    let events : List (Event Int) :=
      [.begin 0 1, .finish 0 .failed 2, .begin 1 10, .finish 1 .cancelled 11]
    let t := (start config).run events
    config.IsUsable ∧ (∀ f ∈ (start config).failureTimes events, 0 < f) ∧ t.inFlight = [] ∧
      t.breaker.lastFailure = some 2 ∧
      (∀ call now, (t.step (.begin call now)).2 = some .probesSpent) ∧
      ∀ later : List (Event Int), .reset ∉ later → t.admissions later = [] :=
  ⟨⟨by decide, by decide⟩, by decide, by decide, by decide, fun _ _ => rfl,
    fun _ he => (stuck (by decide) (by decide) (by decide) he).2⟩

end SpecTree.Breaker.Traffic
