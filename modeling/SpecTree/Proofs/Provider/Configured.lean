import Mathlib
import SpecTree.Proofs.Provider.Lookups

/-!
# Providers from configuration files

Which settings a provider has that is asked for with a configuration file.

1. What `Settings.override?` makes of some values and the settings below them: the last value that is given
   for a name counts, and where there is none the settings below count (`override?_eq_some`).
2. `configuration?` is what the file gives. A file counts as it was when it was read first
   (`lookup_configurations`).
3. `HasPolicy` says that calls are made as the file tells, and as the settings below it where it tells nothing
   (`hasPolicy_of_override?`).
4. This holds of a provider that nobody has looked up since it was registered (`configured_policy`). Another
   one is returned as it is, and the file is of no account (`configured_too_late`).
-/

namespace SpecTree

/-! ## Settings on top of others -/

namespace Table

variable {α : Type}

/-- Of the values that are put under a name, the last one counts. -/
theorem get?_foldl_put (t : Table α) (values : List (String × α)) (name : String) :
    (values.foldl (fun t v => t.put v.1 v.2) t).get? name =
      (values.reverse.lookup name).or (t.get? name) := by
  induction values generalizing t with
  | nil => rfl
  | cons v values ih =>
    rw [List.foldl_cons, ih, get?_put, List.reverse_cons, List.lookup_append, lookup_cons, Option.or_assoc]
    congr 1
    split <;> rfl

theorem get?_ofList (values : List (String × α)) (name : String) :
    (ofList values).get? name = values.reverse.lookup name := by
  rw [ofList, get?_foldl_put]
  exact Option.or_none

end Table

namespace Settings

theorem given_foldl_put {α : Type} {t : Table Json} {name : String} {j : Json} (values : List (String × Json))
    (value? : Json → Option α) (fallback : α) (h : t.get? name = some j) :
    given (values.foldl (fun t v => t.put v.1 v.2) t) name value? fallback =
      value? ((values.reverse.lookup name).getD j) := by
  rw [given, Table.get?_foldl_put, h]
  cases values.reverse.lookup name <;> rfl

theorem get?_toValues (s : Settings) :
    s.toValues.get? "provider_timeout_seconds" = some (Number.toJson s.timeout) ∧
    s.toValues.get? "provider_max_retries" = some (.int s.attempts) ∧
    s.toValues.get? "provider_retry_base_delay" = some (.float s.baseDelay) := by
  simp only [toValues, Table.get?_ofList, List.reverse_cons, List.reverse_nil, List.nil_append,
    List.cons_append, lookup_cons]
  simp

/-- How calls are made is told by the last values under the three names, and by the settings below where
there are none. -/
theorem override?_eq_some {base s : Settings} {values : List (String × Json)}
    (h : base.override? values = some s) :
    (real? ((values.reverse.lookup "provider_timeout_seconds").getD (Number.toJson base.timeout))).map
        Number.fractional = some s.timeout ∧
      whole? ((values.reverse.lookup "provider_max_retries").getD (.int base.attempts)) = some s.attempts ∧
      real? ((values.reverse.lookup "provider_retry_base_delay").getD (.float base.baseDelay)) =
        some s.baseDelay := by
  obtain ⟨htimeout, hattempts, hdelay⟩ := get?_toValues base
  rw [override?, ofValues?] at h
  -- Sixteen settings come before those that tell how calls are made.
  iterate 16 obtain ⟨_, -, h⟩ := Option.bind_eq_some_iff.1 h
  obtain ⟨timeout, ht, h⟩ := Option.bind_eq_some_iff.1 h
  obtain ⟨attempts, ha, h⟩ := Option.bind_eq_some_iff.1 h
  obtain ⟨delay, hd, h⟩ := Option.bind_eq_some_iff.1 h
  cases h
  rw [given_foldl_put values _ _ htimeout] at ht
  rw [given_foldl_put values _ _ hattempts] at ha
  rw [given_foldl_put values _ _ hdelay] at hd
  exact ⟨ht, ha, hd⟩

end Settings

end SpecTree

namespace SpecTree.Registry

variable {π : Type}

/-! ## What a file gives -/

/-- The entries that an action reads from the file with this canonical path. -/
def Action.entries? (place : String) : Action π → Option (List (Yaml.Value × Yaml.Value))
  | .configure s path _ => if s.canonical path = place then entriesOf? s path else none
  | _ => none

/-- The entries that a configuration file has after some actions: those that were read first from a file with
its canonical path, or those that it has now. -/
def configuration? (h : List (Action π)) (s : Store) (path : String) :
    Option (List (Yaml.Value × Yaml.Value)) :=
  (h.findSome? (·.entries? (s.canonical path))).or (entriesOf? s path)

theorem get_configurations (r : Registry π) (name : String) (settings : Settings) :
    (r.get name settings).1.configurations = r.configurations := by
  have h := get_got r name settings
  generalize r.get name settings = out at h
  cases h <;> rfl

theorem ofConfiguration_configurations (r : Registry π) (s : Store) (path : String) (base : Settings) :
    (r.ofConfiguration s path base).1.configurations = (r.readConfiguration s path).1.configurations := by
  obtain ⟨e, h⟩ | ⟨entries, values, settings, -, -, -, h⟩ := ofConfiguration_cases r s path base
  · rw [h]
  · rw [h]
    exact get_configurations _ _ _

/-- An action adds the entries that it reads unless the file was read before. -/
theorem lookup_configurations_step (r : Registry π) (q : Action π) (place : String) :
    (r.step q).configurations.lookup place = (r.configurations.lookup place).or (q.entries? place) := by
  cases q with
  | register name factory aliases =>
    obtain ⟨t, ht, -⟩ := register_fields r name factory aliases
    rw [step, ht]
    exact Option.or_none.symm
  | get name settings =>
    rw [step, get_configurations]
    exact Option.or_none.symm
  | configure s path base =>
    rw [step, ofConfiguration_configurations, Action.entries?]
    obtain ⟨entries, hlookup, hread⟩ | ⟨entries, hlookup, hentries, hread⟩ | ⟨e, -, hentries, hread⟩ :=
      readConfiguration_cases r s path
    · rw [hread]
      split
      · next hplace => rw [← hplace, hlookup, Option.some_or]
      · exact Option.or_none.symm
    · rw [hread, lookup_cons, hentries]
      by_cases hplace : place = s.canonical path
      · rw [if_pos hplace, if_pos hplace.symm, hplace, hlookup, Option.none_or]
      · rw [if_neg hplace, if_neg (Ne.symm hplace), Option.or_none]
    · rw [hread, hentries, ite_self, Option.or_none]

/-- **What is remembered of a file** is what was read from it first. -/
theorem lookup_configurations (h : List (Action π)) (place : String) :
    (after h).configurations.lookup place = h.findSome? (·.entries? place) := by
  induction h using List.reverseRecOn with
  | nil => rfl
  | append_singleton h q ih =>
    rw [after_concat, lookup_configurations_step, ih, List.findSome?_append, List.findSome?_singleton]

theorem readConfiguration_ok {h : List (Action π)} {s : Store} {path : String}
    {entries : List (Yaml.Value × Yaml.Value)} (hread : ((after h).readConfiguration s path).2 = .ok entries) :
    configuration? h s path = some entries := by
  rw [configuration?, ← lookup_configurations]
  obtain ⟨_, hlookup, hr⟩ | ⟨_, hlookup, hentries, hr⟩ | ⟨_, -, -, hr⟩ :=
    readConfiguration_cases (after h) s path
  · rw [hr] at hread
    cases hread
    rw [hlookup, Option.some_or]
  · rw [hr] at hread
    cases hread
    rw [hlookup, hentries, Option.none_or]
  · rw [hr] at hread
    cases hread

theorem readConfiguration_of_unread {r : Registry π} {s : Store} {path : String}
    {entries : List (Yaml.Value × Yaml.Value)} (hunread : r.configurations = [])
    (hentries : entriesOf? s path = some entries) :
    r.readConfiguration s path = ({ r with configurations := [(s.canonical path, entries)] }, .ok entries) := by
  obtain ⟨_, hlookup, -⟩ | ⟨_, -, he, hread⟩ | ⟨_, -, he, -⟩ := readConfiguration_cases r s path
  · rw [hunread] at hlookup
    cases hlookup
  · cases hentries.symm.trans he
    rw [hread, hunread]
  · cases hentries.symm.trans he

/-! ## Settings from a file -/

/-- The value that the entries give to a setting; of several the last one counts. -/
def given? (entries : List (Yaml.Value × Yaml.Value)) (name : String) : Option Yaml.Value :=
  entries.reverse.findSome? fun (key, value) =>
    match key with
    | .text written => if Settings.canonicalName written = name then some value else none
    | _ => none

/-- Calls are made as the entries tell, and where they tell nothing as the settings below them do. -/
structure HasPolicy (base : Settings) (entries : List (Yaml.Value × Yaml.Value)) (p : CallPolicy Number) :
    Prop where
  timeout_given : ∀ v, given? entries "provider_timeout_seconds" = some v →
    ∃ x, Settings.real? v.setting = some x ∧ p.timeout = .fractional x
  timeout_kept : given? entries "provider_timeout_seconds" = none →
    ∃ x, base.timeout.binary = .ok x ∧ p.timeout = .fractional x
  attempts_given : ∀ v, given? entries "provider_max_retries" = some v →
    Settings.whole? v.setting = some p.attempts
  attempts_kept : given? entries "provider_max_retries" = none → p.attempts = base.attempts
  baseDelay_given : ∀ v, given? entries "provider_retry_base_delay" = some v →
    ∃ x, Settings.real? v.setting = some x ∧ p.baseDelay = .fractional x
  baseDelay_kept : given? entries "provider_retry_base_delay" = none →
    p.baseDelay = .fractional base.baseDelay

/-- The overrides give the settings the values that the entries do. -/
theorem lookup_overrides {entries : List (Yaml.Value × Yaml.Value)} {values : List (String × Json)}
    (h : overrides entries = .ok values) {name : String} (hname : name ∈ Settings.names) :
    values.reverse.lookup name = (given? entries name).map Yaml.Value.setting := by
  induction entries generalizing values with
  | nil =>
    cases h
    rfl
  | cons entry entries ih =>
    obtain ⟨key, value⟩ := entry
    cases key with
    | text written =>
      cases hrest : overrides entries with
      | error e =>
        rw [overrides, hrest] at h
        cases h
      | ok rest =>
        rw [overrides, hrest] at h
        obtain rfl := Except.ok.inj h
        rw [given?, List.reverse_cons, List.findSome?_append, List.findSome?_singleton, ← given?,
          Option.map_or, ← ih hrest]
        dsimp only
        split
        · rw [List.reverse_cons, List.lookup_append, lookup_cons]
          by_cases hn : name = Settings.canonicalName written
          · rw [if_pos hn, if_pos hn.symm]
            rfl
          · rw [if_neg hn, if_neg (Ne.symm hn)]
            rfl
        · next hcontains =>
          have hn : Settings.canonicalName written ≠ name := by
            rintro rfl
            exact hcontains (List.contains_iff_mem.2 hname)
          rw [if_neg hn, Option.map_none, Option.or_none]
    | _ => cases h

theorem real?_toJson (n : Number) : Settings.real? (Settings.Number.toJson n) = n.binary.toOption := by
  cases n <;> rfl

theorem hasPolicy_of_override? {base s : Settings} {entries : List (Yaml.Value × Yaml.Value)}
    {values : List (String × Json)} (h : overrides entries = .ok values)
    (hs : base.override? values = some s) : HasPolicy base entries s.callPolicy := by
  obtain ⟨htimeout, hattempts, hdelay⟩ := Settings.override?_eq_some hs
  rw [lookup_overrides h (by decide)] at htimeout hattempts hdelay
  obtain ⟨x, hx, hfractional⟩ := Option.map_eq_some_iff.1 htimeout
  constructor
  case timeout_given =>
    intro v hv
    rw [hv] at hx
    exact ⟨x, hx, hfractional.symm⟩
  case timeout_kept =>
    intro hn
    rw [hn, Option.map_none, Option.getD_none, real?_toJson, toOption_eq_some_iff] at hx
    exact ⟨x, hx, hfractional.symm⟩
  case attempts_given =>
    intro v hv
    rw [hv] at hattempts
    exact hattempts
  case attempts_kept =>
    intro hn
    rw [hn] at hattempts
    exact (Option.some.inj hattempts).symm
  case baseDelay_given =>
    intro v hv
    rw [hv] at hdelay
    exact ⟨s.baseDelay, hdelay, rfl⟩
  case baseDelay_kept =>
    intro hn
    rw [hn] at hdelay
    exact congrArg Number.fractional (Option.some.inj hdelay).symm

/-! ## Looking up by a file -/

/-- **The settings of a file reach the provider** that it names, if nobody has looked it up since it was
registered; if somebody has, the provider is the one that was returned then. -/
theorem configured_policy {h : List (Action π)} {s : Store} {path : String} {base : Settings} {i : Instance π}
    (hi : ((after h).ofConfiguration s path base).2 = .ok i) :
    ∃ entries c, configuration? h s path = some entries ∧ (after h).resolve? (providerName entries) = some c ∧
      ((¬∃ j, Since h c fun before q => Returns (after before) q c j) → HasPolicy base entries i.policy) ∧
      ∀ j, (Since h c fun before q => Returns (after before) q c j) → i = j := by
  obtain ⟨files, hfiles⟩ := readConfiguration_fields (after h) s path
  obtain ⟨e, hcases⟩ | ⟨entries, values, settings, hread, hvalues, hsettings, hcases⟩ :=
    ofConfiguration_cases (after h) s path base
  · rw [hcases] at hi
    cases hi
  · rw [hcases, hfiles, ← toOption_eq_some_iff, toOption_mapError, toOption_eq_some_iff] at hi
    have hpolicy := hasPolicy_of_override? hvalues hsettings
    have hgot := get_got { after h with configurations := files } (providerName entries) settings
    generalize get { after h with configurations := files } (providerName entries) settings = out at hgot hi
    cases hgot with
    | unknown | failed | dangling => cases hi
    | @kept c i' hresolve hlookup =>
      cases hi
      refine ⟨entries, c, readConfiguration_ok hread, hresolve, fun hnone => ?_, fun j hj => ?_⟩
      · exact absurd ⟨i, (instance_iff h c i).1 hlookup⟩ hnone
      · rw [← instance_iff] at hj
        exact Option.some.inj (hlookup.symm.trans hj)
    | @built c factory p hresolve hlookup _ _ =>
      cases hi
      refine ⟨entries, c, readConfiguration_ok hread, hresolve, fun _ => hpolicy, fun j hj => ?_⟩
      rw [← instance_iff] at hj
      cases hlookup.symm.trans hj

/-- A file that asks for five attempts. -/
def fiveAttempts : Store := ⟨[(["p.yaml"], .file (.text "provider: p\nprovider-max-retries: 5\n"))]⟩

def fiveEntries : List (Yaml.Value × Yaml.Value) :=
  [(.text "provider", .text "p"), (.text "provider-max-retries", .int 5)]

/-- Whether these entries were read. -/
def areFive : Except Yaml.Problem Yaml.Value → Bool
  | .ok (.map [(.text "provider", .text "p"), (.text "provider-max-retries", .int 5)]) => true
  | _ => false

theorem eq_of_areFive {read : Except Yaml.Problem Yaml.Value} (h : areFive read = true) :
    read = .ok (.map fiveEntries) := by
  unfold areFive at h
  split at h
  · rfl
  · cases h

theorem entriesOf?_fiveAttempts : entriesOf? fiveAttempts "/p.yaml" = some fiveEntries := by
  have htext : fiveAttempts.readText "/p.yaml" = .ok "provider: p\nprovider-max-retries: 5\n" := by cbv
  have hread : areFive (Yaml.read "provider: p\nprovider-max-retries: 5\n") = true := by decide +kernel
  rw [entriesOf?, htext]
  dsimp only
  rw [eq_of_areFive hread]
  rfl

def registration : Action Unit := .register "p" (fun _ => .ok ()) []

theorem configured_policy_fiveAttempts :
    ∃ i, ((after [registration]).ofConfiguration fiveAttempts "/p.yaml" {}).2 = .ok i ∧
      i.policy.attempts = 5 ∧
      ∃ entries c, configuration? [registration] fiveAttempts "/p.yaml" = some entries ∧
        (after [registration]).resolve? (providerName entries) = some c ∧
        ((¬∃ j, Since [registration] c fun before q => Returns (after before) q c j) →
          HasPolicy {} entries i.policy) ∧
        ∀ j, (Since [registration] c fun before q => Returns (after before) q c j) → i = j := by
  have hattempts : ((after [registration]).ofConfiguration fiveAttempts "/p.yaml" {}).2.toOption.map
      (·.policy.attempts) = some 5 := by
    unfold ofConfiguration
    rw [readConfiguration_of_unread rfl entriesOf?_fiveAttempts]
    decide +kernel
  obtain ⟨i, hi, hfive⟩ := Option.map_eq_some_iff.1 hattempts
  rw [toOption_eq_some_iff] at hi
  exact ⟨i, hi, hfive, configured_policy hi⟩

/-- A provider that was looked up before keeps its three attempts. -/
theorem configured_too_late :
    ∃ i, ((after [registration, .get "p" {}]).ofConfiguration fiveAttempts "/p.yaml" {}).2 = .ok i ∧
      configuration? [registration, .get "p" {}] fiveAttempts "/p.yaml" = some fiveEntries ∧
      given? fiveEntries "provider_max_retries" = some (.int 5) ∧ i.policy.attempts = 3 ∧
      ¬HasPolicy {} fiveEntries i.policy := by
  have hattempts :
      ((after [registration, .get "p" {}]).ofConfiguration fiveAttempts "/p.yaml" {}).2.toOption.map
        (·.policy.attempts) = some 3 := by
    unfold ofConfiguration
    rw [readConfiguration_of_unread rfl entriesOf?_fiveAttempts]
    decide +kernel
  obtain ⟨i, hi, hthree⟩ := Option.map_eq_some_iff.1 hattempts
  rw [toOption_eq_some_iff] at hi
  have hgiven : given? fiveEntries "provider_max_retries" = some (.int 5) := by cbv
  refine ⟨i, hi, ?_, hgiven, hthree, fun hpolicy => ?_⟩
  · rw [configuration?, entriesOf?_fiveAttempts]
    rfl
  · have hfive := hpolicy.attempts_given _ hgiven
    rw [hthree] at hfive
    cases hfive

end SpecTree.Registry
