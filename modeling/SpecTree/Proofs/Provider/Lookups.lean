import Mathlib
import SpecTree.Proofs.Text.Conversions
import SpecTree.Provider.Registry

/-!
# Looking up providers

What a registry gives out depends on what has been done with it (`lookups_consistent`).

1. `Action` is what can be done, `after` what it leaves behind. `Since` says that something happened after
   which nothing was registered under a name.
2. `registration_cases` and `lookup_cases` say what an action can do: it registers a name, or it looks a
   provider up, also by way of a configuration file, and adds one instance at most.
3. A factory is the one that was registered last (`factory_iff`), no alias leads astray
   (`exists_factory_of_alias`), and an instance is the one that a look-up returned since (`instance_iff`),
   built from this factory by the first of these look-ups (`exists_built`).
-/

namespace SpecTree.Registry

variable {π : Type}

/-! ## What is done with a registry -/

inductive Action (π : Type) where
  | register (name : String) (factory : Settings → Except Failure π) (aliases : List String)
  | get (name : String) (settings : Settings)
  | configure (s : Store) (path : String) (base : Settings)

/-- The name under which an action registers a factory. -/
def Action.registered? : Action π → Option String
  | .register name _ _ => some (Text.lower name)
  | _ => none

def step (r : Registry π) : Action π → Registry π
  | .register name factory aliases => (r.register name factory aliases).1
  | .get name settings => (r.get name settings).1
  | .configure s path base => (r.ofConfiguration s path base).1

/-- The registry after some actions, which start with an empty one. -/
def after (h : List (Action π)) : Registry π := h.foldl step {}

theorem after_concat (h : List (Action π)) (q : Action π) : after (h ++ [q]) = (after h).step q := by
  rw [after, List.foldl_append]
  rfl

/-- After some action of which `P` holds, with the actions before it, nothing was registered under `c`. -/
def Since (h : List (Action π)) (c : String) (P : List (Action π) → Action π → Prop) : Prop :=
  ∃ before q later, h = before ++ q :: later ∧ P before q ∧ ∀ x ∈ later, x.registered? ≠ some c

/-- The factory is the one that was registered under `c` last. -/
def IsCurrent (h : List (Action π)) (c : String) (factory : Settings → Except Failure π) : Prop :=
  Since h c fun _ q => ∃ name aliases, q = .register name factory aliases ∧ Text.lower name = c

def IsRegistered (h : List (Action π)) (c : String) : Prop := ∃ q ∈ h, q.registered? = some c

section Since

variable {h : List (Action π)} {c : String} {P Q : List (Action π) → Action π → Prop}

theorem not_since_nil : ¬Since [] c P := by
  rintro ⟨before, q, later, h, -⟩
  cases before <;> cases h

theorem since_concat (q : Action π) :
    Since (h ++ [q]) c P ↔ P h q ∨ (q.registered? ≠ some c ∧ Since h c P) := by
  constructor
  · rintro ⟨before, q', later, hsplit, hp, hlater⟩
    rcases later.eq_nil_or_concat with rfl | ⟨later, x, rfl⟩
    · obtain ⟨rfl, hq⟩ := List.append_inj' hsplit rfl
      cases hq
      exact .inl hp
    · rw [List.concat_eq_append] at hsplit hlater
      rw [← List.cons_append, ← List.append_assoc] at hsplit
      obtain ⟨rfl, hx⟩ := List.append_inj' hsplit rfl
      cases hx
      obtain ⟨hlater, hq⟩ := List.forall_mem_append.1 hlater
      exact .inr ⟨hq q List.mem_cons_self, before, q', later, rfl, hp, hlater⟩
  · rintro (hp | ⟨hq, before, q', later, rfl, hp, hlater⟩)
    · exact ⟨h, q, [], rfl, hp, List.forall_mem_nil _⟩
    · refine ⟨before, q', later ++ [q], by simp, hp, ?_⟩
      exact List.forall_mem_append.2 ⟨hlater, List.forall_mem_singleton.2 hq⟩

/-- What has happened since a registration is not changed by actions that register other names. -/
theorem Since.append (hs : Since h c P) {later : List (Action π)}
    (hl : ∀ x ∈ later, x.registered? ≠ some c) : Since (h ++ later) c P := by
  obtain ⟨before, q, middle, rfl, hp, hmiddle⟩ := hs
  exact ⟨before, q, middle ++ later, by simp, hp, List.forall_mem_append.2 ⟨hmiddle, hl⟩⟩

end Since

/-! ## Registering -/

theorem addAlias_fields (r : Registry π) (name written : String) :
    (r.addAlias name written).1 = { r with aliases := r.aliases.put (Text.lower written) name } := rfl

/-- Adding aliases changes nothing else, and they all lead to the name. -/
theorem addAliases_fields (r : Registry π) (name : String) (ws : List String) :
    ∃ t, (r.addAliases name ws).1 = { r with aliases := t } ∧
      ∀ a c, t.get? a = some c → c = name ∨ r.aliases.get? a = some c := by
  induction ws generalizing r with
  | nil => exact ⟨r.aliases, rfl, fun a c h => .inr h⟩
  | cons w ws ih =>
    obtain ⟨t, ht, halias⟩ := ih (r.addAlias name w).1
    refine ⟨t, ht, fun a c h => ?_⟩
    rcases halias a c h with h | h
    · exact .inl h
    · rw [addAlias_fields, Table.get?_put] at h
      split at h
      · exact .inl (Option.some.inj h).symm
      · exact .inr h

theorem register_fields (r : Registry π) (name : String) (factory : Settings → Except Failure π)
    (ws : List String) :
    ∃ t, (r.register name factory ws).1 =
        { r with
          factories := r.factories.put (Text.lower name) factory
          instances := r.instances.filter (·.1 ≠ Text.lower name)
          aliases := t } ∧
      ∀ a c, t.get? a = some c → c = Text.lower name ∨ r.aliases.get? a = some c :=
  addAliases_fields _ _ ws

/-- **Registering.** An action that registers a name replaces its factory, discards its instance and makes
aliases of it. -/
theorem registration_cases (r : Registry π) {q : Action π} {n : String} (hq : q.registered? = some n) :
    ∃ name factory aliases t, q = .register name factory aliases ∧ Text.lower name = n ∧
      r.step q =
        { r with
          factories := r.factories.put n factory
          instances := r.instances.filter (·.1 ≠ n)
          aliases := t } ∧
      ∀ a c, t.get? a = some c → c = n ∨ r.aliases.get? a = some c := by
  cases q with
  | register name factory aliases =>
    obtain rfl : Text.lower name = n := Option.some.inj hq
    obtain ⟨t, ht, halias⟩ := register_fields r name factory aliases
    exact ⟨name, factory, aliases, t, rfl, rfl, ht, halias⟩
  | get | configure => cases hq

theorem lookup_filter_ne {α : Type} (name c : String) (xs : List (String × α)) :
    (xs.filter (·.1 ≠ name)).lookup c = if c = name then none else xs.lookup c := by
  induction xs with
  | nil => simp
  | cons x xs ih =>
    obtain ⟨n, v⟩ := x
    by_cases hn : n = name
    · subst hn
      rw [List.filter_cons_of_neg (by simp), ih, lookup_cons]
      split <;> rfl
    · rw [List.filter_cons_of_pos (by simpa using hn), lookup_cons, lookup_cons, ih]
      by_cases hc : c = n
      · rw [if_pos hc, if_pos hc, if_neg (hc ▸ hn)]
      · rw [if_neg hc, if_neg hc]

/-! ## Looking up -/

/-- The ways in which a look-up goes, and what it leaves behind and returns. -/
inductive Got (r : Registry π) (name : String) (settings : Settings) :
    Registry π × Except Failure (Instance π) → Prop where
  | unknown : r.resolve? name = none → Got r name settings (r, .error (r.unknown name))
  | kept {c : String} {i : Instance π} : r.resolve? name = some c → r.instances.lookup c = some i →
      Got r name settings (r, .ok i)
  | built {c : String} {factory : Settings → Except Failure π} {p : π} : r.resolve? name = some c →
      r.instances.lookup c = none → r.factories.get? c = some factory → factory settings = .ok p →
      Got r name settings
        ({ r with instances := (c, ⟨r.built, p, settings.callPolicy⟩) :: r.instances, built := r.built + 1 },
          .ok ⟨r.built, p, settings.callPolicy⟩)
  | failed {c : String} {factory : Settings → Except Failure π} {e : Failure} : r.resolve? name = some c →
      r.instances.lookup c = none → r.factories.get? c = some factory → factory settings = .error e →
      Got r name settings (r, .error e)
  | dangling {c : String} : r.resolve? name = some c → r.instances.lookup c = none →
      r.factories.get? c = none → Got r name settings (r, .error (r.unknown name))

theorem get_got (r : Registry π) (name : String) (settings : Settings) :
    Got r name settings (r.get name settings) := by
  unfold get
  cases hresolve : r.resolve? name with
  | none => exact .unknown hresolve
  | some c =>
    dsimp only
    cases hlookup : r.instances.lookup c with
    | some i => exact .kept hresolve hlookup
    | none =>
      cases hfactory : r.factories.get? c with
      | none => exact .dangling hresolve hlookup hfactory
      | some factory =>
        dsimp only
        cases hbuild : factory settings with
        | error e => exact .failed hresolve hlookup hfactory hbuild
        | ok p => exact .built hresolve hlookup hfactory hbuild

/-! ## Configuration files -/

/-- The name of the provider that a configuration file gives. -/
def providerName (entries : List (Yaml.Value × Yaml.Value)) : String :=
  (entries.findSome? fun (key, value) =>
    match key with
    | .text "provider" => some value.display
    | _ => none).getD ""

/-- The name and the settings by which a configuration file looks a provider up. -/
def lookupOf (base : Settings) (entries : List (Yaml.Value × Yaml.Value)) : Option (String × Settings) :=
  match overrides entries with
  | .ok values => (base.override? values).map (providerName entries, ·)
  | .error _ => none

/-- The entries of a file that is a configuration. -/
def entriesOf? (s : Store) (path : String) : Option (List (Yaml.Value × Yaml.Value)) :=
  match s.readText path with
  | .error _ => none
  | .ok text =>
    match Yaml.read text with
    | .ok (.map entries) =>
      if entries.any fun (key, _) => key matches .text "provider" then some entries else none
    | _ => none

theorem isPresent_of_readText {s : Store} {path text : String} (h : s.readText path = .ok text) :
    s.isPresent path = .ok true := by
  rw [Store.readText] at h
  rw [Store.isPresent, Store.ask]
  cases hf : s.find true path with
  | ok found => rfl
  | error e =>
    rw [hf] at h
    cases h

/-- **A configuration file is read once**: its entries are there, or they are read, or they cannot be read. -/
theorem readConfiguration_cases (r : Registry π) (s : Store) (path : String) :
    (∃ entries, r.configurations.lookup (s.canonical path) = some entries ∧
      r.readConfiguration s path = (r, .ok entries)) ∨
    (∃ entries, r.configurations.lookup (s.canonical path) = none ∧ entriesOf? s path = some entries ∧
      r.readConfiguration s path =
        ({ r with configurations := (s.canonical path, entries) :: r.configurations }, .ok entries)) ∨
    ∃ e, r.configurations.lookup (s.canonical path) = none ∧ entriesOf? s path = none ∧
      r.readConfiguration s path = (r, .error e) := by
  unfold readConfiguration
  dsimp only
  cases hlookup : r.configurations.lookup (s.canonical path) with
  | some entries => exact .inl ⟨entries, rfl, rfl⟩
  | none =>
    refine .inr ?_
    unfold entriesOf?
    cases hread : s.readText path with
    | error e =>
      refine .inr ?_
      dsimp only
      split <;> exact ⟨_, rfl, rfl, rfl⟩
    | ok text =>
      rw [isPresent_of_readText hread]
      dsimp only
      cases Yaml.read text with
      | error e => exact .inr ⟨_, rfl, rfl, rfl⟩
      | ok value =>
        cases value with
        | map entries =>
          by_cases hkey : entries.any (fun (key, _) => key matches .text "provider") = true
          · exact .inl ⟨entries, rfl, if_pos hkey, if_pos hkey⟩
          · exact .inr ⟨_, rfl, if_neg hkey, if_neg hkey⟩
        | _ => exact .inr ⟨_, rfl, rfl, rfl⟩

/-- Reading a configuration file changes nothing but what is remembered of files. -/
theorem readConfiguration_fields (r : Registry π) (s : Store) (path : String) :
    ∃ files, (r.readConfiguration s path).1 = { r with configurations := files } := by
  obtain ⟨entries, -, h⟩ | ⟨entries, -, -, h⟩ | ⟨e, -, -, h⟩ := readConfiguration_cases r s path <;>
    exact ⟨_, congrArg Prod.fst h⟩

/-- The name and the settings by which an action looks a provider up. -/
def asks (r : Registry π) : Action π → Option (String × Settings)
  | .register _ _ _ => none
  | .get name settings => some (name, settings)
  | .configure s path base =>
    match (r.readConfiguration s path).2 with
    | .ok entries => lookupOf base entries
    | .error _ => none

/-- The canonical name and the settings by which an action looks a provider up. -/
def wants (r : Registry π) (q : Action π) : Option (String × Settings) :=
  (asks r q).bind fun (name, settings) => (r.resolve? name).map (·, settings)

theorem wants_eq {r : Registry π} {q : Action π} {name c : String} {settings : Settings}
    (hasks : asks r q = some (name, settings)) (hname : r.resolve? name = some c) :
    wants r q = some (c, settings) := by
  rw [wants, hasks, Option.bind_some]
  dsimp only
  rw [hname]
  rfl

/-- The instance that an action returns. -/
def answer (r : Registry π) : Action π → Option (Instance π)
  | .register _ _ _ => none
  | .get name settings => (r.get name settings).2.toOption
  | .configure s path base => (r.ofConfiguration s path base).2.toOption

theorem toOption_mapError {ε ε' α : Type} (f : ε → ε') (x : Except ε α) :
    (x.mapError f).toOption = x.toOption := by
  cases x <;> rfl

theorem toOption_eq_some_iff {ε α : Type} {x : Except ε α} {a : α} : x.toOption = some a ↔ x = .ok a := by
  cases x with
  | error e => exact ⟨nofun, nofun⟩
  | ok b => exact ⟨fun h => congrArg Except.ok (Option.some.inj h), fun h => congrArg some (Except.ok.inj h)⟩

/-- **A configuration file leads to a look-up** by the name and the settings that it gives, or nothing but the
reading of it is done. -/
theorem ofConfiguration_cases (r : Registry π) (s : Store) (path : String) (base : Settings) :
    (∃ e, r.ofConfiguration s path base = ((r.readConfiguration s path).1, .error e)) ∨
    ∃ entries values settings, (r.readConfiguration s path).2 = .ok entries ∧
      overrides entries = .ok values ∧ base.override? values = some settings ∧
      r.ofConfiguration s path base =
        ((get (r.readConfiguration s path).1 (providerName entries) settings).1,
          (get (r.readConfiguration s path).1 (providerName entries) settings).2.mapError .provider) := by
  unfold ofConfiguration
  generalize r.readConfiguration s path = read
  obtain ⟨r', entries⟩ := read
  cases entries with
  | error e => exact .inl ⟨e, rfl⟩
  | ok entries =>
    dsimp only
    cases hvalues : overrides entries with
    | error e => exact .inl ⟨e, rfl⟩
    | ok values =>
      dsimp only
      cases hsettings : base.override? values with
      | none => exact .inl ⟨_, rfl⟩
      | some settings => exact .inr ⟨entries, values, settings, rfl, hvalues, hsettings, rfl⟩

/-- What an action that registers nothing does with the instances. -/
inductive LookedUp (r : Registry π) (q : Action π) : Prop where
  | idle : (r.step q).instances = r.instances → answer r q = none → LookedUp r q
  | kept {c : String} {settings : Settings} {i : Instance π} : wants r q = some (c, settings) →
      r.instances.lookup c = some i → (r.step q).instances = r.instances → answer r q = some i → LookedUp r q
  | built {c : String} {settings : Settings} {factory : Settings → Except Failure π} {i : Instance π} :
      wants r q = some (c, settings) → r.instances.lookup c = none → r.factories.get? c = some factory →
      factory settings = .ok i.provider → i.policy = settings.callPolicy →
      (r.step q).instances = (c, i) :: r.instances → answer r q = some i → LookedUp r q

/-- An action that looks up what it asks for, once it has read some files, leaves the names alone. -/
theorem lookedUp_of_get {r : Registry π} {q : Action π} {name : String} {settings : Settings}
    {files : List (String × List (Yaml.Value × Yaml.Value))} (hasks : asks r q = some (name, settings))
    (hstep : r.step q = (get { r with configurations := files } name settings).1)
    (hanswer : answer r q = (get { r with configurations := files } name settings).2.toOption) :
    (r.step q).factories = r.factories ∧ (r.step q).aliases = r.aliases ∧ LookedUp r q := by
  have hgot := get_got { r with configurations := files } name settings
  generalize get { r with configurations := files } name settings = out at hgot hstep hanswer
  rw [hstep]
  cases hgot with
  | unknown | failed | dangling => exact ⟨rfl, rfl, .idle (by rw [hstep]) hanswer⟩
  | kept hresolve hlookup => exact ⟨rfl, rfl, .kept (wants_eq hasks hresolve) hlookup (by rw [hstep]) hanswer⟩
  | built hresolve hlookup hfactory hbuild =>
    exact ⟨rfl, rfl,
      .built (wants_eq hasks hresolve) hlookup hfactory hbuild rfl (by rw [hstep]) hanswer⟩

/-- **Looking up.** An action that registers nothing leaves the names alone and adds one instance at most. -/
theorem lookup_cases (r : Registry π) {q : Action π} (hq : q.registered? = none) :
    (r.step q).factories = r.factories ∧ (r.step q).aliases = r.aliases ∧ LookedUp r q := by
  cases q with
  | register => cases hq
  | get name settings => exact @lookedUp_of_get π r _ name settings r.configurations rfl rfl rfl
  | configure s path base =>
    obtain ⟨files, hfiles⟩ := readConfiguration_fields r s path
    obtain ⟨e, h⟩ | ⟨entries, values, settings, hread, hvalues, hsettings, h⟩ :=
      ofConfiguration_cases r s path base
    · have hstep : r.step (.configure s path base) = { r with configurations := files } := by
        rw [step, h, ← hfiles]
      rw [hstep]
      exact ⟨rfl, rfl, .idle (by rw [hstep]) (by rw [answer, h]; rfl)⟩
    · refine @lookedUp_of_get π r _ (providerName entries) settings files ?_ ?_ ?_
      · rw [asks, hread]
        dsimp only
        rw [lookupOf, hvalues]
        dsimp only
        rw [hsettings, Option.map_some]
      · rw [step, h, hfiles]
      · rw [answer, h, hfiles, toOption_mapError]

/-! ## Names -/

/-- **A factory is the one that was registered last.** -/
theorem factory_iff (h : List (Action π)) (c : String) (factory : Settings → Except Failure π) :
    (after h).factories.get? c = some factory ↔ IsCurrent h c factory := by
  induction h using List.reverseRecOn with
  | nil => exact iff_of_false nofun not_since_nil
  | append_singleton h q ih =>
    rw [IsCurrent, since_concat, after_concat, ← IsCurrent, ← ih]
    cases hq : q.registered? with
    | none =>
      rw [(lookup_cases _ hq).1]
      refine ⟨fun hf => .inr ⟨nofun, hf⟩, ?_⟩
      rintro (⟨name, aliases, rfl, -⟩ | ⟨-, hf⟩)
      · cases hq
      · exact hf
    | some n =>
      obtain ⟨name, factory', aliases, t, rfl, hname, hstep, -⟩ := registration_cases (after h) hq
      rw [hstep, Table.get?_put]
      by_cases hc : c = n
      · subst hc
        rw [if_pos rfl]
        constructor
        · intro hf
          cases hf
          exact .inl ⟨name, aliases, rfl, hname⟩
        · rintro (⟨_, _, hr, -⟩ | ⟨hne, -⟩)
          · cases hr
            rfl
          · exact absurd rfl hne
      · rw [if_neg hc]
        refine ⟨fun hf => .inr ⟨fun he => hc (Option.some.inj he).symm, hf⟩, ?_⟩
        rintro (⟨_, _, hr, hname'⟩ | ⟨-, hf⟩)
        · cases hr
          exact absurd (hname'.symm.trans hname) hc
        · exact hf

theorem isRegistered_iff (h : List (Action π)) (c : String) :
    IsRegistered h c ↔ ∃ factory, IsCurrent h c factory := by
  constructor
  · intro hr
    induction h using List.reverseRecOn with
    | nil =>
      obtain ⟨q, hq, -⟩ := hr
      cases hq
    | append_singleton h q ih =>
      by_cases hq : q.registered? = some c
      · obtain ⟨name, factory, aliases, -, hr, hname, -⟩ := registration_cases (after h) hq
        exact ⟨factory, (since_concat q).2 (.inl ⟨name, aliases, hr, hname⟩)⟩
      · obtain ⟨x, hx, hc⟩ := hr
        rw [List.mem_append, List.mem_singleton] at hx
        obtain hx | rfl := hx
        · obtain ⟨factory, hf⟩ := ih ⟨x, hx, hc⟩
          exact ⟨factory, (since_concat q).2 (.inr ⟨hq, hf⟩)⟩
        · exact absurd hc hq
  · rintro ⟨factory, before, q, later, rfl, ⟨name, aliases, rfl, hname⟩, -⟩
    exact ⟨.register name factory aliases, by simp, congrArg some hname⟩

/-- No alias leads to a name that is not registered. -/
theorem exists_factory_of_alias {h : List (Action π)} {a c : String}
    (ha : (after h).aliases.get? a = some c) : ∃ factory, (after h).factories.get? c = some factory := by
  induction h using List.reverseRecOn with
  | nil => cases ha
  | append_singleton h q ih =>
    rw [after_concat] at ha ⊢
    cases hq : q.registered? with
    | none =>
      rw [(lookup_cases _ hq).2.1] at ha
      rw [(lookup_cases _ hq).1]
      exact ih ha
    | some n =>
      obtain ⟨_, factory, _, t, -, -, hstep, halias⟩ := registration_cases (after h) hq
      rw [hstep] at ha ⊢
      rw [Table.get?_put]
      by_cases hc : c = n
      · exact ⟨factory, if_pos hc⟩
      · rw [if_neg hc]
        exact ih ((halias a c ha).resolve_left hc)

theorem lower_of_isRegistered {h : List (Action π)} {c : String} (hc : IsRegistered h c) :
    Text.lower c = c := by
  obtain ⟨q, -, hq⟩ := hc
  obtain ⟨name, -, -, -, -, rfl, -⟩ := registration_cases (after h) hq
  exact Text.lower_lower name

theorem isSome_factory_iff (h : List (Action π)) (c : String) :
    ((after h).factories.get? c).isSome ↔ IsRegistered h c := by
  simp only [Option.isSome_iff_exists, factory_iff, isRegistered_iff]

/-- **Every name stands for one that is registered**, also where it is an alias. -/
theorem isRegistered_of_resolve? {h : List (Action π)} {name c : String}
    (hc : (after h).resolve? name = some c) : IsRegistered h c := by
  rw [← isSome_factory_iff]
  unfold resolve? at hc
  dsimp only at hc
  split at hc
  · next hname =>
    cases hc
    exact hname
  · exact Option.isSome_iff_exists.2 (exists_factory_of_alias hc)

/-- **A registered name stands for itself**, whatever it is an alias of. -/
theorem resolve?_of_isRegistered {h : List (Action π)} {c : String} (hc : IsRegistered h c) :
    (after h).resolve? c = some c := by
  rw [resolve?, lower_of_isRegistered hc]
  exact if_pos ((isSome_factory_iff h c).2 hc)

/-! ## Instances -/

/-- The action looks the provider `c` up and returns the instance. -/
def Returns (r : Registry π) (q : Action π) (c : String) (i : Instance π) : Prop :=
  (∃ settings, wants r q = some (c, settings)) ∧ answer r q = some i

theorem LookedUp.lookup_iff {r : Registry π} {q : Action π} (h : LookedUp r q) (c : String) (i : Instance π) :
    (r.step q).instances.lookup c = some i ↔ Returns r q c i ∨ r.instances.lookup c = some i := by
  cases h with
  | idle hstep hanswer =>
    rw [hstep]
    refine ⟨.inr, ?_⟩
    rintro (⟨-, ha⟩ | hi)
    · rw [hanswer] at ha
      cases ha
    · exact hi
  | kept hwants hlookup hstep hanswer =>
    rw [hstep]
    refine ⟨.inr, ?_⟩
    rintro (⟨⟨_, hw⟩, ha⟩ | hi)
    · rw [hwants] at hw
      rw [hanswer] at ha
      cases hw
      cases ha
      exact hlookup
    · exact hi
  | @built c' settings factory i' hwants hlookup _ _ _ hstep hanswer =>
    rw [hstep, lookup_cons]
    by_cases hc : c = c'
    · subst hc
      rw [if_pos rfl, hlookup]
      constructor
      · intro hi
        cases hi
        exact .inl ⟨⟨settings, hwants⟩, hanswer⟩
      · rintro (⟨-, ha⟩ | hi)
        · exact hanswer.symm.trans ha
        · cases hi
    · rw [if_neg hc]
      refine ⟨.inr, ?_⟩
      rintro (⟨⟨_, hw⟩, -⟩ | hi)
      · rw [hwants] at hw
        cases hw
        exact absurd rfl hc
      · exact hi

/-- **An instance is the one that a look-up returned** since its name was registered. -/
theorem instance_iff (h : List (Action π)) (c : String) (i : Instance π) :
    (after h).instances.lookup c = some i ↔ Since h c fun before q => Returns (after before) q c i := by
  induction h using List.reverseRecOn with
  | nil => exact iff_of_false nofun not_since_nil
  | append_singleton h q ih =>
    rw [since_concat, after_concat, ← ih]
    cases hq : q.registered? with
    | none =>
      rw [(lookup_cases _ hq).2.2.lookup_iff]
      exact or_congr_right (iff_and_self.2 fun _ => nofun)
    | some n =>
      obtain ⟨name, factory, aliases, t, rfl, -, hstep, -⟩ := registration_cases (after h) hq
      have hnot : ¬Returns (after h) (.register name factory aliases) c i := fun hr => by cases hr.2
      rw [hstep, lookup_filter_ne, or_iff_right hnot]
      by_cases hc : c = n
      · rw [if_pos hc, hc]
        exact iff_of_false nofun fun hi => hi.1 rfl
      · rw [if_neg hc]
        exact iff_and_self.2 fun _ he => hc (Option.some.inj he).symm

/-- **An instance was built by the first look-up** after its name was registered, from the factory that is
still registered and with the settings of this look-up. -/
theorem exists_built {h : List (Action π)} {c : String} {i : Instance π}
    (hi : (after h).instances.lookup c = some i) :
    Since h c fun before q => ∃ settings factory, wants (after before) q = some (c, settings) ∧
      (after before).instances.lookup c = none ∧ answer (after before) q = some i ∧
      IsCurrent before c factory ∧ factory settings = .ok i.provider ∧ i.policy = settings.callPolicy := by
  induction h using List.reverseRecOn with
  | nil => cases hi
  | append_singleton h q ih =>
    rw [since_concat]
    rw [after_concat] at hi
    cases hq : q.registered? with
    | none =>
      have hsame (hstep : ((after h).step q).instances = (after h).instances) :
          (after h).instances.lookup c = some i := hstep ▸ hi
      cases (lookup_cases (after h) hq).2.2 with
      | idle hstep _ => exact .inr ⟨nofun, ih (hsame hstep)⟩
      | kept _ _ hstep _ => exact .inr ⟨nofun, ih (hsame hstep)⟩
      | @built c' settings factory i' hwants hlookup hfactory hbuild hpolicy hstep hanswer =>
        rw [hstep, lookup_cons] at hi
        by_cases hc : c = c'
        · subst hc
          rw [if_pos rfl] at hi
          cases hi
          exact .inl ⟨settings, factory, hwants, hlookup, hanswer, (factory_iff h c factory).1 hfactory,
            hbuild, hpolicy⟩
        · rw [if_neg hc] at hi
          exact .inr ⟨nofun, ih hi⟩
    | some n =>
      obtain ⟨_, _, _, t, -, -, hstep, -⟩ := registration_cases (after h) hq
      rw [hstep, lookup_filter_ne] at hi
      by_cases hc : c = n
      · rw [if_pos hc] at hi
        cases hi
      · rw [if_neg hc] at hi
        exact .inr ⟨fun he => hc (Option.some.inj he).symm, ih hi⟩

/-- An instance holds what the factory built that is registered now. -/
theorem exists_current_of_lookup {h : List (Action π)} {c : String} {i : Instance π}
    (hi : (after h).instances.lookup c = some i) :
    ∃ factory settings, IsCurrent h c factory ∧ factory settings = .ok i.provider ∧
      i.policy = settings.callPolicy := by
  obtain ⟨before, q, later, rfl, ⟨settings, factory, hwants, -, -, hf, hbuild, hpolicy⟩, hlater⟩ :=
    exists_built hi
  refine ⟨factory, settings, hf.append (List.forall_mem_cons.2 ⟨?_, hlater⟩), hbuild, hpolicy⟩
  cases q with
  | register => cases hwants
  | get | configure => nofun

/-! ## Look-ups by name -/

/-- A look-up returns what a look-up of the same name has returned since the name was registered. -/
theorem get_of_since {h : List (Action π)} {name c : String} {i : Instance π} (settings : Settings)
    (hname : (after h).resolve? name = some c)
    (hi : Since h c fun before q => Returns (after before) q c i) :
    ((after h).get name settings).2 = .ok i := by
  rw [← instance_iff] at hi
  rw [get, hname]
  dsimp only
  rw [hi]

/-- What a look-up returns is among the instances from then on. -/
theorem since_of_get {h : List (Action π)} {name c : String} {settings : Settings} {i : Instance π}
    (hname : (after h).resolve? name = some c) (hget : ((after h).get name settings).2 = .ok i) :
    Since (h ++ [.get name settings]) c fun before q => Returns (after before) q c i := by
  refine (since_concat _).2 (.inl ⟨⟨settings, wants_eq rfl hname⟩, ?_⟩)
  rw [answer, hget]
  rfl

/-- **Look-ups are consistent**, whatever has been done before: every name stands for a registered one, and a
registered name for itself; as long as a name is not registered again, all look-ups of it return what the first
one returned; and what they return was built by the factory that was registered last, as soon as it builds
anything. -/
theorem lookups_consistent (h : List (Action π)) :
    (∀ name c, (after h).resolve? name = some c → IsRegistered h c) ∧
    (∀ c, IsRegistered h c → (after h).resolve? c = some c) ∧
    (∀ name name' c settings settings' i m, (after h).resolve? name = some c →
      ((after h).get name settings).2 = .ok i → (∀ q ∈ m, q.registered? ≠ some c) →
      (after (h ++ .get name settings :: m)).resolve? name' = some c →
      ((after (h ++ .get name settings :: m)).get name' settings').2 = .ok i) ∧
    (∀ name settings i, ((after h).get name settings).2 = .ok i →
      ∃ c factory given, (after h).resolve? name = some c ∧ IsCurrent h c factory ∧
        factory given = .ok i.provider ∧ i.policy = given.callPolicy) ∧
    ∀ name settings c factory p, (after h).resolve? name = some c → IsCurrent h c factory →
      factory settings = .ok p → ∃ i, ((after h).get name settings).2 = .ok i := by
  refine ⟨fun name c => isRegistered_of_resolve?, fun c => resolve?_of_isRegistered, ?_, ?_, ?_⟩
  · intro name name' c settings settings' i m hname hget hm hname'
    refine get_of_since settings' hname' ?_
    rw [List.append_cons]
    exact (since_of_get hname hget).append hm
  · intro name settings i hget
    cases hname : (after h).resolve? name with
    | none =>
      rw [get, hname] at hget
      cases hget
    | some c =>
      have hi := (instance_iff _ c i).2 (since_of_get hname hget)
      obtain ⟨factory, given, hf, hbuild, hpolicy⟩ := exists_current_of_lookup hi
      obtain ⟨_, _, hr, -⟩ | ⟨-, hf⟩ := (since_concat _).1 hf
      · cases hr
      · exact ⟨c, factory, given, rfl, hf, hbuild, hpolicy⟩
  · intro name settings c factory p hname hf hbuild
    rw [get, hname]
    dsimp only
    rw [(factory_iff h c factory).2 hf]
    cases (after h).instances.lookup c with
    | some i => exact ⟨i, rfl⟩
    | none =>
      dsimp only
      rw [hbuild]
      exact ⟨_, rfl⟩

/-- A name that was an alias of another provider stands for itself once it is registered. -/
example (f : Settings → Except Failure π) :
    (after [.register "a" f ["b"], .register "B" f []]).resolve? "b" = some "b" := by cbv

end SpecTree.Registry
