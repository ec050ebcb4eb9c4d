import Mathlib.Data.List.Forall2
import Mathlib.Data.List.Nodup
import Mathlib.Data.List.Perm.Basic
import Mathlib.Data.String.Basic
import SpecTree.Context.Changes
import SpecTree.Proofs.Json.Artifacts

/-!
# What a fingerprint tells of a context

Two contexts have one fingerprint just if they have the same interfaces, the same names to forward, and the
same keys of constraints, suggestions and utilities, each in any order (`canonicalJson_eq_iff`).

1. So neither order nor origins matter (`fingerprint_of_rearranged`).
2. A key has the whole of what it stands for, unless a mark that separates its parts stands in one of them
   (`constraintKey_eq_iff`, `utilityKey_eq_iff`). But for that, contexts with one fingerprint say the same
   (`same_of_fingerprint_eq`).
-/

namespace SpecTree

/-! ## Lists in order -/

/-- **To be put in order by keys of their own is to be the same up to order.** -/
theorem mergeSort_eq_iff_perm {α : Type} (key : α → String) {xs ys : List α}
    (hkey : ∀ a ∈ xs, ∀ b ∈ xs, key a = key b → a = b) :
    xs.mergeSort (fun a b => key a ≤ key b) = ys.mergeSort (fun a b => key a ≤ key b) ↔ xs.Perm ys := by
  have hsorted (zs : List α) :
      (zs.mergeSort fun a b => key a ≤ key b).Pairwise fun a b => key a ≤ key b := by
    have := @List.pairwise_mergeSort α (fun a b => decide (key a ≤ key b))
      (by simpa using fun a b c hab hbc => @le_trans String _ (key a) (key b) (key c) hab hbc)
      (by simpa using fun a b => le_total (key a) (key b)) zs
    simpa using this
  constructor
  · intro h
    exact (List.mergeSort_perm xs _).symm.trans (h ▸ List.mergeSort_perm ys _)
  · intro h
    refine List.Perm.eq_of_pairwise (fun a b ha hb hab hba => ?_) (hsorted xs) (hsorted ys)
      ((List.mergeSort_perm xs _).trans (h.trans (List.mergeSort_perm ys _).symm))
    exact hkey a (List.mem_mergeSort.1 ha) b (h.mem_iff.2 (List.mem_mergeSort.1 hb)) (le_antisymm hab hba)

/-- Where one thing tells another of each item, lists with the same of the one have the same of the other. -/
theorem perm_map_of_perm_map {α β γ : Type} {f : α → β} {g : α → γ} {xs ys : List α}
    (h : (xs.map f).Perm (ys.map f)) (hfg : ∀ x ∈ xs, ∀ y ∈ ys, f x = f y → g x = g y) :
    (xs.map g).Perm (ys.map g) := by
  have hkeys : List.Forall₂ (fun k y => k = f y) (ys.map f) ys :=
    List.forall₂_map_left_iff.2 (List.forall₂_same.2 fun _ _ => rfl)
  -- The second list in the order in which the first one has the keys.
  obtain ⟨zs, hzs, hperm⟩ := List.perm_comp_forall₂ h hkeys
  have hsame : List.Forall₂ (fun x z => g x = g z) xs zs := by
    have hzs := List.forall₂_map_left_iff.1 hzs
    refine (List.forall₂_iff_get.2 ⟨hzs.length_eq, fun i hi hi' => ?_⟩)
    exact hfg _ (List.get_mem ..) _ (hperm.subset (List.get_mem ..)) (hzs.get hi hi')
  have hmap : xs.map g = zs.map g := by
    rw [← List.forall₂_eq_eq_eq, List.forall₂_map_left_iff, List.forall₂_map_right_iff]
    exact hsame
  exact hmap ▸ hperm.map g

/-! ## Tables -/

theorem Table.get?_eq_some_iff {α : Type} (t : Table α) (name : String) (value : α) :
    t.get? name = some value ↔ (name, value) ∈ t.entries := by
  obtain ⟨entries, distinct⟩ := t
  show entries.lookup name = some value ↔ (name, value) ∈ entries
  induction entries with
  | nil => simp
  | cons x rest ih =>
    obtain ⟨n, v⟩ := x
    obtain ⟨hn, hrest⟩ := List.nodup_cons.1 distinct
    rw [lookup_cons, List.mem_cons, Prod.mk.injEq]
    split
    · next h =>
      subst h
      have hout : (name, value) ∉ rest := fun hm => hn (List.mem_map.2 ⟨(name, value), hm, rfl⟩)
      simp [hout, eq_comm]
    · next h => simp [h, ih hrest]

/-- **Tables with the same entries have the same values under all names**, and no others have. -/
theorem Table.perm_entries_iff {α : Type} {s t : Table α} :
    s.entries.Perm t.entries ↔ ∀ name, s.get? name = t.get? name := by
  rw [List.perm_ext_iff_of_nodup (List.Nodup.of_map _ s.distinct) (List.Nodup.of_map _ t.distinct)]
  constructor
  · intro h name
    refine Option.ext fun value => ?_
    rw [s.get?_eq_some_iff, t.get?_eq_some_iff, h]
  · rintro h ⟨name, value⟩
    rw [← s.get?_eq_some_iff, ← t.get?_eq_some_iff, h]

/-! ## Texts of values -/

theorem Json.compact_inj {j k : Json} (hj : IsPlain j) (hk : IsPlain k) :
    j.compact = k.compact ↔ j = k := by
  refine ⟨fun h => Except.ok.inj ((read_compact hj).symm.trans ?_), fun h => h ▸ rfl⟩
  rw [h, read_compact hk]

namespace Context

open Json

theorem strings_inj {xs ys : List String} : strings xs = strings ys ↔ xs = ys := by
  rw [strings, strings, Json.arr.injEq, List.map_inj_right]
  exact fun _ _ h => Json.str.inj h

theorem forwarding_inj {f g : Option (List String)} :
    f.elim Json.null strings = g.elim Json.null strings ↔ f = g := by
  cases f with
  | none => cases g <;> simp [strings]
  | some xs =>
    cases g with
    | none => simp [strings]
    | some ys => simpa using @strings_inj xs ys

theorem interfaces_inj {xs ys : List (String × Interface)} :
    (xs.map fun (name, i) => (name, strings [i.source, i.definition]))
      = (ys.map fun (name, i) => (name, strings [i.source, i.definition])) ↔ xs = ys := by
  refine List.map_inj_right ?_
  rintro ⟨name, source, definition⟩ ⟨name', source', definition'⟩ h
  simpa [strings] using h

theorem shallow_canonicalJson (c : Context) : Shallow 3 c.canonicalJson := by
  have htexts (xs : List String) : Shallow 2 (strings xs) := (shallow_texts xs).mono (by decide)
  have hi : Shallow 2 (.obj ((c.interfaces.entries.mergeSort fun a b => a.1 ≤ b.1).map
      fun (name, i) => (name, strings [i.source, i.definition]))) := by
    refine shallow_obj ?_ fun m hm => ?_
    · rw [List.map_map]
      exact ((List.mergeSort_perm ..).map _).nodup_iff.2 c.interfaces.distinct
    · obtain ⟨x, -, rfl⟩ := List.mem_map.1 hm
      exact shallow_texts _
  have hf : Shallow 2 (c.forwarding.elim .null strings) := by
    cases c.forwarding with
    | none => exact shallow_null
    | some names => exact htexts names
  refine shallow_obj (by simp) ?_
  simp only [List.forall_mem_cons]
  exact ⟨htexts _, hf, hi, htexts _, htexts _, nofun⟩

/-! ## What a fingerprint is made of -/

theorem sortTexts_eq_iff {xs ys : List String} : sortTexts xs = sortTexts ys ↔ xs.Perm ys :=
  mergeSort_eq_iff_perm id fun _ _ _ _ h => h

/-- The names of a table are distinct, so that they put its entries in order. -/
theorem sorted_entries_eq_iff {s t : Table Interface} :
    (s.entries.mergeSort fun a b => a.1 ≤ b.1) = (t.entries.mergeSort fun a b => a.1 ≤ b.1)
      ↔ s.entries.Perm t.entries :=
  mergeSort_eq_iff_perm Prod.fst fun _ ha _ hb h => List.inj_on_of_nodup_map s.distinct ha hb h

/-- **What two contexts must have in common to be written alike.** -/
theorem canonicalJson_eq_iff {a b : Context} : a.canonicalJson = b.canonicalJson ↔
    a.interfaces.entries.Perm b.interfaces.entries ∧
    (a.constraints.map constraintKey).Perm (b.constraints.map constraintKey) ∧
    (a.suggestions.map Suggestion.rule).Perm (b.suggestions.map Suggestion.rule) ∧
    (a.utilities.map utilityKey).Perm (b.utilities.map utilityKey) ∧
    a.forwarding = b.forwarding := by
  simp only [canonicalJson, Json.obj.injEq, List.cons.injEq, Prod.mk.injEq, true_and, and_true,
    strings_inj, sortTexts_eq_iff, forwarding_inj, interfaces_inj, sorted_entries_eq_iff]
  tauto

/-- Under a digest that tells all texts apart, so must contexts with one fingerprint. -/
theorem fingerprint_eq_iff {digest : String → String} (hd : Function.Injective digest) {a b : Context} :
    a.fingerprint digest = b.fingerprint digest ↔ a.canonicalJson = b.canonicalJson := by
  rw [fingerprint, fingerprint, hd.eq_iff,
    compact_inj a.shallow_canonicalJson.plain b.shallow_canonicalJson.plain]

/-! ## Order and origins -/

/-- **Order and origins do not matter.** Contexts that have the same interfaces, rules and utilities in any
order, wherever constraints, suggestions and utilities come from and wherever utilities are, have one
fingerprint under every digest. -/
theorem fingerprint_of_rearranged (digest : String → String) {a b : Context}
    (hi : a.interfaces.entries.Perm b.interfaces.entries)
    (hc : (a.constraints.map fun c => (c.rule, c.important)).Perm
      (b.constraints.map fun c => (c.rule, c.important)))
    (hs : (a.suggestions.map fun s => s.rule).Perm (b.suggestions.map fun s => s.rule))
    (hu : (a.utilities.map fun u => (u.name, u.signature)).Perm
      (b.utilities.map fun u => (u.name, u.signature)))
    (hf : a.forwarding = b.forwarding) : a.fingerprint digest = b.fingerprint digest := by
  have hconstraints : (a.constraints.map constraintKey).Perm (b.constraints.map constraintKey) := by
    refine perm_map_of_perm_map hc fun c _ c' _ h => ?_
    rw [constraintKey, constraintKey, (Prod.mk.inj h).1, (Prod.mk.inj h).2]
  have hutilities : (a.utilities.map utilityKey).Perm (b.utilities.map utilityKey) := by
    refine perm_map_of_perm_map hu fun u _ u' _ h => ?_
    rw [utilityKey, utilityKey, (Prod.mk.inj h).1, (Prod.mk.inj h).2]
  rw [fingerprint, fingerprint, canonicalJson_eq_iff.2 ⟨hi, hconstraints, hs, hutilities, hf⟩]

/-- Interfaces whose names are each other's beginnings, a rule twice, and rules and names with the marks that
keys are made with. -/
def shuffledOnce : Context where
  interfaces := Table.ofList [("ab", ⟨"root", "B"⟩), ("a", ⟨"root", "A"⟩)]
  constraints := [⟨"!x", "root", true⟩, ⟨"x", "", false⟩, ⟨"x", "", false⟩]
  suggestions := [⟨"s", "root"⟩, ⟨"", ""⟩]
  utilities := [⟨"std:", "sort", "", ""⟩, ⟨"f", "int:int", "lib", "root"⟩]
  forwarding := some []

/-- The same in another order and from elsewhere. -/
def shuffledTwice : Context where
  interfaces := Table.ofList [("a", ⟨"root", "A"⟩), ("ab", ⟨"root", "B"⟩)]
  constraints := [⟨"x", "root", false⟩, ⟨"!x", "", true⟩, ⟨"x", "above", false⟩]
  suggestions := [⟨"", "root"⟩, ⟨"s", ""⟩]
  utilities := [⟨"f", "int:int", "", ""⟩, ⟨"std:", "sort", "lib", "root"⟩]
  forwarding := some []

theorem fingerprint_of_rearranged_shuffled :
    shuffledOnce ≠ shuffledTwice ∧ shuffledOnce.fingerprint id = shuffledTwice.fingerprint id :=
  ⟨by decide, fingerprint_of_rearranged id (by decide) (by decide) (by decide) (by decide) rfl⟩

end Context

/-! ## Keys that are mistaken -/

/-- A normal constraint reads like an important one if its rule has the mark in front of the other's. -/
def Constraint.IsMistakenFor (c other : Constraint) : Prop :=
  c.important = false ∧ other.important = true ∧ c.rule = "!" ++ other.rule

instance (c other : Constraint) : Decidable (c.IsMistakenFor other) := inferInstanceAs (Decidable (_ ∧ _))

/-- A utility reads like another one if its name goes on, behind a colon, with what the other's signature
begins with. -/
def Utility.IsMistakenFor (u other : Utility) : Prop :=
  ∃ middle, u.name = other.name ++ ":" ++ middle ∧ other.signature = middle ++ ":" ++ u.signature

namespace Utility.IsMistakenFor

variable {u v : Utility}

theorem utilityKey_eq (h : u.IsMistakenFor v) : Context.utilityKey u = Context.utilityKey v := by
  obtain ⟨middle, hn, hs⟩ := h
  simp only [Context.utilityKey, hn, hs, String.append_assoc]

theorem name_ne (h : u.IsMistakenFor v) : u.name ≠ v.name := by
  obtain ⟨middle, hn, -⟩ := h
  intro he
  have hlength := congrArg String.length (he.symm.trans hn)
  have hcolon : ":".length = 1 := rfl
  simp only [String.length_append] at hlength
  omega

end Utility.IsMistakenFor

namespace Context

/-- **A constraint's key has its rule and its importance**, unless the rule begins with the mark. -/
theorem constraintKey_eq_iff {c d : Constraint} : constraintKey c = constraintKey d ↔
    (c.rule, c.important) = (d.rule, d.important) ∨ c.IsMistakenFor d ∨ d.IsMistakenFor c := by
  obtain ⟨rule, source, important⟩ := c
  obtain ⟨rule', source', important'⟩ := d
  cases important <;> cases important' <;>
    simp [constraintKey, Constraint.IsMistakenFor, String.append_right_inj, eq_comm]

/-- **A utility's key has its name and its signature**, unless a colon stands in the name. -/
theorem utilityKey_eq_iff {u v : Utility} : utilityKey u = utilityKey v ↔
    (u.name, u.signature) = (v.name, v.signature) ∨ u.IsMistakenFor v ∨ v.IsMistakenFor u := by
  -- Of two names in front of one text, one goes on where the other ends.
  have hlonger (u v : Utility) (more : List Char) (hn : u.name.toList = v.name.toList ++ more)
      (hs : ':' :: v.signature.toList = more ++ ':' :: u.signature.toList) :
      (u.name, u.signature) = (v.name, v.signature) ∨ u.IsMistakenFor v := by
    cases more with
    | nil =>
      left
      rw [List.append_nil] at hn
      rw [List.nil_append, List.cons.injEq] at hs
      rw [String.toList_injective hn, String.toList_injective hs.2]
    | cons c more =>
      right
      obtain ⟨rfl, hsignature⟩ := List.cons.inj hs
      refine ⟨String.ofList more, String.toList_injective ?_, String.toList_injective ?_⟩
      · simp [hn]
      · simpa using hsignature
  constructor
  · intro h
    have h := congrArg String.toList h
    simp only [utilityKey, String.toList_append, List.append_assoc] at h
    rcases List.append_eq_append_iff.1 h with ⟨more, hn, hs⟩ | ⟨more, hn, hs⟩
    · exact (hlonger v u more hn hs).imp Eq.symm .inr
    · exact (hlonger u v more hn hs).imp_right .inl
  · rintro (h | h | h)
    · rw [utilityKey, utilityKey, (Prod.mk.inj h).1, (Prod.mk.inj h).2]
    · exact h.utilityKey_eq
    · exact h.utilityKey_eq.symm

/-- **Contexts with one fingerprint say the same.** Under a digest that tells all texts apart they have the same
interfaces, the same suggestions and the same names to forward; the same constraints, if no rule of a normal
one is that of an important one behind the mark; and the same utilities, if no name takes in what is the
signature of another one. -/
theorem same_of_fingerprint_eq {digest : String → String} (hd : Function.Injective digest) {a b : Context}
    (h : a.fingerprint digest = b.fingerprint digest) :
    (∀ name, a.interfaces.get? name = b.interfaces.get? name) ∧
    ((∀ c ∈ a.constraints, ∀ d ∈ b.constraints, ¬ c.IsMistakenFor d ∧ ¬ d.IsMistakenFor c) →
      (a.constraints.map fun c => (c.rule, c.important)).Perm
        (b.constraints.map fun c => (c.rule, c.important))) ∧
    (a.suggestions.map fun s => s.rule).Perm (b.suggestions.map fun s => s.rule) ∧
    ((∀ u ∈ a.utilities, ∀ v ∈ b.utilities, ¬ u.IsMistakenFor v ∧ ¬ v.IsMistakenFor u) →
      (a.utilities.map fun u => (u.name, u.signature)).Perm
        (b.utilities.map fun u => (u.name, u.signature))) ∧
    a.forwarding = b.forwarding := by
  obtain ⟨hi, hc, hs, hu, hf⟩ := canonicalJson_eq_iff.1 ((fingerprint_eq_iff hd).1 h)
  refine ⟨Table.perm_entries_iff.1 hi, fun hclear => ?_, hs, fun hclear => ?_, hf⟩
  · refine perm_map_of_perm_map hc fun c hca d hdb hkey => ?_
    exact (constraintKey_eq_iff.1 hkey).resolve_right (not_or.2 (hclear c hca d hdb))
  · refine perm_map_of_perm_map hu fun u hua v hvb hkey => ?_
    exact (utilityKey_eq_iff.1 hkey).resolve_right (not_or.2 (hclear u hua v hvb))

theorem same_of_fingerprint_eq_shuffled :
    (∀ name, shuffledOnce.interfaces.get? name = shuffledTwice.interfaces.get? name) ∧
    (shuffledOnce.constraints.map fun c => (c.rule, c.important)).Perm
      (shuffledTwice.constraints.map fun c => (c.rule, c.important)) ∧
    (shuffledOnce.utilities.map fun u => (u.name, u.signature)).Perm
      (shuffledTwice.utilities.map fun u => (u.name, u.signature)) := by
  have hkeys : shuffledOnce.canonicalJson = shuffledTwice.canonicalJson :=
    canonicalJson_eq_iff.2 ⟨by decide, by decide, by decide, by decide, rfl⟩
  have hnames : ∀ u ∈ shuffledOnce.utilities, ∀ v ∈ shuffledTwice.utilities,
      utilityKey u ≠ utilityKey v ∨ u.name = v.name := by decide
  have hutilities : ∀ u ∈ shuffledOnce.utilities, ∀ v ∈ shuffledTwice.utilities,
      ¬ u.IsMistakenFor v ∧ ¬ v.IsMistakenFor u := by
    intro u hu v hv
    rcases hnames u hu v hv with hne | he
    · exact ⟨fun h => hne h.utilityKey_eq, fun h => hne h.utilityKey_eq.symm⟩
    · exact ⟨fun h => h.name_ne he, fun h => h.name_ne he.symm⟩
  obtain ⟨hi, hc, -, hu, -⟩ :=
    same_of_fingerprint_eq Function.injective_id ((fingerprint_eq_iff Function.injective_id).2 hkeys)
  exact ⟨hi, hc (by decide), hu hutilities⟩

/-- **Importance can be mistaken.** An important rule and a normal one that begins with the mark have one
fingerprint, and so have utilities between whose names and signatures a colon stands elsewhere. -/
theorem fingerprint_mistakes :
    ¬ ∀ (digest : String → String) (a b : Context), Function.Injective digest →
      a.fingerprint digest = b.fingerprint digest →
      (a.constraints.map fun c => (c.rule, c.important)).Perm
        (b.constraints.map fun c => (c.rule, c.important)) ∧
      (a.utilities.map fun u => (u.name, u.signature)).Perm
        (b.utilities.map fun u => (u.name, u.signature)) := by
  intro h
  have hkeys : canonicalJson { constraints := [⟨"x", "", true⟩], utilities := [⟨"f", "a:b", "", ""⟩] }
      = canonicalJson { constraints := [⟨"!x", "", false⟩], utilities := [⟨"f:a", "b", "", ""⟩] } :=
    canonicalJson_eq_iff.2 ⟨by decide, by decide, by decide, by decide, rfl⟩
  have hsame := h id _ _ Function.injective_id ((fingerprint_eq_iff Function.injective_id).2 hkeys)
  exact absurd hsame.1 (by decide)

end Context

end SpecTree
