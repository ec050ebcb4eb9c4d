import SpecTree.Proofs.Provider.Decoding
import SpecTree.Proofs.Provider.Extraction

/-!
# Responses that are refused

A response is refused as a malformed answer of the provider, whatever values it holds: most of them are taken as
they come, and the others are asked for their form. There is one exception, for tags that are no list.

1. `child_cases`: a child is made, or its context does not have its form, or its tags have no parts.
2. `expansion_cases` follows a whole response up to its first fault, and `refusals` says which responses are
   answers and which failure each of the others is.
-/

namespace SpecTree.Response

open Json

/-! ## The first fault in a list -/

section

variable {α β ε : Type}

/-- Going through a list fails at the first item that fails. -/
theorem mapM_eq_error_iff {f : α → Except ε β} {xs : List α} {e : ε} : xs.mapM f = .error e ↔
    ∃ before x after, xs = before ++ x :: after ∧ (∀ b ∈ before, ∃ y, f b = .ok y) ∧ f x = .error e := by
  induction xs with
  | nil => simp [pure, Except.pure]
  | cons x xs ih =>
    rw [List.mapM_cons]
    cases hx : f x with
    | error e' =>
      constructor
      · intro h
        exact ⟨[], x, xs, rfl, by simp, by cases h; exact hx⟩
      · rintro ⟨before, y, after, hxs, hbefore, hy⟩
        cases before with
        | nil =>
          cases hxs
          cases hx.symm.trans hy
          rfl
        | cons b before =>
          cases hxs
          obtain ⟨z, hz⟩ := hbefore x List.mem_cons_self
          cases hx.symm.trans hz
    | ok y =>
      have hrest : (do let ys ← xs.mapM f; pure (y :: ys) : Except ε (List β)) = .error e ↔
          xs.mapM f = .error e := by
        cases xs.mapM f <;> simp [bind, Except.bind, pure, Except.pure]
      refine Iff.trans hrest (ih.trans ⟨?_, ?_⟩)
      · rintro ⟨before, z, after, rfl, hbefore, hz⟩
        exact ⟨x :: before, z, after, rfl, List.forall_mem_cons.2 ⟨⟨y, hx⟩, hbefore⟩, hz⟩
      · rintro ⟨before, z, after, hxs, hbefore, hz⟩
        cases before with
        | nil =>
          cases hxs
          cases hx.symm.trans hz
        | cons b before =>
          cases hxs
          exact ⟨before, z, after, rfl, (List.forall_mem_cons.1 hbefore).2, hz⟩

theorem exists_mapM_eq_ok_iff {f : α → Except ε β} {xs : List α} :
    (∃ ys, xs.mapM f = .ok ys) ↔ ∀ x ∈ xs, ∃ y, f x = .ok y := by
  induction xs with
  | nil => simp [pure, Except.pure]
  | cons x xs ih =>
    rw [List.forall_mem_cons, ← ih, List.mapM_cons]
    cases f x <;> cases xs.mapM f <;> simp [bind, Except.bind, pure, Except.pure]

theorem isSome_mapM_iff {f : α → Option β} {xs : List α} :
    (xs.mapM f).isSome = true ↔ ∀ x ∈ xs, (f x).isSome = true := by
  induction xs with
  | nil => simp
  | cons x xs ih =>
    rw [List.forall_mem_cons, ← ih, List.mapM_cons]
    cases f x <;> cases xs.mapM f <;> simp

end

/-! ## One child -/

/-- The context of a child has its form, or the child has none. -/
def HasContext (j : Json) : Prop := (childContext? ((j.get? "context").getD .null)).isSome = true

/-- The tags of a child are a number other than zero, or say `true`: nothing that could be gone through. -/
def HasPartlessTags (j : Json) : Prop :=
  ∃ value, j.get? "tags" = some value ∧ value.isTruthy = true ∧
    ((∃ b, value = .bool b) ∨ (∃ n, value = .int n) ∨ ∃ x, value = .float x)

section

variable {j : Json} {f : Failure}

theorem tags_eq_error (h : HasPartlessTags j) : ∃ f, tags j = .error f ∧ f.kind = .shape := by
  obtain ⟨value, hg, ht, hv⟩ := h
  rw [tags, hg]
  dsimp only
  rw [ht]
  rcases hv with ⟨b, rfl⟩ | ⟨n, rfl⟩ | ⟨x, rfl⟩ <;> exact ⟨_, rfl, rfl⟩

theorem exists_tags_eq_ok (h : ¬ HasPartlessTags j) : ∃ ts, tags j = .ok ts := by
  rw [tags]
  cases hg : j.get? "tags" with
  | none => exact ⟨_, rfl⟩
  | some value =>
    dsimp only
    cases ht : value.isTruthy with
    | false => exact ⟨_, rfl⟩
    | true =>
      cases value with
      | null => cases ht
      | bool b => exact absurd ⟨_, hg, ht, .inl ⟨b, rfl⟩⟩ h
      | int n => exact absurd ⟨_, hg, ht, .inr (.inl ⟨n, rfl⟩)⟩ h
      | float x => exact absurd ⟨_, hg, ht, .inr (.inr ⟨x, rfl⟩)⟩ h
      | str s => exact ⟨_, rfl⟩
      | arr items => exact ⟨_, rfl⟩
      | obj members => exact ⟨_, rfl⟩

/-- What becomes of a child. -/
theorem child_cases (j : Json) :
    (HasContext j ∧ ¬ HasPartlessTags j ∧ ∃ spec, child j = .ok spec) ∨
      (HasContext j ∧ HasPartlessTags j ∧ ∃ f, child j = .error f ∧ f.kind = .shape) ∨
      ¬ HasContext j ∧ child j = .error (malformed "compile") := by
  cases hc : childContext? ((j.get? "context").getD .null) with
  | none =>
    refine .inr (.inr ⟨by simp [HasContext, hc], ?_⟩)
    rw [child, hc]
    rfl
  | some context =>
    have hcontext : HasContext j := by rw [HasContext, hc]; rfl
    by_cases ht : HasPartlessTags j
    · obtain ⟨f, hf, hk⟩ := tags_eq_error ht
      refine .inr (.inl ⟨hcontext, ht, f, ?_, hk⟩)
      rw [child, hc, hf]
      rfl
    · obtain ⟨ts, hts⟩ := exists_tags_eq_ok ht
      refine .inl ⟨hcontext, ht, ⟨textOr j "name" "unnamed", textOr j "spec" "", context, saysLeaf j, ts⟩, ?_⟩
      rw [child, hc, hts]
      rfl

theorem exists_child_eq_ok_iff : (∃ spec, child j = .ok spec) ↔ HasContext j ∧ ¬ HasPartlessTags j := by
  rcases child_cases j with ⟨hc, ht, h⟩ | ⟨hc, ht, f, h, -⟩ | ⟨hc, h⟩
  · exact iff_of_true h ⟨hc, ht⟩
  · exact iff_of_false (by simp [h]) fun hn => hn.2 ht
  · exact iff_of_false (by simp [h]) fun hn => hc hn.1

theorem child_error_kind (h : child j = .error f) : f.kind = .response ∨ f.kind = .shape := by
  rcases child_cases j with ⟨-, -, spec, hs⟩ | ⟨-, -, f', hf, hk⟩ | ⟨-, hf⟩
  · cases h.symm.trans hs
  · cases h.symm.trans hf
    exact .inr hk
  · cases h.symm.trans hf
    exact .inl rfl

theorem exists_child_shape_iff :
    (∃ f, child j = .error f ∧ f.kind = .shape) ↔ HasContext j ∧ HasPartlessTags j := by
  rcases child_cases j with ⟨-, ht, spec, hs⟩ | ⟨hc, ht, h⟩ | ⟨hc, hf⟩
  · exact iff_of_false (by simp [hs]) fun hn => ht hn.2
  · exact iff_of_true h ⟨hc, ht⟩
  · exact iff_of_false (by simp [hf, malformed]) fun hn => hc hn.1

end

/-! ## Whole responses -/

section

variable {output : String} {j : Json} {f : Failure}

/-- The children that a response describes. -/
def childItems (j : Json) : List Json := (items j "children").filter isObject

/-- The declarations, rules and questions of a response have their form. -/
structure HasForms (j : Json) : Prop where
  interfaces : ∀ i ∈ items j "interfaces", (Declaration.ofJson? i).isSome = true
  constraints : ∀ i ∈ items j "constraints", (Constraint.ofJson? i).isSome = true
  suggestions : ∀ i ∈ items j "suggestions", (Suggestion.ofJson? i).isSome = true
  utilities : ∀ i ∈ items j "utilities", (Utility.ofJson? i).isSome = true
  questions : (questions? j).isSome = true

/-- The first fault among the children of a response is in their tags. -/
def StopsAtTags (output : String) : Prop :=
  ∃ j before c after, extractJson output = .ok j ∧ childItems j = before ++ c :: after ∧
    (∀ b ∈ before, HasContext b ∧ ¬ HasPartlessTags b) ∧ HasContext c ∧ HasPartlessTags c

theorem extractJson_error_kind (h : ∀ part ∈ candidates output.toList, HasShortNumbers part)
    (hf : extractJson output = .error f) : f.kind = .response := by
  rw [extractJson_eq h] at hf
  split at hf
  · cases hf
  · cases hf
    rfl

/-- What becomes of a production whose object is found. -/
theorem production_cases (hj : extractJson output = .ok j) :
    ((questions? j).isSome = true ∧ ∃ p, production output = .ok p) ∨
      (questions? j).isSome = false ∧ production output = .error (malformed "generate") := by
  cases hq : questions? j with
  | none =>
    refine .inr ⟨rfl, ?_⟩
    simp [production, hj, hq, demand, bind, Except.bind]
  | some qs =>
    refine .inl ⟨rfl, ⟨((items j "files").filter isObject).map generatedFile, qs, considerations j⟩, ?_⟩
    simp [production, hj, hq, demand, bind, Except.bind]

/-- All but the children of an expansion, read from an object. -/
def expansionOf? (j : Json) (children : List ChildSpec) : Option Expansion := do
  return {
    children
    interfaces := ← (items j "interfaces").mapM Declaration.ofJson?
    constraints := ← (items j "constraints").mapM Constraint.ofJson?
    suggestions := ← (items j "suggestions").mapM Suggestion.ofJson?
    utilities := ← (items j "utilities").mapM Utility.ofJson?
    questions := ← questions? j
    considerations := considerations j }

theorem isSome_expansionOf?_iff (j : Json) (children : List ChildSpec) :
    (expansionOf? j children).isSome = true ↔ HasForms j := by
  have hforms : HasForms j ↔ ((items j "interfaces").mapM Declaration.ofJson?).isSome = true ∧
      ((items j "constraints").mapM Constraint.ofJson?).isSome = true ∧
      ((items j "suggestions").mapM Suggestion.ofJson?).isSome = true ∧
      ((items j "utilities").mapM Utility.ofJson?).isSome = true ∧ (questions? j).isSome = true := by
    simp only [isSome_mapM_iff]
    exact ⟨fun h => ⟨h.1, h.2, h.3, h.4, h.5⟩, fun ⟨hi, hc, hs, hu, hq⟩ => ⟨hi, hc, hs, hu, hq⟩⟩
  rw [hforms, expansionOf?]
  cases (items j "interfaces").mapM Declaration.ofJson? with
  | none => simp
  | some _ =>
    cases (items j "constraints").mapM Constraint.ofJson? with
    | none => simp
    | some _ =>
      cases (items j "suggestions").mapM Suggestion.ofJson? with
      | none => simp
      | some _ =>
        cases (items j "utilities").mapM Utility.ofJson? with
        | none => simp
        | some _ => cases questions? j <;> simp

/-- What becomes of an expansion whose object is found. -/
theorem expansion_cases (hj : extractJson output = .ok j) :
    (∃ f, (childItems j).mapM child = .error f ∧ expansion output = .error f) ∨
      (∃ children, (childItems j).mapM child = .ok children) ∧
        (HasForms j ∧ (∃ e, expansion output = .ok e) ∨
          ¬ HasForms j ∧ expansion output = .error (malformed "compile")) := by
  have hexpansion : expansion output = (childItems j).mapM child >>= fun children =>
      demand "compile" (expansionOf? j children) := by
    rw [expansion, hj]
    rfl
  cases hc : (childItems j).mapM child with
  | error f => exact .inl ⟨f, rfl, by rw [hexpansion, hc]; rfl⟩
  | ok children =>
    have hread : expansion output = demand "compile" (expansionOf? j children) := by rw [hexpansion, hc]; rfl
    refine .inr ⟨⟨children, rfl⟩, ?_⟩
    rw [← isSome_expansionOf?_iff j children]
    cases he : expansionOf? j children with
    | none => exact .inr ⟨Bool.false_ne_true, by rw [hread, he]; rfl⟩
    | some e => exact .inl ⟨rfl, e, by rw [hread, he]; rfl⟩

theorem exists_children_shape_iff : (∃ f, (childItems j).mapM child = .error f ∧ f.kind = .shape) ↔
    ∃ before c after, childItems j = before ++ c :: after ∧
      (∀ b ∈ before, HasContext b ∧ ¬ HasPartlessTags b) ∧ HasContext c ∧ HasPartlessTags c := by
  simp only [mapM_eq_error_iff, exists_child_eq_ok_iff, ← exists_child_shape_iff]
  constructor
  · rintro ⟨f, ⟨before, c, after, hc, hbefore, hf⟩, hk⟩
    exact ⟨before, c, after, hc, hbefore, f, hf, hk⟩
  · rintro ⟨before, c, after, hc, hbefore, f, hf, hk⟩
    exact ⟨f, ⟨before, c, after, hc, hbefore, hf⟩, hk⟩

theorem children_error_kind (h : (childItems j).mapM child = .error f) : f.kind = .response ∨ f.kind = .shape := by
  obtain ⟨-, c, -, -, -, hf⟩ := mapM_eq_error_iff.1 h
  exact child_error_kind hf

theorem production_eq_error (hj : extractJson output = .error f) : production output = .error f := by
  rw [production, hj]
  rfl

theorem expansion_eq_error (hj : extractJson output = .error f) : expansion output = .error f := by
  rw [expansion, hj]
  rfl

theorem exists_production_iff :
    (∃ p, production output = .ok p) ↔ ∃ j, extractJson output = .ok j ∧ (questions? j).isSome = true := by
  cases hj : extractJson output with
  | error f => simp [production_eq_error hj]
  | ok j =>
    rcases production_cases hj with ⟨hq, hp⟩ | ⟨hq, hp⟩
    · exact iff_of_true hp ⟨j, rfl, hq⟩
    · refine iff_of_false (by simp [hp]) ?_
      rintro ⟨j', hj', hq'⟩
      cases hj'
      rw [hq] at hq'
      cases hq'

theorem production_error_kind (h : ∀ part ∈ candidates output.toList, HasShortNumbers part)
    (hf : production output = .error f) : f.kind = .response := by
  cases hj : extractJson output with
  | error f' =>
    cases hf.symm.trans (production_eq_error hj)
    exact extractJson_error_kind h hj
  | ok j =>
    rcases production_cases hj with ⟨-, p, hp⟩ | ⟨-, hp⟩
    · cases hf.symm.trans hp
    · cases hf.symm.trans hp
      rfl

theorem exists_expansion_iff : (∃ e, expansion output = .ok e) ↔ ∃ j, extractJson output = .ok j ∧
    (∀ c ∈ childItems j, HasContext c ∧ ¬ HasPartlessTags c) ∧ HasForms j := by
  cases hj : extractJson output with
  | error f => simp [expansion_eq_error hj]
  | ok j =>
    have hone : (∃ j', (.ok j : Except Failure Json) = .ok j' ∧
        (∀ c ∈ childItems j', HasContext c ∧ ¬ HasPartlessTags c) ∧ HasForms j') ↔
        (∃ children, (childItems j).mapM child = .ok children) ∧ HasForms j := by
      simp only [exists_mapM_eq_ok_iff, exists_child_eq_ok_iff]
      exact ⟨fun ⟨_, rfl, h⟩ => h, fun h => ⟨j, rfl, h⟩⟩
    rw [hone]
    rcases expansion_cases hj with ⟨f, hc, he⟩ | ⟨hc, ⟨hforms, he⟩ | ⟨hforms, he⟩⟩
    · exact iff_of_false (by simp [he]) (by simp [hc])
    · exact iff_of_true he ⟨hc, hforms⟩
    · exact iff_of_false (by simp [he]) fun h => hforms h.2

theorem expansion_error_kind (h : ∀ part ∈ candidates output.toList, HasShortNumbers part)
    (hf : expansion output = .error f) : f.kind = .response ∨ f.kind = .shape := by
  cases hj : extractJson output with
  | error f' =>
    cases hf.symm.trans (expansion_eq_error hj)
    exact .inl (extractJson_error_kind h hj)
  | ok j =>
    rcases expansion_cases hj with ⟨f', hc, he⟩ | ⟨-, ⟨-, e, he⟩ | ⟨-, he⟩⟩
    · cases hf.symm.trans he
      exact children_error_kind hc
    · cases hf.symm.trans he
    · cases hf.symm.trans he
      exact .inl rfl

theorem exists_expansion_shape_iff (h : ∀ part ∈ candidates output.toList, HasShortNumbers part) :
    (∃ f, expansion output = .error f ∧ f.kind = .shape) ↔ StopsAtTags output := by
  have hstops : StopsAtTags output ↔
      ∃ j, extractJson output = .ok j ∧ ∃ f, (childItems j).mapM child = .error f ∧ f.kind = .shape := by
    simp only [exists_children_shape_iff]
    exact ⟨fun ⟨j, before, c, after, hj, hc⟩ => ⟨j, hj, before, c, after, hc⟩,
      fun ⟨j, hj, before, c, after, hc⟩ => ⟨j, before, c, after, hj, hc⟩⟩
  rw [hstops]
  constructor
  · rintro ⟨f, hf, hk⟩
    cases hj : extractJson output with
    | error f' =>
      cases hf.symm.trans (expansion_eq_error hj)
      cases hk.symm.trans (extractJson_error_kind h hj)
    | ok j =>
      rcases expansion_cases hj with ⟨f', hc, he⟩ | ⟨-, ⟨-, e, he⟩ | ⟨-, he⟩⟩
      · cases hf.symm.trans he
        exact ⟨j, rfl, f, hc, hk⟩
      · cases hf.symm.trans he
      · cases hf.symm.trans he
        cases hk
  · rintro ⟨j, hj, f, hc, hk⟩
    rcases expansion_cases hj with ⟨f', hc', he⟩ | ⟨⟨children, hc'⟩, -⟩
    · cases hc.symm.trans hc'
      exact ⟨f, he, hk⟩
    · cases hc.symm.trans hc'

/-- **Which responses are refused, and how.** A production is an answer or a malformed one, and so is an expansion,
unless the first fault among its children is in tags that have no parts. -/
theorem refusals (h : ∀ part ∈ candidates output.toList, HasShortNumbers part) :
    ((∃ p, production output = .ok p) ↔ ∃ j, extractJson output = .ok j ∧ (questions? j).isSome = true) ∧
    (∀ f, production output = .error f → f.kind = .response) ∧
    ((∃ e, expansion output = .ok e) ↔ ∃ j, extractJson output = .ok j ∧
      (∀ c ∈ childItems j, HasContext c ∧ ¬ HasPartlessTags c) ∧ HasForms j) ∧
    (∀ f, expansion output = .error f → f.kind = .response ∨ f.kind = .shape) ∧
    ((∃ f, expansion output = .error f ∧ f.kind = .shape) ↔ StopsAtTags output) :=
  ⟨exists_production_iff, fun _ => production_error_kind h, exists_expansion_iff,
    fun _ => expansion_error_kind h, exists_expansion_shape_iff h⟩

/-- A text that is an object is its only candidate when no fence stands in it. -/
theorem hasShortNumbers_of_read {members : List (String × Json)} (hread : read output = .ok (.obj members))
    (hc : candidates output.toList = [output.toList, output.toList]) :
    ∀ part ∈ candidates output.toList, HasShortNumbers part := by
  intro part hp
  rw [hc, List.mem_cons, List.mem_singleton, or_self] at hp
  rw [hp]
  exact hasShortNumbers_of_object hread

/-- Two children, of which the second has no list of tags, and a file whose content is no text. -/
def oddResponse : String :=
  "\x7b\"children\": [\x7b\"tags\": \"ab\"\x7d, \x7b\"tags\": true\x7d], \"files\": [\x7b\"content\": true\x7d]\x7d"

def oddObject : Json :=
  .obj [("children", .arr [.obj [("tags", .str "ab")], .obj [("tags", .bool true)]]),
    ("files", .arr [.obj [("content", .bool true)]])]

theorem read_oddResponse : read oddResponse = .ok oddObject :=
  read_compact (j := oddObject) (by simp [oddObject, IsPlain, ArePlain, HavePlain])

theorem extractJson_oddResponse : extractJson oddResponse = .ok oddObject :=
  extractJson_of_read read_oddResponse rfl

theorem hasShortNumbers_oddResponse : ∀ part ∈ candidates oddResponse.toList, HasShortNumbers part :=
  hasShortNumbers_of_read read_oddResponse (by decide)

theorem stopsAtTags_oddResponse : StopsAtTags oddResponse := by
  refine ⟨oddObject, [.obj [("tags", .str "ab")]], .obj [("tags", .bool true)], [], extractJson_oddResponse, rfl,
    List.forall_mem_singleton.2 ?_, rfl, .bool true, rfl, rfl, .inl ⟨true, rfl⟩⟩
  exact exists_child_eq_ok_iff.1 ⟨_, rfl⟩

/-- The content is taken as a text, and the characters of a text are tags; but `true` has no parts. -/
theorem refusals_oddResponse : (∀ part ∈ candidates oddResponse.toList, HasShortNumbers part) ∧
    (∃ p, production oddResponse = .ok p) ∧ ∃ f, expansion oddResponse = .error f ∧ f.kind = .shape := by
  obtain ⟨hproduction, -, -, -, hshape⟩ := refusals hasShortNumbers_oddResponse
  exact ⟨hasShortNumbers_oddResponse, hproduction.2 ⟨oddObject, extractJson_oddResponse, rfl⟩,
    hshape.2 stopsAtTags_oddResponse⟩

/-- Tags that have no parts are refused in another way than as a malformed answer. -/
theorem partlessTags_not_malformed : ¬ ∀ output : String,
    (∀ part ∈ candidates output.toList, HasShortNumbers part) →
    (∀ f, production output = .error f → f.kind = .response) ∧
      ∀ f, expansion output = .error f → f.kind = .response := by
  intro h
  obtain ⟨f, hf, hk⟩ := (exists_expansion_shape_iff hasShortNumbers_oddResponse).2 stopsAtTags_oddResponse
  cases hk.symm.trans ((h oddResponse hasShortNumbers_oddResponse).2 f hf)

end

end SpecTree.Response
