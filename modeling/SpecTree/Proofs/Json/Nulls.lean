import SpecTree.Proofs.Json.Artifacts

/-!
# Values without their nulls

Contexts and questionnaires are written without the members that are null. Nothing is lost by that:
a member that may be null is read as nothing also when it is absent
(`Context.ofJson?_dropNulls`, `Questionnaire.ofJson?_dropNulls`), and a value does not become
higher or less plain (`Shallow.dropNulls`).
-/

namespace SpecTree

namespace Json

variable {n : Nat}

/-! ## What dropping leaves -/

theorem dropNullsMembers_cons {j : Json} (hj : j ≠ null) (name : String)
    (rest : List (String × Json)) :
    dropNullsMembers ((name, j) :: rest) = (name, dropNulls j) :: dropNullsMembers rest := by
  rw [dropNullsMembers]
  exact hj

theorem dropNullsMembers_null (name : String) (rest : List (String × Json)) :
    dropNullsMembers ((name, null) :: rest) = dropNullsMembers rest := rfl

theorem dropNullsItems_eq (items : List Json) : dropNullsItems items = items.map dropNulls := by
  induction items with
  | nil => rfl
  | cons j rest ih => rw [dropNullsItems, ih, List.map_cons]

theorem dropNulls_list {α : Type} (f : α → Json) (xs : List α) :
    dropNulls (arr (xs.map f)) = arr (xs.map fun x => dropNulls (f x)) := by
  rw [dropNulls, dropNullsItems_eq, List.map_map]
  rfl

/-- A table has as many members as before, under the same names. -/
theorem dropNulls_table {α : Type} {f : α → Json} (hf : ∀ x, f x ≠ null) (t : Table α) :
    dropNulls (obj (t.entries.map fun x => (x.1, f x.2)))
      = obj (t.entries.map fun x => (x.1, dropNulls (f x.2))) := by
  rw [dropNulls]
  congr 1
  induction t.entries with
  | nil => rfl
  | cons x rest ih => rw [List.map_cons, List.map_cons, dropNullsMembers_cons (hf x.2), ih]

theorem dropNullsMembers_names (members : List (String × Json)) :
    ((dropNullsMembers members).map Prod.fst).Sublist (members.map Prod.fst) := by
  induction members with
  | nil => exact List.Sublist.slnil
  | cons m rest ih =>
    obtain ⟨name, j⟩ := m
    by_cases hj : j = null
    · rw [hj, dropNullsMembers_null]
      exact ih.cons name
    · rw [dropNullsMembers_cons hj]
      exact ih.cons_cons name

mutual

theorem isPlain_dropNulls {j : Json} (h : IsPlain j) : IsPlain (dropNulls j) :=
  match j, h with
  | null, h | bool _, h | str _, h => h
  | arr _, h => arePlain_dropNulls h
  | obj members, h => ⟨(dropNullsMembers_names members).nodup h.1, havePlain_dropNulls h.2⟩

theorem arePlain_dropNulls {items : List Json} (h : ArePlain items) :
    ArePlain (dropNullsItems items) :=
  match items, h with
  | [], h => h
  | _ :: _, h => ⟨isPlain_dropNulls h.1, arePlain_dropNulls h.2⟩

theorem havePlain_dropNulls {members : List (String × Json)} (h : HavePlain members) :
    HavePlain (dropNullsMembers members) :=
  match members, h with
  | [], h => h
  | (name, j) :: rest, h => by
    by_cases hj : j = null
    · rw [hj, dropNullsMembers_null]
      exact havePlain_dropNulls h.2
    · rw [dropNullsMembers_cons hj]
      exact ⟨isPlain_dropNulls h.1, havePlain_dropNulls h.2⟩

end

mutual

theorem height_dropNulls_le (j : Json) : height (dropNulls j) ≤ height j :=
  match j with
  | null | bool _ | int _ | float _ | str _ => Nat.le_refl _
  | arr items => Nat.succ_le_succ (heightItems_dropNulls_le items)
  | obj members => Nat.succ_le_succ (heightMembers_dropNulls_le members)

theorem heightItems_dropNulls_le (items : List Json) :
    heightItems (dropNullsItems items) ≤ heightItems items :=
  match items with
  | [] => Nat.le_refl _
  | j :: rest => by
    have hj := height_dropNulls_le j
    have hrest := heightItems_dropNulls_le rest
    simp only [dropNullsItems, heightItems]
    omega

theorem heightMembers_dropNulls_le (members : List (String × Json)) :
    heightMembers (dropNullsMembers members) ≤ heightMembers members :=
  match members with
  | [] => Nat.le_refl _
  | (name, j) :: rest => by
    have hj := height_dropNulls_le j
    have hrest := heightMembers_dropNulls_le rest
    by_cases h0 : j = null
    · rw [h0, dropNullsMembers_null]
      exact Nat.le_trans hrest (Nat.le_max_right _ _)
    · rw [dropNullsMembers_cons h0, heightMembers, heightMembers]
      omega

end

/-- **Dropping nulls keeps a value plain and low.** -/
theorem Shallow.dropNulls {j : Json} (h : Shallow n j) : Shallow n j.dropNulls :=
  ⟨isPlain_dropNulls h.plain, Nat.le_trans (height_dropNulls_le j) h.height⟩

end Json

/-! ## Contexts and questionnaires -/

section

open Json

theorem dropNulls_str (s : String) : dropNulls (.str s) = .str s := rfl

theorem dropNulls_bool (b : Bool) : dropNulls (.bool b) = .bool b := rfl

theorem dropNulls_each {α : Type} {f : α → Json} (hf : ∀ x, dropNulls (f x) = f x) (xs : List α) :
    dropNulls (.arr (xs.map f)) = .arr (xs.map f) := by
  rw [dropNulls_list, funext hf]

theorem Interface.dropNulls_toJson (i : Interface) : i.toJson.dropNulls = i.toJson := rfl

theorem Constraint.dropNulls_toJson (c : Constraint) : c.toJson.dropNulls = c.toJson := rfl

theorem Suggestion.dropNulls_toJson (s : Suggestion) : s.toJson.dropNulls = s.toJson := rfl

theorem Utility.dropNulls_toJson (u : Utility) : u.toJson.dropNulls = u.toJson := rfl

theorem Consideration.dropNulls_toJson (c : Consideration) : c.toJson.dropNulls = c.toJson := rfl

theorem dropNulls_texts (ss : List String) :
    dropNulls (.arr (ss.map Json.str)) = .arr (ss.map Json.str) := dropNulls_each dropNulls_str ss

theorem Context.dropNulls_interfaces (c : Context) :
    dropNulls (.obj (c.interfaces.entries.map fun x => (x.1, x.2.toJson)))
      = .obj (c.interfaces.entries.map fun x => (x.1, x.2.toJson)) :=
  dropNulls_table (f := Interface.toJson) nofun c.interfaces

attribute [local simp] Json.member? Json.memberOr Json.optional? Json.get? Json.text? Json.flag?
  Json.isObject List.lookup_cons dropNulls_str dropNulls_bool dropNulls_texts
  dropNullsMembers_cons dropNullsMembers

/-- **A context is made again** from its value without nulls. -/
theorem Context.ofJson?_dropNulls (c : Context) : Context.ofJson? c.toJson.dropNulls = some c := by
  have hi := c.dropNulls_interfaces
  obtain ⟨interfaces, constraints, suggestions, utilities, forwarding⟩ := c
  rw [Context.toJson, dropNulls]
  cases forwarding <;>
    simp [hi, dropNulls_each Constraint.dropNulls_toJson, dropNulls_each Suggestion.dropNulls_toJson,
      dropNulls_each Utility.dropNulls_toJson, Context.ofJson?, list?_text,
      table?_map Interface.ofJson?_toJson,
      list?_map Constraint.ofJson?_toJson, list?_map Suggestion.ofJson?_toJson,
      list?_map Utility.ofJson?_toJson]

theorem QuestionOption.ofJson?_dropNulls (o : QuestionOption) :
    QuestionOption.ofJson? o.toJson.dropNulls = some o := by
  obtain ⟨label, description⟩ := o
  rw [QuestionOption.toJson, dropNulls]
  cases description <;> simp [QuestionOption.ofJson?, textOrNull]

theorem Question.ofJson?_dropNulls (q : Question) :
    Question.ofJson? q.toJson.dropNulls = some q := by
  obtain ⟨id, question, context, assumption, impact, options, answer⟩ := q
  rw [Question.toJson, dropNulls]
  cases options <;> cases answer <;>
    simp [Question.ofJson?, textOrNull, dropNulls_list, list?_map QuestionOption.ofJson?_dropNulls]

theorem Consideration.ofJson?_toJson (c : Consideration) :
    Consideration.ofJson? c.toJson = some c := by
  simp [Consideration.ofJson?, Consideration.toJson]

/-- **A questionnaire is made again** from its value without nulls. -/
theorem Questionnaire.ofJson?_dropNulls (q : Questionnaire) :
    Questionnaire.ofJson? q.toJson.dropNulls = some q := by
  rw [Questionnaire.toJson, dropNulls]
  simp [Questionnaire.ofJson?, dropNulls_list, list?_map Question.ofJson?_dropNulls,
    dropNulls_each Consideration.dropNulls_toJson, list?_map Consideration.ofJson?_toJson]

end

/-! ## Their heights -/

section

open Json

theorem shallow_textOrNull {n : Nat} (s : Option String) : Shallow n (textOrNull s) := by
  cases s with
  | none => exact shallow_null
  | some s => exact shallow_str s

theorem QuestionOption.shallow (o : QuestionOption) : Shallow 1 o.toJson :=
  shallow_obj (by simp) (by simp [shallow_str, shallow_textOrNull])

theorem Question.shallow (q : Question) : Shallow 3 q.toJson := by
  refine shallow_obj (by simp) ?_
  have ho : Shallow 2 (q.options.elim Json.null fun os => .arr (os.map QuestionOption.toJson)) := by
    cases q.options with
    | none => exact shallow_null
    | some os => exact shallow_arr QuestionOption.shallow os
  simp only [List.forall_mem_cons]
  exact ⟨shallow_str _, shallow_str _, shallow_str _, shallow_str _, shallow_str _, ho,
    shallow_textOrNull _, nofun⟩

theorem Consideration.shallow (c : Consideration) : Shallow 1 c.toJson :=
  shallow_obj (by simp) (by simp [shallow_str, shallow_bool])

theorem Questionnaire.shallow (q : Questionnaire) : Shallow 5 q.toJson := by
  refine shallow_obj (by simp) ?_
  simp only [List.forall_mem_cons]
  exact ⟨shallow_str _, shallow_arr Question.shallow _,
    (shallow_arr Consideration.shallow _).mono (by decide), nofun⟩

end

end SpecTree
