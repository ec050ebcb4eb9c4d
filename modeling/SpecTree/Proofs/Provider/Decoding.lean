import SpecTree.Proofs.Json.Nulls
import SpecTree.Provider.Response

/-!
# Responses are read as what was written

A text whose JSON value gives an answer is read as that answer (`expansion_eq_and_production_eq`), if
the answer has no part in whose place a default would stand.

1. `GivenBy` ties each kind of record to the objects that give it: the documented names in any order,
   what is missing absent or null, other names beside them as they like.
2. `extractJson_of_read`: strings may hold fences, braces and quotes. A text that is an object as a
   whole is the first candidate, and the others are not looked at.
3. A part is made again from any value that gives it, and an answer from its parts.
-/

namespace SpecTree

open Json

/-! ## What an object gives -/

namespace Json

variable {α : Type}

/-- A value of some kind under a name. -/
def Gives (j : Json) (name : String) (kind : Json → Prop) : Prop :=
  ∃ v, j.get? name = some v ∧ kind v

/-- Where there is nothing to give, the name may be absent or null. -/
def GivesOptional (j : Json) (name : String) (given : α → Json → Prop) : Option α → Prop
  | none => j.get? name = none ∨ j.get? name = some .null
  | some x => j.Gives name (given x)

def IsText (s : String) (v : Json) : Prop := v = .str s

/-- An array whose items give those of a list in turn. -/
def IsListOf (given : α → Json → Prop) (xs : List α) (v : Json) : Prop :=
  ∃ items, v = .arr items ∧ List.Forall₂ given xs items

/-- An object with the names of a table, in its order. -/
def IsTableOf (given : α → Json → Prop) (t : Table α) (v : Json) : Prop :=
  ∃ members, v = .obj members
    ∧ List.Forall₂ (fun x m => m.1 = x.1 ∧ given x.2 m.2) t.entries members

end Json

structure Interface.GivenBy (i : Interface) (j : Json) : Prop where
  source : j.get? "source" = some (.str i.source)
  definition : j.get? "definition" = some (.str i.definition)

structure Constraint.GivenBy (c : Constraint) (j : Json) : Prop where
  rule : j.get? "rule" = some (.str c.rule)
  source : j.get? "source" = some (.str c.source)
  important : j.get? "important" = some (.bool c.important)

structure Suggestion.GivenBy (s : Suggestion) (j : Json) : Prop where
  rule : j.get? "rule" = some (.str s.rule)
  source : j.get? "source" = some (.str s.source)

structure Utility.GivenBy (u : Utility) (j : Json) : Prop where
  name : j.get? "name" = some (.str u.name)
  signature : j.get? "signature" = some (.str u.signature)
  location : j.get? "location" = some (.str u.location)
  source : j.get? "source" = some (.str u.source)

structure Declaration.GivenBy (d : Declaration) (j : Json) : Prop where
  name : j.get? "name" = some (.str d.name)
  definition : j.get? "definition" = some (.str d.definition)
  source : j.get? "source" = some (.str d.source)

structure Context.GivenBy (c : Context) (j : Json) : Prop where
  interfaces : j.Gives "interfaces" (IsTableOf Interface.GivenBy c.interfaces)
  constraints : j.Gives "constraints" (IsListOf Constraint.GivenBy c.constraints)
  suggestions : j.Gives "suggestions" (IsListOf Suggestion.GivenBy c.suggestions)
  utilities : j.Gives "utilities" (IsListOf Utility.GivenBy c.utilities)
  forwarding : j.GivesOptional "forwarding" (IsListOf IsText) c.forwarding

structure ChildSpec.GivenBy (c : ChildSpec) (j : Json) : Prop where
  name : j.get? "name" = some (.str c.name)
  spec : j.get? "spec" = some (.str c.spec)
  context : j.Gives "context" c.context.GivenBy
  isLeaf : j.get? "is_leaf" = some (.bool c.isLeaf)
  tags : j.Gives "tags" (IsListOf IsText c.tags)

structure QuestionOption.GivenBy (o : QuestionOption) (j : Json) : Prop where
  label : j.get? "label" = some (.str o.label)
  description : j.GivesOptional "description" IsText o.description

structure Question.GivenBy (q : Question) (j : Json) : Prop where
  id : j.get? "id" = some (.str q.id)
  question : j.get? "question" = some (.str q.question)
  context : j.get? "context" = some (.str q.context)
  assumption : j.get? "assumption" = some (.str q.assumption)
  impact : j.get? "impact" = some (.str q.impact)
  options : j.GivesOptional "options" (IsListOf QuestionOption.GivenBy) q.options
  answer : j.GivesOptional "answer" IsText q.answer

structure Consideration.GivenBy (c : Consideration) (j : Json) : Prop where
  id : j.get? "id" = some (.str c.id)
  note : j.get? "note" = some (.str c.note)
  blocking : j.get? "blocking" = some (.bool c.blocking)

structure GeneratedFile.GivenBy (f : GeneratedFile) (j : Json) : Prop where
  path : j.get? "path" = some (.str f.path)
  content : j.get? "content" = some (.str f.content)

structure Expansion.GivenBy (e : Expansion) (j : Json) : Prop where
  children : j.Gives "children" (IsListOf ChildSpec.GivenBy e.children)
  interfaces : j.Gives "interfaces" (IsListOf Declaration.GivenBy e.interfaces)
  constraints : j.Gives "constraints" (IsListOf Constraint.GivenBy e.constraints)
  suggestions : j.Gives "suggestions" (IsListOf Suggestion.GivenBy e.suggestions)
  utilities : j.Gives "utilities" (IsListOf Utility.GivenBy e.utilities)
  questions : j.Gives "questions" (IsListOf Question.GivenBy e.questions)
  considerations : j.Gives "considerations" (IsListOf Consideration.GivenBy e.considerations)

structure Production.GivenBy (p : Production) (j : Json) : Prop where
  files : j.Gives "files" (IsListOf GeneratedFile.GivenBy p.files)
  questions : j.Gives "questions" (IsListOf Question.GivenBy p.questions)
  considerations : j.Gives "considerations" (IsListOf Consideration.GivenBy p.considerations)

/-! ## The values that are written -/

theorem isListOf_map {α : Type} {given : α → Json → Prop} {f : α → Json} (h : ∀ x, given x (f x))
    (xs : List α) : IsListOf given xs (.arr (xs.map f)) :=
  ⟨_, rfl, List.forall₂_map_right_iff.2 (List.forall₂_same.2 fun x _ => h x)⟩

theorem isListOf_texts (ss : List String) : IsListOf IsText ss (.arr (ss.map Json.str)) :=
  isListOf_map (fun _ => show IsText _ _ from rfl) ss

theorem isTableOf_map {α : Type} {given : α → Json → Prop} {f : α → Json} (h : ∀ x, given x (f x))
    (t : Table α) : IsTableOf given t (.obj (t.entries.map fun x => (x.1, f x.2))) :=
  ⟨_, rfl, List.forall₂_map_right_iff.2 (List.forall₂_same.2 fun x _ => ⟨rfl, h x.2⟩)⟩

theorem Context.givenBy_toJson (c : Context) : c.GivenBy c.toJson where
  interfaces := ⟨_, rfl, isTableOf_map (fun _ => ⟨rfl, rfl⟩) _⟩
  constraints := ⟨_, rfl, isListOf_map (fun _ => ⟨rfl, rfl, rfl⟩) _⟩
  suggestions := ⟨_, rfl, isListOf_map (fun _ => ⟨rfl, rfl⟩) _⟩
  utilities := ⟨_, rfl, isListOf_map (fun _ => ⟨rfl, rfl, rfl, rfl⟩) _⟩
  forwarding := by
    obtain ⟨_, _, _, _, forwarding⟩ := c
    cases forwarding with
    | none => exact .inr rfl
    | some names => exact ⟨_, rfl, isListOf_texts names⟩

theorem ChildSpec.givenBy_toJson (c : ChildSpec) : c.GivenBy c.toJson where
  name := rfl
  spec := rfl
  context := ⟨_, rfl, c.context.givenBy_toJson⟩
  isLeaf := rfl
  tags := ⟨_, rfl, isListOf_texts c.tags⟩

theorem QuestionOption.givenBy_toJson (o : QuestionOption) : o.GivenBy o.toJson where
  label := rfl
  description := by
    obtain ⟨_, description⟩ := o
    cases description with
    | none => exact .inr rfl
    | some s => exact ⟨_, rfl, rfl⟩

theorem Question.givenBy_toJson (q : Question) : q.GivenBy q.toJson where
  id := rfl
  question := rfl
  context := rfl
  assumption := rfl
  impact := rfl
  options := by
    obtain ⟨_, _, _, _, _, options, _⟩ := q
    cases options with
    | none => exact .inr rfl
    | some os => exact ⟨_, rfl, isListOf_map QuestionOption.givenBy_toJson _⟩
  answer := by
    obtain ⟨_, _, _, _, _, _, answer⟩ := q
    cases answer with
    | none => exact .inr rfl
    | some s => exact ⟨_, rfl, rfl⟩

theorem Expansion.givenBy_toJson (e : Expansion) : e.GivenBy e.toJson where
  children := ⟨_, rfl, isListOf_map ChildSpec.givenBy_toJson _⟩
  interfaces := ⟨_, rfl, isListOf_map (fun _ => ⟨rfl, rfl, rfl⟩) _⟩
  constraints := ⟨_, rfl, isListOf_map (fun _ => ⟨rfl, rfl, rfl⟩) _⟩
  suggestions := ⟨_, rfl, isListOf_map (fun _ => ⟨rfl, rfl⟩) _⟩
  utilities := ⟨_, rfl, isListOf_map (fun _ => ⟨rfl, rfl, rfl, rfl⟩) _⟩
  questions := ⟨_, rfl, isListOf_map Question.givenBy_toJson _⟩
  considerations := ⟨_, rfl, isListOf_map (fun _ => ⟨rfl, rfl, rfl⟩) _⟩

theorem Production.givenBy_toJson (p : Production) : p.GivenBy p.toJson where
  files := ⟨_, rfl, isListOf_map (fun _ => ⟨rfl, rfl⟩) _⟩
  questions := ⟨_, rfl, isListOf_map Question.givenBy_toJson _⟩
  considerations := ⟨_, rfl, isListOf_map (fun _ => ⟨rfl, rfl, rfl⟩) _⟩

theorem Expansion.shallow (e : Expansion) : Shallow 6 e.toJson := by
  refine shallow_obj (by simp) ?_
  simp only [List.forall_mem_cons]
  exact ⟨shallow_arr ChildSpec.shallow _, (shallow_arr Declaration.shallow _).mono (by decide),
    (shallow_arr Constraint.shallow _).mono (by decide),
    (shallow_arr Suggestion.shallow _).mono (by decide),
    (shallow_arr Utility.shallow _).mono (by decide),
    (shallow_arr Question.shallow _).mono (by decide),
    (shallow_arr Consideration.shallow _).mono (by decide), nofun⟩

theorem GeneratedFile.shallow (f : GeneratedFile) : Shallow 1 f.toJson :=
  shallow_obj (by simp) (by simp [shallow_str])

theorem Production.shallow (p : Production) : Shallow 5 p.toJson := by
  refine shallow_obj (by simp) ?_
  simp only [List.forall_mem_cons]
  exact ⟨(shallow_arr GeneratedFile.shallow _).mono (by decide), shallow_arr Question.shallow _,
    (shallow_arr Consideration.shallow _).mono (by decide), nofun⟩

/-! ## Parts -/

section

variable {α : Type} {j : Json} {name : String} {given : α → Json → Prop}

theorem map_of_forall₂ {β γ : Type} {given : α → γ → Prop} {f : γ → β} {g : α → β} {xs : List α}
    {items : List γ} (h : ∀ x ∈ xs, ∀ j, given x j → f j = g x) (hx : List.Forall₂ given xs items) :
    items.map f = xs.map g := by
  induction hx with
  | nil => rfl
  | cons hg _ ih =>
    rw [List.map_cons, List.map_cons, h _ List.mem_cons_self _ hg,
      ih fun y hy => h y (List.mem_cons_of_mem _ hy)]

/-- Items that are read one by one. -/
theorem mapM_of_forall₂ {m : Type → Type} [Monad m] [LawfulMonad m] {γ : Type}
    {given : α → γ → Prop} {item : γ → m α} {xs : List α} {items : List γ}
    (h : ∀ x ∈ xs, ∀ j, given x j → item j = pure x) (hx : List.Forall₂ given xs items) :
    items.mapM item = pure xs := by
  have hitem := List.mapM_map (f := item) (g := id) (l := items)
  have hpure := List.mapM_map (f := pure) (g := (id : m α → m α)) (l := xs)
  rw [map_of_forall₂ h hx, hpure] at hitem
  exact hitem.symm.trans (List.mapM_pure.trans (congrArg pure (List.map_id xs)))

theorem list?_of_isListOf {item? : Json → Option α} {xs : List α} {v : Json}
    (h : ∀ x j, given x j → item? j = some x) (hv : IsListOf given xs v) :
    list? item? v = some xs := by
  obtain ⟨items, rfl, hx⟩ := hv
  exact mapM_of_forall₂ (fun x _ => h x) hx

theorem table?_of_isTableOf {item? : Json → Option α} {t : Table α} {v : Json}
    (h : ∀ x j, given x j → item? j = some x) (hv : IsTableOf given t v) :
    table? item? v = some t := by
  obtain ⟨members, rfl, hx⟩ := hv
  have hm : members.mapM (fun m => (item? m.2).map (m.1, ·)) = some t.entries :=
    mapM_of_forall₂ (fun x _ m hm => by rw [h x.2 m.2 hm.2, hm.1]; rfl) hx
  simp only [table?, hm, Option.bind_eq_bind, Option.bind_some, Table.ofList_entries, Option.pure_def]

theorem isObject_of_get? {v : Json} (h : j.get? name = some v) : j.isObject = true := by
  cases j
  case obj => rfl
  all_goals cases h

theorem memberOr_of_gives {kind : Json → Prop} {value? : Json → Option α} {x fallback : α}
    (h : ∀ v, kind v → value? v = some x) (hj : j.Gives name kind) :
    j.memberOr name value? fallback = some x := by
  obtain ⟨v, hg, hv⟩ := hj
  rw [memberOr, hg]
  exact h v hv

theorem optional?_of_gives {value? : Json → Option α} {x? : Option α} (ho : j.isObject = true)
    (hn : ∀ x v, given x v → v ≠ .null) (h : ∀ x v, given x v → value? v = some x)
    (hj : j.GivesOptional name given x?) : j.optional? name value? = some x? := by
  rw [optional?]
  cases x? with
  | none => rcases hj with hg | hg <;> simp [hg, ho]
  | some x =>
    obtain ⟨v, hg, hv⟩ := hj
    have := hn x v hv
    simp [hg, h x v hv]

end

section

attribute [local simp] Json.member? Json.memberOr Json.text? Json.flag?

variable {j : Json}

theorem ne_null_of_isText (s : String) (v : Json) (h : IsText s v) : v ≠ .null := by
  rw [show v = .str s from h]
  nofun

theorem ne_null_of_isListOf {α : Type} {given : α → Json → Prop} (xs : List α) (v : Json)
    (h : IsListOf given xs v) : v ≠ .null := by
  obtain ⟨items, rfl, -⟩ := h
  nofun

theorem text?_of_isText (s : String) (v : Json) (h : IsText s v) : text? v = some s := by
  rw [show v = .str s from h]
  rfl

theorem Interface.ofJson?_of_givenBy (i : Interface) (j : Json) (h : i.GivenBy j) :
    Interface.ofJson? j = some i := by
  simp [Interface.ofJson?, h.source, h.definition]

theorem Constraint.ofJson?_of_givenBy (c : Constraint) (j : Json) (h : c.GivenBy j) :
    Constraint.ofJson? j = some c := by
  simp [Constraint.ofJson?, h.rule, h.source, h.important]

theorem Suggestion.ofJson?_of_givenBy (s : Suggestion) (j : Json) (h : s.GivenBy j) :
    Suggestion.ofJson? j = some s := by
  simp [Suggestion.ofJson?, h.rule, h.source]

theorem Utility.ofJson?_of_givenBy (u : Utility) (j : Json) (h : u.GivenBy j) :
    Utility.ofJson? j = some u := by
  simp [Utility.ofJson?, h.name, h.signature, h.location, h.source]

theorem Declaration.ofJson?_of_givenBy (d : Declaration) (j : Json) (h : d.GivenBy j) :
    Declaration.ofJson? j = some d := by
  simp [Declaration.ofJson?, h.name, h.definition, h.source]

theorem QuestionOption.ofJson?_of_givenBy (o : QuestionOption) (j : Json) (h : o.GivenBy j) :
    QuestionOption.ofJson? j = some o := by
  have hd : j.optional? "description" text? = some o.description :=
    optional?_of_gives (isObject_of_get? h.label) ne_null_of_isText text?_of_isText h.description
  simp [QuestionOption.ofJson?, h.label, hd]

/-- **A context is made again** from any object that gives it. -/
theorem Context.ofJson?_of_givenBy (c : Context) (j : Json) (h : c.GivenBy j) :
    Context.ofJson? j = some c := by
  have hforwarding : j.optional? "forwarding" (list? text?) = some c.forwarding := by
    obtain ⟨members, hg, -⟩ := h.interfaces
    exact optional?_of_gives (isObject_of_get? hg) ne_null_of_isListOf
      (fun _ _ => list?_of_isListOf text?_of_isText) h.forwarding
  rw [Context.ofJson?,
    memberOr_of_gives (fun _ => table?_of_isTableOf Interface.ofJson?_of_givenBy) h.interfaces,
    memberOr_of_gives (fun _ => list?_of_isListOf Constraint.ofJson?_of_givenBy) h.constraints,
    memberOr_of_gives (fun _ => list?_of_isListOf Suggestion.ofJson?_of_givenBy) h.suggestions,
    memberOr_of_gives (fun _ => list?_of_isListOf Utility.ofJson?_of_givenBy) h.utilities,
    hforwarding]
  rfl

end

/-! ## Answers that leave nothing to a default -/

/-- A question with a name, whose options are none or some. -/
structure Question.IsComplete (q : Question) : Prop where
  id : q.id ≠ ""
  options : q.options ≠ some []

def Consideration.IsComplete (c : Consideration) : Prop := c.id ≠ ""

structure Expansion.IsComplete (e : Expansion) : Prop where
  children : ∀ c ∈ e.children, c.name ≠ ""
  questions : ∀ q ∈ e.questions, q.IsComplete
  considerations : ∀ c ∈ e.considerations, c.IsComplete

structure Production.IsComplete (p : Production) : Prop where
  questions : ∀ q ∈ p.questions, q.IsComplete
  considerations : ∀ c ∈ p.considerations, c.IsComplete

namespace Response

/-! ## The object and its members -/

section

variable {j : Json} {name s fallback : String}

/-- **A text that is an object is taken whole**, whatever stands in its strings. -/
theorem extractJson_of_read {text : String} (h : read text = .ok j) (hj : j.isObject = true) :
    extractJson text = .ok j := by
  obtain ⟨members, rfl⟩ : ∃ members, j = .obj members := by
    cases j
    case obj members => exact ⟨members, rfl⟩
    all_goals cases hj
  have hf : firstObject? (candidates text.toList) = .ok (some (.obj members)) := by
    rw [candidates, firstObject?, String.ofList_toList, h]
  rw [extractJson, hf]
  rfl

/-- A text is read as it is, an empty one where the default is empty too. -/
theorem textOr_of_get? (h : j.get? name = some (.str s)) (hs : s ≠ "" ∨ fallback = "") :
    textOr j name fallback = s := by
  simp only [textOr, h]
  split
  · rfl
  · next ht =>
    have h0 : s = "" := by simpa [isTruthy] using ht
    rw [h0, hs.resolve_left (not_not_intro h0)]

theorem flag_of_get? {b : Bool} (h : j.get? name = some (.bool b)) :
    ((j.get? name).map isTruthy).getD false = b := by
  rw [h]
  rfl

theorem items_of_gives {α : Type} {given : α → Json → Prop} {xs : List α}
    (h : j.Gives name (IsListOf given xs)) : List.Forall₂ given xs (items j name) := by
  obtain ⟨_, hg, js, rfl, hx⟩ := h
  rwa [items, hg]

/-- Objects are what the items of a list are. -/
theorem filter_isObject {α : Type} {given : α → Json → Prop} {xs : List α} {js : List Json}
    (ho : ∀ x j, given x j → j.isObject = true) (h : List.Forall₂ given xs js) :
    js.filter isObject = js := by
  induction h with
  | nil => rfl
  | cons hg _ ih => rw [List.filter_cons_of_pos (ho _ _ hg), ih]

/-- A list is numbered item by item. -/
theorem numberedObjects_of_gives {α : Type} {given : α → Json → Prop} {xs : List α}
    (ho : ∀ x j, given x j → j.isObject = true) (h : j.Gives name (IsListOf given xs)) :
    List.Forall₂ (fun x m => given x m.2) xs (numberedObjects j name) := by
  have hi := items_of_gives h
  rw [numberedObjects]
  clear h
  generalize items j name = js, 1 = start at hi ⊢
  induction hi generalizing start with
  | nil => exact .nil
  | @cons x k xs ks hg _ ih =>
    simp only [List.zipIdx_cons, List.filterMap_cons, ho x k hg, if_true]
    exact .cons hg (ih _)

/-- **A question is made again** under any number. -/
theorem question?_of_givenBy {q : Question} (hq : q.IsComplete) (n : Nat) (h : q.GivenBy j) :
    question? n j = some q := by
  have hid : textOr j "id" ("q" ++ toString n) = q.id := textOr_of_get? h.id (.inl hq.id)
  have hanswer : j.optional? "answer" text? = some q.answer :=
    optional?_of_gives (isObject_of_get? h.id) ne_null_of_isText text?_of_isText h.answer
  have hoptions : q.options = none ∧ (j.get? "options" = none ∨ j.get? "options" = some .null) ∨
      ∃ v os, q.options = some os ∧ j.get? "options" = some v ∧ v.isTruthy = true
        ∧ v.list? QuestionOption.ofJson? = some os := by
    have ho := h.options
    cases hqo : q.options with
    | none => exact .inl ⟨rfl, by rwa [hqo] at ho⟩
    | some os =>
      rw [hqo] at ho
      obtain ⟨v, hg, hv⟩ := ho
      refine .inr ⟨v, os, rfl, hg, ?_, list?_of_isListOf QuestionOption.ofJson?_of_givenBy hv⟩
      obtain ⟨items, rfl, hx⟩ := hv
      cases hx with
      | nil => exact absurd hqo hq.options
      | cons => rfl
  rw [question?, hid, textOr_of_get? h.question (.inr rfl), textOr_of_get? h.context (.inr rfl),
    textOr_of_get? h.assumption (.inr rfl), textOr_of_get? h.impact (.inr rfl), hanswer]
  obtain ⟨id, question, context, assumption, impact, options, answer⟩ := q
  rcases hoptions with ⟨rfl, hg | hg⟩ | ⟨v, os, rfl, hg, ht, hv⟩
  · rw [hg]
    rfl
  · rw [hg]
    rfl
  · simp [hg, ht, hv]

theorem questions?_of_gives {qs : List Question} (h : ∀ q ∈ qs, q.IsComplete)
    (hj : j.Gives "questions" (IsListOf Question.GivenBy qs)) : questions? j = some qs :=
  mapM_of_forall₂ (fun q hq m hm => question?_of_givenBy (h q hq) m.1 hm)
    (numberedObjects_of_gives (fun _ _ hg => isObject_of_get? hg.id) hj)

theorem considerations_of_gives {cs : List Consideration} (h : ∀ c ∈ cs, c.IsComplete)
    (hj : j.Gives "considerations" (IsListOf Consideration.GivenBy cs)) : considerations j = cs := by
  rw [considerations, map_of_forall₂ (g := id) (fun c hc m hm => ?_)
    (numberedObjects_of_gives (fun _ _ hg => isObject_of_get? hg.id) hj), List.map_id]
  show (⟨_, _, _⟩ : Consideration) = c
  rw [textOr_of_get? hm.id (.inl (h c hc)), textOr_of_get? hm.note (.inr rfl),
    flag_of_get? hm.blocking]

/-! ## Children -/

/-- With its interfaces under their names, a child's context is read as the one in an artifact is. -/
theorem childContext?_of_givenBy {c : Context} (h : c.GivenBy j) : childContext? j = some c := by
  obtain ⟨_, hg, members, rfl, -⟩ := h.interfaces
  have hi : interfaces? j = j.memberOr "interfaces" (table? Interface.ofJson?) {} := by
    rw [interfaces?, memberOr, hg]
    cases members with
    | nil => rfl
    | cons m ms => rfl
  rw [← c.ofJson?_of_givenBy j h, childContext?, isObject_of_get? hg, hi]
  rfl

theorem tags_of_gives {ss : List String} (h : j.Gives "tags" (IsListOf IsText ss)) :
    tags j = .ok ss := by
  obtain ⟨_, hg, items, rfl, hx⟩ := h
  have hs : items.map display = ss := by
    rw [map_of_forall₂ (g := id) (fun s _ v hv => ?_) hx, List.map_id]
    rw [show v = .str s from hv]
    rfl
  simp only [tags, hg]
  cases items with
  | nil => exact congrArg Except.ok hs
  | cons => exact congrArg Except.ok hs

/-- **A child is made again.** -/
theorem child_of_givenBy {c : ChildSpec} (hc : c.name ≠ "") (h : c.GivenBy j) :
    child j = .ok c := by
  obtain ⟨v, hg, hv⟩ := h.context
  have hleaf : saysLeaf j = c.isLeaf := by
    rw [saysLeaf, h.isLeaf]
    rfl
  rw [child, hg, Option.getD_some, childContext?_of_givenBy hv, tags_of_gives h.tags,
    textOr_of_get? h.name (.inl hc), textOr_of_get? h.spec (.inr rfl), hleaf]
  rfl

/-! ## Whole answers -/

theorem children_of_gives {cs : List ChildSpec} (h : ∀ c ∈ cs, c.name ≠ "")
    (hj : j.Gives "children" (IsListOf ChildSpec.GivenBy cs)) :
    ((items j "children").filter isObject).mapM child = .ok cs := by
  have hi := items_of_gives hj
  rw [filter_isObject (fun _ _ hg => isObject_of_get? hg.name) hi]
  exact mapM_of_forall₂ (fun c hc _ hg => child_of_givenBy (h c hc) hg) hi

theorem files_of_gives {fs : List GeneratedFile}
    (hj : j.Gives "files" (IsListOf GeneratedFile.GivenBy fs)) :
    ((items j "files").filter isObject).map generatedFile = fs := by
  have hi := items_of_gives hj
  rw [filter_isObject (fun _ _ hg => isObject_of_get? hg.path) hi,
    map_of_forall₂ (g := id) (fun f _ v hv => ?_) hi, List.map_id]
  rw [generatedFile, textOr_of_get? hv.path (.inr rfl), textOr_of_get? hv.content (.inr rfl)]
  rfl

theorem mapM_items {α : Type} {given : α → Json → Prop} {item? : Json → Option α} {xs : List α}
    (h : ∀ x j, given x j → item? j = some x) (hj : j.Gives name (IsListOf given xs)) :
    (items j name).mapM item? = some xs :=
  mapM_of_forall₂ (fun x _ => h x) (items_of_gives hj)

/-- **An expansion is made again** from any text whose value gives it. -/
theorem expansion_of_givenBy {e : Expansion} (he : e.IsComplete) {text : String}
    (ht : read text = .ok j) (h : e.GivenBy j) : expansion text = .ok e := by
  obtain ⟨_, hg, -⟩ := h.children
  simp only [expansion, extractJson_of_read ht (isObject_of_get? hg),
    children_of_gives he.children h.children, mapM_items Declaration.ofJson?_of_givenBy h.interfaces,
    mapM_items Constraint.ofJson?_of_givenBy h.constraints,
    mapM_items Suggestion.ofJson?_of_givenBy h.suggestions,
    mapM_items Utility.ofJson?_of_givenBy h.utilities, questions?_of_gives he.questions h.questions,
    considerations_of_gives he.considerations h.considerations, bind, Except.bind, Option.bind]
  rfl

/-- **A production is made again** likewise. -/
theorem production_of_givenBy {p : Production} (hp : p.IsComplete) {text : String}
    (ht : read text = .ok j) (h : p.GivenBy j) : production text = .ok p := by
  obtain ⟨_, hg, -⟩ := h.files
  simp only [production, extractJson_of_read ht (isObject_of_get? hg), files_of_gives h.files,
    questions?_of_gives hp.questions h.questions,
    considerations_of_gives hp.considerations h.considerations, bind, Except.bind, Option.bind]
  rfl

end

/-- **A response is read as the answer that it gives**: any text whose JSON value gives a complete
answer, such as the two that are printed for it. -/
theorem expansion_eq_and_production_eq :
    (∀ e : Expansion, e.IsComplete →
      (∀ text j, read text = .ok j → e.GivenBy j → expansion text = .ok e)
        ∧ expansion e.toJson.pretty = .ok e ∧ expansion e.toJson.compact = .ok e) ∧
    ∀ p : Production, p.IsComplete →
      (∀ text j, read text = .ok j → p.GivenBy j → production text = .ok p)
        ∧ production p.toJson.pretty = .ok p ∧ production p.toJson.compact = .ok p := by
  refine ⟨fun e he => ?_, fun p hp => ?_⟩
  · have hread : ∀ text j, read text = .ok j → e.GivenBy j → expansion text = .ok e :=
      fun _ _ => expansion_of_givenBy he
    exact ⟨hread, hread _ _ (read_pretty e.shallow.plain) e.givenBy_toJson,
      hread _ _ (read_compact e.shallow.plain) e.givenBy_toJson⟩
  · have hread : ∀ text j, read text = .ok j → p.GivenBy j → production text = .ok p :=
      fun _ _ => production_of_givenBy hp
    exact ⟨hread, hread _ _ (read_pretty p.shallow.plain) p.givenBy_toJson,
      hread _ _ (read_compact p.shallow.plain) p.givenBy_toJson⟩

/-- A text with a fence, braces, a quote and a line end. -/
def knot : String := "\x60\x60\x60json\n\x7b\"a\": \\\x7d\x60\x60\x60"

def knottedQuestion : Question :=
  ⟨knot, knot, knot, knot, "", some [⟨knot, none⟩, ⟨"", some knot⟩], some knot⟩

def knottedExpansion : Expansion where
  children := [⟨knot, knot, { interfaces := Table.ofList [(knot, ⟨knot, ""⟩)] }, true, [knot, ""]⟩]
  constraints := [⟨knot, knot, true⟩]
  questions := [knottedQuestion]
  considerations := [⟨knot, knot, true⟩]

def knottedProduction : Production := ⟨[⟨knot, knot⟩], [knottedQuestion], [⟨knot, "", false⟩]⟩

theorem knottedQuestion_isComplete : knottedQuestion.IsComplete := ⟨by decide, nofun⟩

theorem knottedExpansion_isComplete : knottedExpansion.IsComplete where
  children := by simp [knottedExpansion, knot]
  questions := by simp [knottedExpansion, knottedQuestion_isComplete]
  considerations := by simp [knottedExpansion, Consideration.IsComplete, knot]

theorem knottedProduction_isComplete : knottedProduction.IsComplete where
  questions := by simp [knottedProduction, knottedQuestion_isComplete]
  considerations := by simp [knottedProduction, Consideration.IsComplete, knot]

/-- Fences, braces and quotes inside strings come back as they were. -/
theorem expansion_and_production_knotted :
    expansion knottedExpansion.toJson.pretty = .ok knottedExpansion
      ∧ expansion knottedExpansion.toJson.compact = .ok knottedExpansion
      ∧ production knottedProduction.toJson.pretty = .ok knottedProduction
      ∧ production knottedProduction.toJson.compact = .ok knottedProduction :=
  ⟨(expansion_eq_and_production_eq.1 _ knottedExpansion_isComplete).1 _ _
      (read_pretty knottedExpansion.shallow.plain) knottedExpansion.givenBy_toJson,
    (expansion_eq_and_production_eq.1 _ knottedExpansion_isComplete).2.2,
    (expansion_eq_and_production_eq.2 _ knottedProduction_isComplete).1 _ _
      (read_pretty knottedProduction.shallow.plain) knottedProduction.givenBy_toJson,
    (expansion_eq_and_production_eq.2 _ knottedProduction_isComplete).2.2⟩

end Response

end SpecTree
