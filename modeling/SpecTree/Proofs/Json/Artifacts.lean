import SpecTree.Plan.Artifacts
import SpecTree.Proofs.Json.RoundTrip

/-!
# Records are read back

A record's text is read as that record, time stamp included, if the stamp is one that is accepted;
with another stamp it is read as nothing (`record_of_recordText`). Each part of a record is read
back from its JSON value first.
-/

namespace SpecTree

namespace Json

/-! ## Values of bounded height -/

/-- A value that is read back from a text, and how high it is at most. -/
structure Shallow (n : Nat) (j : Json) : Prop where
  plain : IsPlain j
  height : height j ≤ n

variable {n : Nat}

theorem shallow_str (s : String) : Shallow n (str s) := ⟨trivial, Nat.zero_le n⟩

theorem shallow_bool (b : Bool) : Shallow n (bool b) := ⟨trivial, Nat.zero_le n⟩

theorem shallow_null : Shallow n null := ⟨trivial, Nat.zero_le n⟩

theorem heightItems_le {items : List Json} (h : ∀ j ∈ items, height j ≤ n) :
    heightItems items ≤ n := by
  induction items with
  | nil => exact Nat.zero_le n
  | cons j rest ih =>
    exact Nat.max_le.2 ⟨h j List.mem_cons_self, ih fun k hk => h k (List.mem_cons_of_mem _ hk)⟩

theorem heightMembers_le {members : List (String × Json)} (h : ∀ m ∈ members, height m.2 ≤ n) :
    heightMembers members ≤ n := by
  induction members with
  | nil => exact Nat.zero_le n
  | cons m rest ih =>
    exact Nat.max_le.2 ⟨h m List.mem_cons_self, ih fun k hk => h k (List.mem_cons_of_mem _ hk)⟩

theorem shallow_arr {α : Type} {f : α → Json} (h : ∀ x, Shallow n (f x)) (xs : List α) :
    Shallow (n + 1) (arr (xs.map f)) := by
  have hf : ∀ j ∈ xs.map f, Shallow n j := by
    intro j hj
    obtain ⟨x, -, rfl⟩ := List.mem_map.1 hj
    exact h x
  exact ⟨arePlain_iff.2 fun j hj => (hf j hj).plain,
    Nat.succ_le_succ (heightItems_le fun j hj => (hf j hj).height)⟩

theorem shallow_obj {members : List (String × Json)} (hn : (members.map Prod.fst).Nodup)
    (h : ∀ m ∈ members, Shallow n m.2) : Shallow (n + 1) (obj members) :=
  ⟨⟨hn, havePlain_iff.2 fun m hm => (h m hm).plain⟩,
    Nat.succ_le_succ (heightMembers_le fun m hm => (h m hm).height)⟩

/-! ## Lists and tables -/

theorem list?_map {α : Type} {item? : Json → Option α} {toJson : α → Json}
    (h : ∀ x, item? (toJson x) = some x) (xs : List α) :
    list? item? (arr (xs.map toJson)) = some xs := by
  show (xs.map toJson).mapM item? = some xs
  induction xs with
  | nil => rfl
  | cons x xs ih =>
    rw [List.map_cons, List.mapM_cons, h, ih]
    rfl

end Json

theorem Table.ofList_entries {α : Type} (t : Table α) : Table.ofList t.entries = t := by
  have happ (xs : List (String × α)) (u : Table α)
      (hn : ((u.entries ++ xs).map Prod.fst).Nodup) :
      (xs.foldl (fun t x => t.put x.1 x.2) u).entries = u.entries ++ xs := by
    induction xs generalizing u with
    | nil => simp
    | cons x xs ih =>
      obtain ⟨name, value⟩ := x
      have hm : name ∉ u.entries.map Prod.fst := by
        rw [List.map_append, List.nodup_append] at hn
        exact fun hm => hn.2.2 name hm name (by simp) rfl
      have hp : (u.put name value).entries = u.entries ++ [(name, value)] := putEntry_of_not_mem hm
      rw [List.foldl_cons, ih _ (by rw [hp]; simpa using hn), hp]
      simp
  have h := happ t.entries Table.empty (by simpa [Table.empty] using t.distinct)
  obtain ⟨entries, distinct⟩ := t
  unfold Table.ofList
  cases hf : entries.foldl (fun t x => t.put x.1 x.2) Table.empty with
  | mk es hd =>
    rw [hf] at h
    obtain rfl : es = entries := h
    rfl

namespace Json

theorem table?_map {α : Type} {item? : Json → Option α} {toJson : α → Json}
    (h : ∀ x, item? (toJson x) = some x) (t : Table α) :
    table? item? (obj (t.entries.map fun x => (x.1, toJson x.2))) = some t := by
  have hm (xs : List (String × α)) :
      (xs.map fun x => (x.1, toJson x.2)).mapM (fun x => (item? x.2).map (x.1, ·)) = some xs := by
    induction xs with
    | nil => rfl
    | cons x xs ih =>
      rw [List.map_cons, List.mapM_cons, ih]
      simp [h]
  simp only [table?, hm, Option.bind_eq_bind, Option.bind_some, Table.ofList_entries, Option.pure_def]

end Json

/-! ## The parts of a record -/

section

open Json

attribute [local simp] Json.member? Json.memberOr Json.optional? Json.get? Json.text? Json.flag?
  List.lookup_cons

theorem Interface.ofJson?_toJson (i : Interface) : Interface.ofJson? i.toJson = some i := by
  simp [Interface.ofJson?, Interface.toJson]

theorem Constraint.ofJson?_toJson (c : Constraint) : Constraint.ofJson? c.toJson = some c := by
  simp [Constraint.ofJson?, Constraint.toJson]

theorem Suggestion.ofJson?_toJson (s : Suggestion) : Suggestion.ofJson? s.toJson = some s := by
  simp [Suggestion.ofJson?, Suggestion.toJson]

theorem Utility.ofJson?_toJson (u : Utility) : Utility.ofJson? u.toJson = some u := by
  simp [Utility.ofJson?, Utility.toJson]

theorem Declaration.ofJson?_toJson (d : Declaration) : Declaration.ofJson? d.toJson = some d := by
  simp [Declaration.ofJson?, Declaration.toJson]

theorem list?_text (ss : List String) : list? text? (.arr (ss.map Json.str)) = some ss := by
  have h (s : String) : text? (Json.str s) = some s := rfl
  exact list?_map h ss

theorem Context.ofJson?_toJson (c : Context) : Context.ofJson? c.toJson = some c := by
  obtain ⟨interfaces, constraints, suggestions, utilities, forwarding⟩ := c
  cases forwarding <;>
    simp [Context.ofJson?, Context.toJson, table?_map Interface.ofJson?_toJson,
      list?_map Constraint.ofJson?_toJson, list?_map Suggestion.ofJson?_toJson,
      list?_map Utility.ofJson?_toJson, list?_text]

theorem ChildSpec.ofJson?_toJson (c : ChildSpec) : ChildSpec.ofJson? c.toJson = some c := by
  simp [ChildSpec.ofJson?, ChildSpec.toJson, Context.ofJson?_toJson, list?_text]

/-- **A record is made again from its value**, if its time stamp is one. -/
theorem Plan.Record.ofJson?_toJson (r : Plan.Record) :
    Plan.Record.ofJson? r.toJson = if Stamp.isStamp r.compiledAt then some r else none := by
  by_cases h : Stamp.isStamp r.compiledAt = true <;>
    simp [Plan.Record.ofJson?, Plan.Record.toJson, Plan.Record.members, Plan.Record.stamp?, h,
      Context.ofJson?_toJson, list?_map ChildSpec.ofJson?_toJson,
      list?_map Declaration.ofJson?_toJson, list?_map Constraint.ofJson?_toJson,
      list?_map Suggestion.ofJson?_toJson, list?_map Utility.ofJson?_toJson]

end

/-! ## Their heights -/

section

open Json

theorem Interface.shallow (i : Interface) : Shallow 1 i.toJson :=
  shallow_obj (by simp) (by simp [shallow_str])

theorem Constraint.shallow (c : Constraint) : Shallow 1 c.toJson :=
  shallow_obj (by simp) (by simp [shallow_str, shallow_bool])

theorem Suggestion.shallow (s : Suggestion) : Shallow 1 s.toJson :=
  shallow_obj (by simp) (by simp [shallow_str])

theorem Utility.shallow (u : Utility) : Shallow 1 u.toJson :=
  shallow_obj (by simp) (by simp [shallow_str])

theorem Declaration.shallow (d : Declaration) : Shallow 1 d.toJson :=
  shallow_obj (by simp) (by simp [shallow_str])

theorem Json.Shallow.mono {m n : Nat} {j : Json} (h : Shallow m j) (hm : m ≤ n) : Shallow n j :=
  ⟨h.plain, Nat.le_trans h.height hm⟩

theorem shallow_texts (ss : List String) : Shallow 1 (.arr (ss.map Json.str)) :=
  shallow_arr shallow_str ss

theorem Context.shallow (c : Context) : Shallow 3 c.toJson := by
  refine shallow_obj (by simp) ?_
  have hi : Shallow 2 (.obj (c.interfaces.entries.map fun x => (x.1, x.2.toJson))) := by
    refine shallow_obj ?_ fun m hm => ?_
    · rw [List.map_map]
      exact c.interfaces.distinct
    · obtain ⟨x, -, rfl⟩ := List.mem_map.1 hm
      exact x.2.shallow
  have hf : Shallow 2 (c.forwarding.elim Json.null fun names => .arr (names.map Json.str)) := by
    cases c.forwarding with
    | none => exact shallow_null
    | some names => exact (shallow_texts names).mono (by decide)
  simp only [List.forall_mem_cons]
  exact ⟨hi, shallow_arr Constraint.shallow _, shallow_arr Suggestion.shallow _,
    shallow_arr Utility.shallow _, hf, fun _ hm => absurd hm List.not_mem_nil⟩

theorem ChildSpec.shallow (c : ChildSpec) : Shallow 4 c.toJson := by
  refine shallow_obj (by simp) ?_
  simp only [List.forall_mem_cons]
  exact ⟨shallow_str _, shallow_str _, c.context.shallow, shallow_bool _,
    (shallow_texts _).mono (by decide), nofun⟩

theorem Plan.Record.shallow (r : Plan.Record) : Shallow 6 r.toJson := by
  refine shallow_obj (by simp [Plan.Record.members]) ?_
  simp only [Plan.Record.members, List.cons_append, List.nil_append, List.forall_mem_cons]
  exact ⟨shallow_str _, shallow_str _, shallow_str _, shallow_bool _,
    r.context.shallow.mono (by decide), shallow_arr ChildSpec.shallow _,
    (shallow_arr Declaration.shallow _).mono (by decide),
    (shallow_arr Constraint.shallow _).mono (by decide),
    (shallow_arr Suggestion.shallow _).mono (by decide),
    (shallow_arr Utility.shallow _).mono (by decide), shallow_str _, nofun⟩

end

/-! ## The text of a record -/

namespace Plan

/-- **A record's text is read as that record**, if its time stamp is one. -/
theorem record_of_recordText (r : Record) :
    (Json.readStored? (recordText r)).bind Record.ofJson?
      = if Stamp.isStamp r.compiledAt then some r else none := by
  rw [recordText, Json.readStored?_pretty r.shallow.plain
    (Nat.le_trans r.shallow.height (by decide)), Option.bind_some, Record.ofJson?_toJson]

theorem unifyLineEnds_recordText (r : Record) :
    Text.unifyLineEnds (recordText r).toList = (recordText r).toList :=
  Json.unifyLineEnds_pretty r.shallow.plain

end Plan

end SpecTree
