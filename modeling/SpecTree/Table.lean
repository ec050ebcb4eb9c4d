/-!
# Tables

Values under distinct names, in the order in which the names were first given. Giving a name
again replaces its value and keeps its place.

1. `get?_put`: after a `put`, the new value stands under its name and all others are as before.
2. `names_put`: a name that was there keeps its place, a new one comes last.
3. `mem_names_iff`: the names are those under which there is a value.
-/

namespace SpecTree

/-- Replaces the value under a name, or puts the name last. -/
def putEntry {α : Type} (name : String) (value : α) : List (String × α) → List (String × α)
  | [] => [(name, value)]
  | (n, v) :: rest => if n = name then (n, value) :: rest else (n, v) :: putEntry name value rest

theorem keys_putEntry {α : Type} (name : String) (value : α) (xs : List (String × α)) :
    (putEntry name value xs).map Prod.fst
      = if name ∈ xs.map Prod.fst then xs.map Prod.fst else xs.map Prod.fst ++ [name] := by
  induction xs with
  | nil => rfl
  | cons x xs ih =>
    obtain ⟨n, v⟩ := x
    rw [putEntry]
    split
    · next h => simp [h]
    · next h =>
      have h' : name ≠ n := fun e => h e.symm
      rw [List.map_cons, ih]
      split
      · next hm => rw [if_pos (by simp [hm])]; simp
      · next hm => rw [if_neg (by simp [hm, h'])]; simp

theorem putEntry_of_not_mem {α : Type} {name : String} {value : α} {xs : List (String × α)}
    (h : name ∉ xs.map Prod.fst) : putEntry name value xs = xs ++ [(name, value)] := by
  induction xs with
  | nil => rfl
  | cons x xs ih =>
    obtain ⟨n, v⟩ := x
    simp only [List.map_cons, List.mem_cons, not_or] at h
    rw [putEntry, if_neg fun he => h.1 he.symm, ih h.2]
    rfl

theorem nodup_putEntry {α : Type} (name : String) (value : α) (xs : List (String × α))
    (h : (xs.map Prod.fst).Nodup) : ((putEntry name value xs).map Prod.fst).Nodup := by
  rw [keys_putEntry]
  split
  · exact h
  · next hm =>
    rw [List.nodup_append]
    refine ⟨h, by simp, fun a ha b hb e => ?_⟩
    rw [List.mem_singleton.1 hb] at e
    exact hm (e ▸ ha)

theorem lookup_cons {α : Type} (name other : String) (value : α) (xs : List (String × α)) :
    ((name, value) :: xs).lookup other
      = if other = name then some value else xs.lookup other := by
  rw [List.lookup_cons]
  split
  · next h => rw [if_pos (eq_of_beq h)]
  · next h => rw [if_neg (ne_of_beq_false h)]

theorem lookup_putEntry {α : Type} (name other : String) (value : α) (xs : List (String × α)) :
    (putEntry name value xs).lookup other
      = if other = name then some value else xs.lookup other := by
  induction xs with
  | nil => exact lookup_cons name other value []
  | cons x xs ih =>
    obtain ⟨n, v⟩ := x
    rw [putEntry]
    split
    · next h =>
      subst h
      rw [lookup_cons, lookup_cons]
      split <;> rfl
    · next h =>
      rw [lookup_cons, lookup_cons, ih]
      split
      · next ho => rw [if_neg (ho ▸ h)]
      · rfl

theorem isSome_lookup_iff {α : Type} (name : String) (xs : List (String × α)) :
    (xs.lookup name).isSome = true ↔ name ∈ xs.map Prod.fst := by
  induction xs with
  | nil => simp
  | cons x xs ih =>
    obtain ⟨n, v⟩ := x
    rw [lookup_cons, List.map_cons, List.mem_cons, ← ih]
    split
    · next h => simp [h]
    · next h => simp [h]

structure Table (α : Type) where
  entries : List (String × α)
  distinct : (entries.map Prod.fst).Nodup

namespace Table

variable {α : Type}

def empty : Table α := ⟨[], List.nodup_nil⟩

instance : EmptyCollection (Table α) := ⟨empty⟩
instance : Inhabited (Table α) := ⟨empty⟩

instance [BEq α] : BEq (Table α) := ⟨fun a b => a.entries == b.entries⟩
instance [DecidableEq α] : DecidableEq (Table α) := fun a b =>
  decidable_of_iff (a.entries = b.entries)
    ⟨fun h => by cases a; cases b; cases h; rfl, fun h => h ▸ rfl⟩

def isEmpty (t : Table α) : Bool := t.entries.isEmpty

def size (t : Table α) : Nat := t.entries.length

def names (t : Table α) : List String := t.entries.map Prod.fst

def get? (t : Table α) (name : String) : Option α := t.entries.lookup name

def put (t : Table α) (name : String) (value : α) : Table α :=
  ⟨putEntry name value t.entries, nodup_putEntry name value t.entries t.distinct⟩

theorem get?_put (t : Table α) (name other : String) (value : α) :
    (t.put name value).get? other = if other = name then some value else t.get? other :=
  lookup_putEntry name other value t.entries

theorem names_put (t : Table α) (name : String) (value : α) :
    (t.put name value).names = if name ∈ t.names then t.names else t.names ++ [name] :=
  keys_putEntry name value t.entries

theorem mem_names_iff (t : Table α) (name : String) :
    name ∈ t.names ↔ (t.get? name).isSome = true :=
  (isSome_lookup_iff name t.entries).symm

def ofList (xs : List (String × α)) : Table α := xs.foldl (fun t x => t.put x.1 x.2) empty

end Table

end SpecTree
