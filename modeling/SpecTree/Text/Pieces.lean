/-!
# Pieces of a text

Splitting a list where a class of elements ends, splitting a text at every occurrence of a
separator, and joining the pieces again.
-/

namespace SpecTree.Text

/-- The longest run of elements of a class at the start, and what follows it. -/
def splitWhile {α : Type} (p : α → Bool) (xs : List α) : List α × List α :=
  (xs.takeWhile p, xs.dropWhile p)

@[simp] theorem splitWhile_append {α : Type} (p : α → Bool) (xs : List α) :
    (splitWhile p xs).1 ++ (splitWhile p xs).2 = xs :=
  List.takeWhile_append_dropWhile

theorem splitWhile_snd_length {α : Type} (p : α → Bool) (xs : List α) :
    (splitWhile p xs).2.length ≤ xs.length :=
  (List.dropWhile_suffix _).length_le

theorem splitWhile_fst_ne_nil {α : Type} {p : α → Bool} {x : α} (xs : List α) (h : p x = true) :
    (splitWhile p (x :: xs)).1 ≠ [] := by
  simp [splitWhile, h]

theorem splitWhile_of_all {α : Type} {p : α → Bool} {xs rest : List α} (h : ∀ x ∈ xs, p x = true)
    (hr : ∀ x, rest.head? = some x → p x = false) : splitWhile p (xs ++ rest) = (xs, rest) := by
  have hrest : rest.takeWhile p = [] ∧ rest.dropWhile p = rest := by
    cases rest with
    | nil => exact ⟨rfl, rfl⟩
    | cons x rest => simp [hr x rfl]
  rw [splitWhile, List.takeWhile_append_of_pos h, List.dropWhile_append_of_pos h, hrest.1, hrest.2,
    List.append_nil]

/-- A run of a class ends where the text goes on with a character outside of it. -/
theorem splitWhile_append_of_stop {α : Type} {p : α → Bool} (xs : List α) {rest : List α}
    (hr : ∀ x, rest.head? = some x → p x = false) :
    splitWhile p (xs ++ rest) = ((splitWhile p xs).1, (splitWhile p xs).2 ++ rest) := by
  induction xs with
  | nil => exact splitWhile_of_all (List.forall_mem_nil _) hr
  | cons x xs ih =>
    simp only [splitWhile, Prod.mk.injEq, List.cons_append, List.takeWhile_cons, List.dropWhile_cons]
      at ih ⊢
    split
    · exact ⟨by rw [ih.1], ih.2⟩
    · exact ⟨rfl, rfl⟩

/-- The pieces between the separators; there is always one more piece than separators. -/
def pieces (sep : Char) : List Char → List (List Char)
  | [] => [[]]
  | c :: cs =>
    if c = sep then [] :: pieces sep cs
    else
      match pieces sep cs with
      | [] => [[c]]
      | p :: ps => (c :: p) :: ps

/-- The pieces with a separator between any two. -/
def joinPieces (sep : Char) : List (List Char) → List Char
  | [] => []
  | [p] => p
  | p :: q :: ps => p ++ sep :: joinPieces sep (q :: ps)

theorem pieces_ne_nil (sep : Char) (cs : List Char) : pieces sep cs ≠ [] := by
  induction cs with
  | nil => simp [pieces]
  | cons c cs ih =>
    rw [pieces]
    split
    · simp
    · split <;> simp

theorem joinPieces_pieces (sep : Char) (cs : List Char) : joinPieces sep (pieces sep cs) = cs := by
  induction cs with
  | nil => rfl
  | cons c cs ih =>
    rw [pieces]
    split
    · next h =>
      subst h
      obtain ⟨p, ps, hp⟩ := List.exists_cons_of_ne_nil (pieces_ne_nil c cs)
      rw [hp] at ih ⊢
      simp [joinPieces, ih]
    · split
      · next hp => exact absurd hp (pieces_ne_nil sep cs)
      · next p ps hp =>
        rw [hp] at ih
        cases ps with
        | nil => simpa [joinPieces] using ih
        | cons q qs => simpa [joinPieces] using ih

/-- The pieces of a string. -/
def splitAt (sep : Char) (s : String) : List String :=
  (pieces sep s.toList).map String.ofList

end SpecTree.Text
