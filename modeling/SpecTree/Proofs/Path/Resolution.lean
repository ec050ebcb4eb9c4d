import SpecTree.Proofs.Path.Spelling

/-!
# Where steps lead

A relative path is a row of steps. `Resolves steps names` says where they lead: empty steps and those for
the same directory stay, a parent step takes back the name before it, and a parent step with no name to take
back is kept. Every row of steps leads somewhere, and to one row of names only (`resolves_iff`).

1. Names that are resolved are some of the steps, in their order (`Resolves.sublist`).
2. Resolved names without a parent step lead where they are (`resolves_self`).
-/

namespace SpecTree

namespace Text

/-- The pieces are what the library's splitting gives. -/
theorem pieces_eq_splitOn (sep : Char) (cs : List Char) : pieces sep cs = cs.splitOn sep := by
  calc pieces sep cs
      = ([sep].intercalate (pieces sep cs)).splitOn sep :=
        (List.splitOn_intercalate sep (fun _ hp hm => (mem_pieces hp hm).2 rfl)
          (pieces_ne_nil sep cs)).symm
    _ = cs.splitOn sep := by rw [← Path.joinPieces_eq_intercalate, joinPieces_pieces]

theorem length_joinPieces_le_cons (sep : Char) (p : List Char) (ps : List (List Char)) :
    (joinPieces sep ps).length ≤ (joinPieces sep (p :: ps)).length := by
  cases ps with
  | nil => exact Nat.zero_le _
  | cons q qs =>
    rw [joinPieces, List.length_append, List.length_cons]
    omega

/-- Fewer pieces make no longer a text. -/
theorem length_joinPieces_le {ps qs : List (List Char)} (h : ps.Sublist qs) (sep : Char) :
    (joinPieces sep ps).length ≤ (joinPieces sep qs).length := by
  induction h with
  | slnil => exact Nat.le_refl _
  | cons q _ ih => exact Nat.le_trans ih (length_joinPieces_le_cons sep q _)
  | @cons_cons ps qs p h ih =>
    cases qs with
    | nil => rw [List.sublist_nil.1 h]
    | cons q qs =>
      cases ps with
      | nil => simp [joinPieces]
      | cons r rs =>
        rw [joinPieces, joinPieces, List.length_append, List.length_append, List.length_cons,
          List.length_cons]
        omega

end Text

namespace Path

open Text

/-- The names that steps lead to, taken one after the other from a directory that has no name. -/
inductive Resolves : List (List Char) → List (List Char) → Prop
  | nil : Resolves [] []
  | stay {steps names : List (List Char)} {step : List Char} (h : Resolves steps names)
      (hs : step = [] ∨ step = here) : Resolves (steps ++ [step]) names
  | down {steps names : List (List Char)} {step : List Char} (h : Resolves steps names)
      (h0 : step ≠ []) (h1 : step ≠ here) (h2 : step ≠ parent) :
      Resolves (steps ++ [step]) (names ++ [step])
  | up {steps names : List (List Char)} {name : List Char} (h : Resolves steps (names ++ [name]))
      (hn : name ≠ parent) : Resolves (steps ++ [parent]) names
  | out {steps names : List (List Char)} (h : Resolves steps names)
      (hl : ∀ name ∈ names.getLast?, name = parent) :
      Resolves (steps ++ [parent]) (names ++ [parent])

variable {steps names : List (List Char)} {step name : List Char}

/-! ## Names as they are worked out -/

/-- The steps that count. -/
def counted (steps : List (List Char)) : List (List Char) :=
  steps.filter fun step => !step.isEmpty && step != here

theorem components_eq_counted (p : List Char) : components p = counted (p.splitOn '/') := by
  rw [← pieces_eq_splitOn]
  rfl

theorem counted_concat_of_stay (h : step = [] ∨ step = here) :
    counted (steps ++ [step]) = counted steps := by
  rw [counted, List.filter_append, List.filter_cons_of_neg (by rcases h with rfl | rfl <;> simp)]
  simp [counted]

theorem counted_concat (h0 : step ≠ []) (h1 : step ≠ here) :
    counted (steps ++ [step]) = counted steps ++ [step] := by
  rw [counted, List.filter_append, List.filter_cons_of_pos (by simp [h0, h1])]
  simp [counted]

theorem resolveParents_concat (cs : List (List Char)) (c : List Char) :
    resolveParents false (cs ++ [c]) = (push false (resolveParents false cs).reverse c).reverse := by
  rw [resolveParents, resolveParents, List.foldl_append, List.reverse_reverse]
  rfl

theorem resolveParents_concat_down (cs : List (List Char)) (h : name ≠ parent) :
    resolveParents false (cs ++ [name]) = resolveParents false cs ++ [name] := by
  rw [resolveParents_concat]
  unfold push
  rw [if_neg h, List.reverse_cons, List.reverse_reverse]

theorem resolveParents_concat_up {cs : List (List Char)}
    (hn : resolveParents false cs = names ++ [name]) (h : name ≠ parent) :
    resolveParents false (cs ++ [parent]) = names := by
  rw [resolveParents_concat, hn]
  simp [push, h]

theorem resolveParents_concat_out {cs : List (List Char)}
    (h : ∀ name ∈ (resolveParents false cs).getLast?, name = parent) :
    resolveParents false (cs ++ [parent]) = resolveParents false cs ++ [parent] := by
  rw [resolveParents_concat]
  generalize resolveParents false cs = found at h
  induction found using List.reverseRecOn with
  | nil => rfl
  | append_singleton found name _ =>
    obtain rfl : name = parent := h name (by simp)
    simp [push]

theorem Resolves.eq (h : Resolves steps names) : names = resolveParents false (counted steps) := by
  induction h with
  | nil => rfl
  | stay _ hs ih => rw [counted_concat_of_stay hs, ih]
  | down _ h0 h1 h2 ih => rw [counted_concat h0 h1, resolveParents_concat_down _ h2, ih]
  | up _ hn ih =>
    rw [counted_concat (by decide) (by decide)]
    exact (resolveParents_concat_up ih.symm hn).symm
  | out _ hl ih =>
    rw [counted_concat (by decide) (by decide), resolveParents_concat_out (ih ▸ hl), ← ih]

theorem resolves_resolveParents (steps : List (List Char)) :
    Resolves steps (resolveParents false (counted steps)) := by
  induction steps using List.reverseRecOn with
  | nil => exact .nil
  | append_singleton steps step ih =>
    by_cases hstay : step = [] ∨ step = here
    · rw [counted_concat_of_stay hstay]
      exact ih.stay hstay
    obtain ⟨h0, h1⟩ := not_or.1 hstay
    rw [counted_concat h0 h1]
    by_cases hup : step = parent
    · subst hup
      by_cases hlast : ∀ name ∈ (resolveParents false (counted steps)).getLast?, name = parent
      · rw [resolveParents_concat_out hlast]
        exact ih.out hlast
      · push Not at hlast
        obtain ⟨name, hm, hn⟩ := hlast
        obtain ⟨names, hnames⟩ := List.getLast?_eq_some_iff.1 (Option.mem_def.1 hm)
        rw [resolveParents_concat_up hnames hn]
        exact .up (hnames ▸ ih) hn
    · rw [resolveParents_concat_down _ hup]
      exact ih.down h0 h1 hup

/-- **Steps lead to one row of names.** -/
theorem resolves_iff : Resolves steps names ↔ names = resolveParents false (counted steps) :=
  ⟨Resolves.eq, fun h => h ▸ resolves_resolveParents steps⟩

/-! ## Resolved names -/

/-- Only steps are left, in their order. -/
theorem Resolves.sublist (h : Resolves steps names) : names.Sublist steps := by
  induction h with
  | nil => exact .slnil
  | stay _ _ ih => exact ih.trans (List.sublist_append_left _ _)
  | down _ _ _ _ ih => exact ih.append_right _
  | up _ _ ih => exact ((List.sublist_append_left _ _).trans ih).trans (List.sublist_append_left _ _)
  | out _ _ ih => exact ih.append_right _

theorem Resolves.ne_nil_and_ne_here (h : Resolves steps names) : ∀ name ∈ names, name ≠ [] ∧ name ≠ here := by
  induction h with
  | nil => exact nofun
  | stay _ _ ih => exact ih
  | down _ h0 h1 _ ih =>
    exact List.forall_mem_append.2 ⟨ih, List.forall_mem_singleton.2 ⟨h0, h1⟩⟩
  | up _ _ ih => exact (List.forall_mem_append.1 ih).1
  | out _ _ ih =>
    exact List.forall_mem_append.2 ⟨ih, List.forall_mem_singleton.2 ⟨by decide, by decide⟩⟩

/-- Parent steps that are kept stand in front. -/
theorem Resolves.head?_of_parent_mem (h : Resolves steps names) (hp : parent ∈ names) :
    names.head? = some parent := by
  have hfront {names more : List (List Char)} (hp : parent ∈ names) :
      (names ++ more).head? = names.head? := by
    obtain ⟨first, names, rfl⟩ := List.exists_cons_of_ne_nil (List.ne_nil_of_mem hp)
    rfl
  induction h with
  | nil => cases hp
  | stay _ _ ih => exact ih hp
  | down _ _ _ h2 ih =>
    have hp := (List.mem_append.1 hp).resolve_right fun he => h2 (List.mem_singleton.1 he).symm
    rw [hfront hp, ih hp]
  | up _ _ ih => rw [← hfront hp, ih (List.mem_append_left _ hp)]
  | @out _ names _ hl ih =>
    cases hlast : names.getLast? with
    | none => rw [List.getLast?_eq_none_iff.1 hlast]; rfl
    | some name =>
      have hmem := List.mem_of_getLast? hlast
      rw [hl name hlast] at hmem
      rw [hfront hmem, ih hmem]

/-- Names that go down only lead where they are. -/
theorem resolves_self (h : ∀ name ∈ names, name ≠ [] ∧ name ≠ here ∧ name ≠ parent) :
    Resolves names names := by
  induction names using List.reverseRecOn with
  | nil => exact .nil
  | append_singleton names name ih =>
    obtain ⟨hnames, hname⟩ := List.forall_mem_append.1 h
    obtain ⟨h0, h1, h2⟩ := hname name List.mem_cons_self
    exact (ih hnames).down h0 h1 h2

end Path

end SpecTree
