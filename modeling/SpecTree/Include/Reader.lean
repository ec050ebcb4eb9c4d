/-!
# Readers

The files that includes can lead to, by their absolute paths. Only finitely many can be read,
which is why following includes comes to an end.
-/

namespace SpecTree.Include

structure Reader where
  read? : String → Option String
  finite : ∃ paths : List String, ∀ p, (read? p).isSome → p ∈ paths

namespace Reader

/-- A list that holds every path that can be read. -/
noncomputable def paths (r : Reader) : List String := r.finite.choose

theorem mem_paths {r : Reader} {p text : String} (h : r.read? p = some text) : p ∈ r.paths :=
  r.finite.choose_spec p (by simp [h])

/-- How many readable files are still outside the files in `inside`. -/
noncomputable def room (r : Reader) (inside : List String) : Nat :=
  (r.paths.filter (· ∉ inside)).length

theorem room_cons_lt {r : Reader} {p text : String} {inside : List String}
    (h : r.read? p = some text) (hp : p ∉ inside) : r.room (p :: inside) < r.room inside := by
  unfold room
  have hmem : p ∈ r.paths.filter (· ∉ inside) := by simp [mem_paths h, hp]
  have hsub : r.paths.filter (· ∉ p :: inside) = (r.paths.filter (· ∉ inside)).filter (· ≠ p) := by
    rw [List.filter_filter]
    congr 1
    funext q
    simp [List.mem_cons, not_or]
  rw [hsub]
  exact List.length_filter_lt_length_iff_exists.2 ⟨p, hmem, by simp⟩

/-- Finitely many files, given with their texts. -/
def ofList (files : List (String × String)) : Reader where
  read? p := files.lookup p
  finite := by
    refine ⟨files.map Prod.fst, fun p h => ?_⟩
    induction files with
    | nil => simp at h
    | cons f fs ih =>
      obtain ⟨q, text⟩ := f
      by_cases hq : p = q
      · simp [hq]
      · have hb : (p == q) = false := by simp [hq]
        rw [List.lookup_cons, hb] at h
        exact List.mem_cons_of_mem _ (ih h)

end Reader

end SpecTree.Include
