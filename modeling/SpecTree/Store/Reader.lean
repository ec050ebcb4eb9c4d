import SpecTree.Include.Reader
import SpecTree.Store.Basic

/-!
# Includes read from a store

A store is a reader: paths are of bounded size, so finitely many of them lead to a file.
-/

namespace SpecTree.Store

/-- A character takes at least one byte. -/
theorem length_le_utf8ByteSize (p : String) : p.toList.length ≤ p.utf8ByteSize := by
  rw [← String.size_toByteArray, ← String.utf8Encode_toList]
  generalize p.toList = cs
  unfold List.utf8Encode
  rw [List.size_toByteArray]
  induction cs with
  | nil => simp
  | cons c cs ih =>
    have := c.utf8Size_pos
    simp only [List.length_cons, List.flatMap_cons, List.length_append,
      String.length_utf8EncodeChar]
    omega

theorem exists_all_texts (n : Nat) : ∃ l : List (List Char), ∀ cs, cs.length ≤ n → cs ∈ l := by
  induction n with
  | zero => exact ⟨[[]], fun cs h => by simp_all⟩
  | succ n ih =>
    obtain ⟨l, hl⟩ := ih
    refine ⟨[] :: ((List.range 0x110000).map Char.ofNat).flatMap fun c => l.map (c :: ·), ?_⟩
    intro cs h
    cases cs with
    | nil => simp
    | cons c cs =>
      have hc : c.toNat < 0x110000 := by
        rcases c.valid with h | ⟨_, h⟩
        · exact Nat.lt_trans h (by decide)
        · exact h
      refine List.mem_cons_of_mem _ (List.mem_flatMap.2 ⟨c, ?_, ?_⟩)
      · exact List.mem_map.2 ⟨c.toNat, List.mem_range.2 hc, Char.ofNat_toNat c⟩
      · exact List.mem_map.2 ⟨cs, hl cs (by simpa using h), rfl⟩

theorem utf8ByteSize_lt_of_readText {s : Store} {p text : String} (h : s.readText p = .ok text) :
    p.utf8ByteSize < pathLimit := by
  rcases Nat.lt_or_ge p.utf8ByteSize pathLimit with hp | hp
  · exact hp
  · by_cases h0 : p.contains '\x00' = true <;>
      simp [readText, find, locate, hp, h0, bind, Except.bind] at h

/-- The texts that can be read from a store. -/
def reader (s : Store) : Include.Reader where
  read? p := (s.readText p).toOption
  finite := by
    obtain ⟨l, hl⟩ := exists_all_texts pathLimit
    refine ⟨l.map String.ofList, fun p h => ?_⟩
    cases ht : s.readText p with
    | error e => simp [ht, Except.toOption] at h
    | ok text =>
      have h1 := utf8ByteSize_lt_of_readText ht
      have h2 := length_le_utf8ByteSize p
      exact List.mem_map.2 ⟨p.toList, hl _ (by omega), String.ofList_toList⟩

end SpecTree.Store
