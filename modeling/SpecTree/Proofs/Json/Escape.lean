import SpecTree.Json.Strict

/-!
# Escaped strings are read back

Reading a string undoes writing it (`unquote?_flatMap`), in ASCII or not: each escaped character is
read as one character (`unquote?_escapeChar`). Written strings hold no half of a pair
(`hasHalf_escapeChar`) and no control character (`mem_escapeChar`).
-/

namespace SpecTree.Json

open Text (hexDigit hexDigits hexValue?)

variable {ascii : Bool} {c : Char} {n : Nat}

/-! ## Groups of four digits -/

theorem hexValue?_hexDigit : ∀ d < 16, hexValue? (hexDigit d) = some d := by decide

theorem hexUnit?_hexDigits (h : n < 0x10000) (rest : List Char) :
    hexUnit? (hexDigits 4 n ++ rest) = some (n, rest) := by
  have h1 := hexValue?_hexDigit (n / 16 / 16 / 16 % 16) (by omega)
  have h2 := hexValue?_hexDigit (n / 16 / 16 % 16) (by omega)
  have h3 := hexValue?_hexDigit (n / 16 % 16) (by omega)
  have h4 := hexValue?_hexDigit (n % 16) (by omega)
  have hn : n / 16 / 16 / 16 % 16 * 4096 + n / 16 / 16 % 16 * 256 + n / 16 % 16 * 16 + n % 16 = n := by
    omega
  simp only [hexDigits, List.nil_append, List.cons_append, hexUnit?, h1, h2, h3, h4, hn]

/-- The code point of a character is no unit of a pair. -/
theorem not_unit (c : Char) : ¬ (0xD800 ≤ c.toNat ∧ c.toNat ≤ 0xDFFF) := by
  rcases c.valid with h | ⟨h, _⟩
  · exact fun h' => absurd (Nat.lt_of_lt_of_le h h'.1) (Nat.lt_irrefl _)
  · exact fun h' => absurd (Nat.lt_of_le_of_lt h'.2 h) (Nat.lt_irrefl _)

theorem toNat_lt (c : Char) : c.toNat < 0x110000 := by
  rcases c.valid with h | ⟨_, h⟩
  · exact Nat.lt_trans h (by decide)
  · exact h

theorem unescapeUnit?_narrow (h : c.toNat < 0x10000) (rest : List Char) :
    unescapeUnit? (hexDigits 4 c.toNat ++ rest) = some (c, rest) := by
  have hc := not_unit c
  rw [unescapeUnit?, hexUnit?_hexDigits h]
  dsimp only
  rw [if_neg (by simp; omega), if_neg (by simp; omega), Char.ofNat_toNat]

/-- The two units of a character beyond the first 65536. -/
theorem lowHalf?_escapeUnit (h : n < 0x400) (rest : List Char) :
    lowHalf? (escapeUnit (0xDC00 + n) ++ rest) = some (0xDC00 + n, rest) := by
  rw [escapeUnit, List.cons_append, List.cons_append, lowHalf?,
    hexUnit?_hexDigits (by omega)]
  dsimp only
  rw [if_pos (by simp; omega)]

theorem unescapeUnit?_wide (h : 0x10000 ≤ c.toNat) (rest : List Char) :
    unescapeUnit? (hexDigits 4 (0xD800 + (c.toNat - 0x10000) / 0x400)
      ++ (escapeUnit (0xDC00 + (c.toNat - 0x10000) % 0x400) ++ rest)) = some (c, rest) := by
  have hc := toNat_lt c
  rw [unescapeUnit?, hexUnit?_hexDigits (by omega)]
  dsimp only
  rw [if_pos (by simp; omega), lowHalf?_escapeUnit (by omega)]
  dsimp only
  have hn : 0x10000 + (0xD800 + (c.toNat - 0x10000) / 0x400 - 0xD800) * 0x400
      + (0xDC00 + (c.toNat - 0x10000) % 0x400 - 0xDC00) = c.toNat := by omega
  rw [hn, Char.ofNat_toNat]

/-! ## Characters -/

/-- The forms in which a character is written. -/
theorem escapeChar_cases (ascii : Bool) (c : Char) :
    (∃ e, e ≠ 'u' ∧ shortEscape? e = some c ∧ escapeChar ascii c = ['\\', e])
      ∨ c.toNat < 0x10000 ∧ escapeChar ascii c = '\\' :: 'u' :: hexDigits 4 c.toNat
      ∨ 0x10000 ≤ c.toNat ∧ escapeChar ascii c
          = '\\' :: 'u' :: hexDigits 4 (0xD800 + (c.toNat - 0x10000) / 0x400)
            ++ escapeUnit (0xDC00 + (c.toNat - 0x10000) % 0x400)
      ∨ c ≠ '"' ∧ c ≠ '\\' ∧ 0x20 ≤ c.toNat ∧ escapeChar ascii c = [c] := by
  unfold escapeChar
  split
  · next h => exact .inl ⟨'"', by decide, by rw [h]; rfl, rfl⟩
  split
  · next h => exact .inl ⟨'\\', by decide, by rw [h]; rfl, rfl⟩
  split
  · next h => exact .inl ⟨'n', by decide, h ▸ rfl, rfl⟩
  split
  · next h => exact .inl ⟨'r', by decide, h ▸ rfl, rfl⟩
  split
  · next h => exact .inl ⟨'t', by decide, h ▸ rfl, rfl⟩
  split
  · next h => exact .inl ⟨'b', by decide, h ▸ rfl, rfl⟩
  split
  · next h => exact .inl ⟨'f', by decide, h ▸ rfl, rfl⟩
  split
  · next h => exact .inr (.inl ⟨by omega, rfl⟩)
  split
  · unfold escapeWide
    dsimp only
    split
    · next h => exact .inr (.inl ⟨h, rfl⟩)
    · next h => exact .inr (.inr (.inl ⟨Nat.le_of_not_lt h, rfl⟩))
  · next hq hb _ _ _ _ _ hl _ => exact .inr (.inr (.inr ⟨hq, hb, Nat.le_of_not_lt hl, rfl⟩))

/-- **An escaped character is read as one character.** -/
theorem unquote?_escapeChar (ascii : Bool) (c : Char) (rest : List Char) :
    unquote? (escapeChar ascii c ++ rest)
      = (unquote? rest).map fun (text, rest) => (c :: text, rest) := by
  rcases escapeChar_cases ascii c with ⟨e, hu, he, h⟩ | ⟨hc, h⟩ | ⟨hc, h⟩ | ⟨hq, hb, hc, h⟩
  · rw [h, List.cons_append, List.cons_append, List.nil_append, unquote?, he]
    exact hu
  · rw [h, List.cons_append, List.cons_append, unquote?, unescapeUnit?_narrow hc]
  · rw [h, List.append_assoc, List.cons_append, List.cons_append, unquote?,
      unescapeUnit?_wide hc]
  · rw [h, List.cons_append, List.nil_append, unquote?, if_neg]
    · rintro (hb' | hc')
      · exact hb hb'
      · omega
    · exact hq
    · exact fun _ hb' => absurd hb' hb
    · exact fun _ _ hb' => absurd hb' hb

theorem unquote?_flatMap (ascii : Bool) (cs rest : List Char) :
    unquote? (cs.flatMap (escapeChar ascii) ++ '"' :: rest) = some (cs, rest) := by
  induction cs with
  | nil => rw [List.flatMap_nil, List.nil_append, unquote?]
  | cons c cs ih =>
    rw [List.flatMap_cons, List.append_assoc, unquote?_escapeChar, ih]
    rfl

theorem hasHalf_cons (h : c ≠ '\\') (rest : List Char) : hasHalf (c :: rest) = hasHalf rest := by
  rw [hasHalf.eq_def]
  split <;> simp_all

/-- **No escaped character is half of a pair.** -/
theorem hasHalf_escapeChar (ascii : Bool) (c : Char) (rest : List Char) :
    hasHalf (escapeChar ascii c ++ rest) = hasHalf rest := by
  rcases escapeChar_cases ascii c with ⟨e, hu, he, h⟩ | ⟨hc, h⟩ | ⟨hc, h⟩ | ⟨hq, hb, hc, h⟩
  · rw [h, List.cons_append, List.cons_append, List.nil_append, hasHalf]
    exact hu
  · have hn := not_unit c
    rw [h, List.cons_append, List.cons_append, hasHalf, unescapeUnit?_narrow hc, isHalf,
      hexUnit?_hexDigits hc]
    have h1 : ¬ (55296 ≤ c.toNat ∧ c.toNat ≤ 56319) := by omega
    have h2 : ¬ (56320 ≤ c.toNat ∧ c.toNat ≤ 57343) := by omega
    simp [h1, h2]
  · have hn := toNat_lt c
    rw [h, List.append_assoc, List.cons_append, List.cons_append, hasHalf, unescapeUnit?_wide hc, isHalf,
      hexUnit?_hexDigits (by omega)]
    dsimp only
    rw [lowHalf?_escapeUnit (by omega)]
    have h2 : ¬ (56320 ≤ 55296 + (c.toNat - 65536) / 1024) := by omega
    simp [h2]
  · rw [h, List.cons_append, List.nil_append, hasHalf_cons hb]

theorem hasHalf_flatMap (ascii : Bool) (cs rest : List Char) :
    hasHalf (cs.flatMap (escapeChar ascii) ++ rest) = hasHalf rest := by
  induction cs with
  | nil => rfl
  | cons c cs ih => rw [List.flatMap_cons, List.append_assoc, hasHalf_escapeChar, ih]

theorem toNat_hexDigit : ∀ d < 16, 0x20 ≤ (hexDigit d).toNat := by decide

theorem mem_hexDigits {width : Nat} (h : c ∈ hexDigits width n) : 0x20 ≤ c.toNat := by
  induction width generalizing n with
  | zero => cases h
  | succ width ih =>
    rw [hexDigits] at h
    rcases List.mem_append.1 h with h | h
    · exact ih h
    · rw [List.mem_singleton.1 h]
      exact toNat_hexDigit _ (Nat.mod_lt _ (by decide))

theorem toNat_shortEscape {e : Char} (h : shortEscape? e = some c) : 0x20 ≤ e.toNat := by
  unfold shortEscape? at h
  split at h <;> first | decide | cases h

/-- A written string has no control character. -/
theorem mem_escapeChar {d : Char} (h : d ∈ escapeChar ascii c) : 0x20 ≤ d.toNat := by
  have hunit {n : Nat} (h : d ∈ escapeUnit n) : 0x20 ≤ d.toNat := by
    rcases List.mem_cons.1 h with rfl | h
    · decide
    · rcases List.mem_cons.1 h with rfl | h
      · decide
      · exact mem_hexDigits h
  rcases escapeChar_cases ascii c with ⟨e, -, he, hc⟩ | ⟨-, hc⟩ | ⟨-, hc⟩ | ⟨-, -, hn, hc⟩ <;>
    rw [hc] at h
  · rcases List.mem_cons.1 h with rfl | h
    · decide
    · rw [List.mem_singleton.1 h]
      exact toNat_shortEscape he
  · exact hunit h
  · exact (List.mem_append.1 h).elim hunit hunit
  · rw [List.mem_singleton.1 h]
    exact hn

theorem mem_quote {s : String} (h : c ∈ quote ascii s) : 0x20 ≤ c.toNat := by
  rw [quote, List.cons_append, List.mem_cons, List.mem_append, List.mem_singleton] at h
  rcases h with rfl | h | rfl
  · decide
  · obtain ⟨d, -, h⟩ := List.mem_flatMap.1 h
    exact mem_escapeChar h
  · decide

end SpecTree.Json
