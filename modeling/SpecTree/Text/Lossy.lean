/-!
# Bytes shown as text

Bytes are read as UTF-8. What cannot be read is shown as replacement characters: a character that
breaks off is replaced as far as it goes, and reading goes on behind it. `shown_le` says that every
byte shows as one character at most.
-/

namespace SpecTree.Text

/-- Shown for what cannot be read. -/
def replacement : Char := '\uFFFD'

/-- The bytes that follow a first byte: how many, and the least and greatest first of them. -/
def following? (first : UInt8) : Option (Nat × UInt8 × UInt8) :=
  if 0xC2 ≤ first && first ≤ 0xDF then some (1, 0x80, 0xBF)
  else if first = 0xE0 then some (2, 0xA0, 0xBF)
  else if first = 0xED then some (2, 0x80, 0x9F)
  else if 0xE1 ≤ first && first ≤ 0xEF then some (2, 0x80, 0xBF)
  else if first = 0xF0 then some (3, 0x90, 0xBF)
  else if first = 0xF4 then some (3, 0x80, 0x8F)
  else if 0xF1 ≤ first && first ≤ 0xF3 then some (3, 0x80, 0xBF)
  else none

/-- The number that `count` more bytes make of the number of those before them, if they are all
there, and what remains. The first of them lies between `least` and `greatest`. -/
def continued (number : Nat) : Nat → UInt8 → UInt8 → List UInt8 → Option Nat × List UInt8
  | 0, _, _, bytes => (some number, bytes)
  | _ + 1, _, _, [] => (none, [])
  | count + 1, least, greatest, b :: bytes =>
    if least ≤ b && b ≤ greatest then
      continued (number * 64 + b.toNat % 64) count 0x80 0xBF bytes
    else (none, b :: bytes)

/-- The character that the bytes begin with after its first byte, and what remains. -/
def character (first : UInt8) (bytes : List UInt8) : Char × List UInt8 :=
  if first < 0x80 then (Char.ofNat first.toNat, bytes)
  else
    match following? first with
    | none => (replacement, bytes)
    | some (count, least, greatest) =>
      match continued (first.toNat % Nat.pow 2 (6 - count)) count least greatest bytes with
      | (some number, rest) => (Char.ofNat number, rest)
      | (none, rest) => (replacement, rest)

theorem continued_le (number count : Nat) (least greatest : UInt8) (bytes : List UInt8) :
    (continued number count least greatest bytes).2.length ≤ bytes.length := by
  fun_induction continued number count least greatest bytes with
  | case1 => exact Nat.le_refl _
  | case2 => exact Nat.le_refl _
  | case3 _ _ _ _ _ _ _ ih => exact Nat.le_succ_of_le ih
  | case4 => exact Nat.le_refl _

theorem character_le (first : UInt8) (bytes : List UInt8) :
    (character first bytes).2.length ≤ bytes.length := by
  unfold character
  split
  · exact Nat.le_refl _
  · split
    · exact Nat.le_refl _
    · rename_i count least greatest _
      have h := continued_le (first.toNat % Nat.pow 2 (6 - count)) count least greatest bytes
      split <;> simp_all

/-- The text that bytes show. -/
def shown : List UInt8 → List Char
  | [] => []
  | first :: bytes => (character first bytes).1 :: shown (character first bytes).2
termination_by bytes => bytes.length
decreasing_by
  have := character_le first bytes
  simp only [List.length_cons]
  omega

theorem shown_le (bytes : List UInt8) : (shown bytes).length ≤ bytes.length := by
  fun_induction shown bytes with
  | case1 => exact Nat.le_refl _
  | case2 first bytes ih =>
    have := character_le first bytes
    simp only [List.length_cons]
    omega

end SpecTree.Text
