/-!
# Base 64

Four characters of an alphabet of sixty-four stand for three bytes. Other characters count for
nothing. A group that is not full is filled up with equals signs, which end the text.
-/

namespace SpecTree.Text

/-- The number that a character stands for. -/
def sextet? (c : Char) : Option Nat :=
  if 'A' ≤ c && c ≤ 'Z' then some (c.toNat - 'A'.toNat)
  else if 'a' ≤ c && c ≤ 'z' then some (c.toNat - 'a'.toNat + 26)
  else if '0' ≤ c && c ≤ '9' then some (c.toNat - '0'.toNat + 52)
  else if c = '+' then some 62
  else if c = '/' then some 63
  else none

/-- The bytes of a text. `place` characters of a group have been read, `held` are the bits of them
that are still to be given out, and `signs` equals signs stand right before. -/
def base64From? (place held signs : Nat) : List Char → Option (List UInt8)
  | [] => if place = 0 then some [] else none
  | c :: cs =>
    if c = '=' then
      if 2 ≤ place ∧ 4 ≤ place + signs + 1 then some []
      else base64From? place held (if 2 ≤ place then signs + 1 else signs) cs
    else
      match sextet? c with
      | none => base64From? place held signs cs
      | some n =>
        match place with
        | 0 => base64From? 1 n 0 cs
        | 1 => (base64From? 2 (n % 16) 0 cs).map (UInt8.ofNat (held * 4 + n / 16) :: ·)
        | 2 => (base64From? 3 (n % 4) 0 cs).map (UInt8.ofNat (held * 16 + n / 4) :: ·)
        | _ => (base64From? 0 0 0 cs).map (UInt8.ofNat (held * 64 + n) :: ·)

/-- The bytes that a text stands for, unless its last group is not full. -/
def base64? (cs : List Char) : Option (List UInt8) := base64From? 0 0 0 cs

end SpecTree.Text
