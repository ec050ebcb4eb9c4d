import SpecTree.Decimal.Shortest

/-!
# Writing decimals

A style says when a decimal is written with its point in place and when with an exponent.
-/

namespace SpecTree.Decimal

/-- How a shortest decimal is written. -/
structure Style where
  /-- The exponents of the leading digit that are written with the point in place. -/
  leastPositional : Int
  greatestPositional : Int
  /-- What follows a whole number. -/
  wholeMark : String
  /-- The digits that an exponent has at least; it always has a sign. -/
  exponentWidth : Nat
  infinity : String
  notANumber : String

namespace Style

def zeros (n : Nat) : String := "".pushn '0' n

/-- A magnitude with its point in place. -/
def positional (s : Style) (digits : String) (lead : Int) : String :=
  let count : Int := digits.length
  if lead < 0 then "0." ++ zeros (-lead - 1).toNat ++ digits
  else if count ≤ lead + 1 then digits ++ zeros (lead + 1 - count).toNat ++ s.wholeMark
  else
    let cs := digits.toList
    String.ofList (cs.take (lead + 1).toNat) ++ "." ++ String.ofList (cs.drop (lead + 1).toNat)

/-- A magnitude with one digit before the point and an exponent. -/
def scientific (s : Style) (digits : String) (lead : Int) : String :=
  let cs := digits.toList
  let mantissa :=
    match cs with
    | [d] => String.ofList [d]
    | _ => String.ofList (cs.take 1) ++ "." ++ String.ofList (cs.drop 1)
  let size := toString lead.natAbs
  mantissa ++ (if lead < 0 then "e-" else "e+") ++ zeros (s.exponentWidth - size.length) ++ size

def magnitude (s : Style) (d : Scaled) : String :=
  let digits := toString d.digits
  let lead := d.exponent + digits.length - 1
  if s.leastPositional ≤ lead && lead ≤ s.greatestPositional then s.positional digits lead
  else s.scientific digits lead

/-- The shortest text that reads back as `x`. -/
def text (s : Style) (x : Float) : String :=
  match read x with
  | .notANumber => s.notANumber
  | .infinite negative => (if negative then "-" else "") ++ s.infinity
  | .finite negative b => (if negative then "-" else "") ++ s.magnitude (shortest b)

end Style

/-- Numbers in messages: the point stays in place below `10 ^ 16` and down to four zeros. -/
def plain : Style := ⟨-4, 15, ".0", 2, "inf", "nan"⟩

end SpecTree.Decimal
