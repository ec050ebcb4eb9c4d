import SpecTree.Decimal.Shortest

/-!
# Decimals with a fixed number of places

The exact value of a binary number is rounded to a whole number of units in the last place; a half
goes to the even neighbour.
-/

namespace SpecTree.Decimal

/-- The whole number nearest to `num / den`; of two the even one. -/
def roundDiv (num den : Nat) : Nat :=
  let q := num / den
  let r := 2 * (num % den)
  if r < den || (r == den && q % 2 == 0) then q else q + 1

/-- A magnitude in units of the last of `places` places. -/
def Binary.units (b : Binary) (places : Nat) : Nat :=
  roundDiv (b.significand * Nat.pow 2 b.exponent.toNat * Nat.pow 10 places)
    (Nat.pow 2 (-b.exponent).toNat)

/-- A count of units in the last of `places` places, as text. -/
def unitsText (places units : Nat) : String :=
  let whole := toString (units / Nat.pow 10 places)
  if places = 0 then whole
  else
    let decimals := toString (units % Nat.pow 10 places)
    whole ++ "." ++ "".pushn '0' (places - decimals.length) ++ decimals

/-- A number with `places` places after the point. -/
def fixedText (places : Nat) (x : Float) : String :=
  match read x with
  | .notANumber => "nan"
  | .infinite negative => if negative then "-inf" else "inf"
  | .finite negative b => (if negative then "-" else "") ++ unitsText places (b.units places)

/-- The binary number nearest to `x` rounded to `places` places. -/
def roundTo (places : Nat) (x : Float) : Float :=
  match read x with
  | .finite negative b =>
    let y := Float.ofScientific (b.units places) true places
    if negative then -y else y
  | _ => x

end SpecTree.Decimal
