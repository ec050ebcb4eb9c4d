/-!
# Shortest decimals

A finite binary number is `significand · 2 ^ exponent`. Among the decimals that round to it, the
one written is shortest: the fewest digits first, of those the nearest, and of two equally near
the one with an even last digit.

For each count of digits the grid of decimals around the number has two neighbours of it, one
below and one above. If any point of the grid rounds to the number, so does one of the two; hence
testing these, for one digit, two digits and so on, finds the shortest.
-/

namespace SpecTree.Decimal

/-- The magnitude of a finite binary number. -/
structure Binary where
  significand : Nat
  exponent : Int
  /-- The next number below is only half as far as the next one above. -/
  closeBelow : Bool

/-- A magnitude `digits · 10 ^ exponent`. -/
structure Scaled where
  digits : Nat
  exponent : Int
  deriving Repr, DecidableEq

/-- A binary number as its text needs it. -/
inductive Reading where
  | notANumber
  | infinite (negative : Bool)
  | finite (negative : Bool) (magnitude : Binary)

/-- The parts of a number in the 64-bit binary format. -/
def read (x : Float) : Reading :=
  let bits := x.toBits.toNat
  let negative := bits / Nat.pow 2 63 == 1
  let exponent : Nat := bits / Nat.pow 2 52 % Nat.pow 2 11
  let fraction := bits % Nat.pow 2 52
  if exponent = 2047 then
    if fraction = 0 then .infinite negative else .notANumber
  else if exponent = 0 then .finite negative ⟨fraction, -1074, false⟩
  else
    .finite negative
      ⟨fraction + Nat.pow 2 52, (exponent : Int) - 1075, fraction == 0 && exponent > 1⟩

/-- `10 ^ n` for the upward half of an exponent; its inverse is taken on the other side. -/
def tenUp (n : Int) : Nat := Nat.pow 10 n.toNat

/-- The number of decimal digits of a positive number. -/
def digitCount (n : Nat) : Nat := (Nat.toDigits 10 n).length

/-- The exponent of ten of the leading digit of `num / den`, which is positive. -/
def leadingExponent (num den : Nat) : Int :=
  if den ≤ num then (digitCount (num / den) : Int) - 1 else -(digitCount ((den - 1) / num) : Int)

/-- A positive binary number and the ends of the interval that rounds to it, over one
denominator, in quarters of a unit of the significand. -/
structure Interval where
  low : Nat
  value : Nat
  high : Nat
  den : Nat
  /-- Whether the ends themselves round to the number. -/
  closed : Bool

def Binary.interval (b : Binary) : Interval :=
  let up := Nat.pow 2 (b.exponent - 2).toNat
  let m := 4 * b.significand
  ⟨(m - if b.closeBelow then 1 else 2) * up, m * up, (m + 2) * up,
    Nat.pow 2 (2 - b.exponent).toNat, b.significand % 2 == 0⟩

namespace Interval

def contains (i : Interval) (n : Nat) : Bool :=
  if i.closed then i.low ≤ n && n ≤ i.high else i.low < n && n < i.high

/-- The neighbour of the value with `count` digits that rounds to it, the nearer one of two. -/
def neighbour? (i : Interval) (lead : Int) (count : Nat) : Option Scaled :=
  let exponent := lead - count + 1
  let up := tenUp (-exponent)
  let scaled : Interval := { i with low := i.low * up, value := i.value * up, high := i.high * up }
  let den := i.den * tenUp exponent
  let below := scaled.value / den
  let lower := scaled.contains (below * den)
  let upper := scaled.contains ((below + 1) * den)
  let nearLower :=
    2 * scaled.value < (2 * below + 1) * den
      || (2 * scaled.value == (2 * below + 1) * den && below % 2 == 0)
  if lower && (nearLower || !upper) then some ⟨below, exponent⟩
  else if upper then some ⟨below + 1, exponent⟩
  else none

end Interval

/-- Without zeros at the end of the digits. -/
def Scaled.trim (d : Scaled) : Scaled :=
  if h : d.digits ≠ 0 ∧ d.digits % 10 = 0 then trim ⟨d.digits / 10, d.exponent + 1⟩ else d
termination_by d.digits
decreasing_by exact Nat.div_lt_self (Nat.pos_of_ne_zero h.1) (by decide)

/-- The shortest decimal of a binary number. Seventeen digits always suffice. -/
def shortest (b : Binary) : Scaled :=
  if b.significand = 0 then ⟨0, 0⟩
  else
    let i := b.interval
    let lead := leadingExponent i.value i.den
    (((List.range' 1 17).findSome? (i.neighbour? lead)).getD ⟨0, 0⟩).trim

end SpecTree.Decimal
