import SpecTree.Decimal.Style

/-!
# Numbers as given

A number keeps the form in which it was given: a whole number is written without a point, any
other one with it.
-/

namespace SpecTree

inductive Number where
  | whole (n : Int)
  | fractional (x : Float)
  deriving Repr, Inhabited

namespace Number

def toFloat : Number → Float
  | .whole n => Float.ofInt n
  | .fractional x => x

def text : Number → String
  | .whole n => toString n
  | .fractional x => Decimal.plain.text x

/-- The whole number that a binary number is equal to. -/
def wholeOf? (x : Float) : Option Int :=
  match Decimal.read x with
  | .finite negative b =>
    let size : Option Nat :=
      if 0 ≤ b.exponent then some (b.significand * Nat.pow 2 b.exponent.toNat)
      else
        let unit := Nat.pow 2 (-b.exponent).toNat
        if b.significand % unit = 0 then some (b.significand / unit) else none
    size.map fun n => if negative then -(n : Int) else n
  | _ => none

/-- Whether two numbers are equal, whatever their form; a binary number that is no number is the
same as itself. -/
def sameAs : Number → Number → Bool
  | .whole a, .whole b => a == b
  | .whole a, .fractional x | .fractional x, .whole a => wholeOf? x == some a
  | .fractional x, .fractional y => x == y || (x.isNaN && y.isNaN)

/-- Whole numbers differ by a whole number. -/
def sub : Number → Number → Number
  | .whole a, .whole b => .whole (a - b)
  | a, b => .fractional (a.toFloat - b.toFloat)

instance : Sub Number := ⟨sub⟩

/-- Whole numbers have a whole sum. -/
def add : Number → Number → Number
  | .whole a, .whole b => .whole (a + b)
  | a, b => .fractional (a.toFloat + b.toFloat)

instance : Add Number := ⟨add⟩

/-- Numbers are compared by value, whatever their form and size: a whole number is below a binary
one if it is below the least whole number that is not. -/
def isBelow : Number → Number → Bool
  | .whole a, .whole b => a < b
  | .whole a, .fractional y =>
    match wholeOf? y.ceil with
    | some b => a < b
    | none => 0 < y
  | .fractional x, .whole b =>
    match wholeOf? x.floor with
    | some a => a < b
    | none => x < 0
  | .fractional x, .fractional y => x < y

instance : LT Number := ⟨fun a b => a.isBelow b⟩

instance (a b : Number) : Decidable (a < b) := inferInstanceAs (Decidable (a.isBelow b = true))

/-- Of equal numbers the first is taken. -/
instance : Min Number := ⟨fun a b => if b < a then b else a⟩

instance : Zero Number := ⟨.whole 0⟩

end Number

/-! ## Arithmetic that may overflow

Whole numbers are multiplied and raised to powers exactly. As soon as one number is fractional the
result is a binary number, and some operations fail where binary numbers end.
-/

inductive Overflow where
  /-- A whole number has no binary number near it. -/
  | operand
  /-- A power is too large for a binary number. -/
  | power
  deriving Repr, DecidableEq

def Overflow.message : Overflow → String
  | .operand => "int too large to convert to float"
  | .power => "(34, 'Numerical result out of range')"

namespace Number

/-- The binary number nearest to a number. -/
def binary : Number → Except Overflow Float
  | .whole n =>
    let x := Float.ofInt n
    if x.isInf then .error .operand else .ok x
  | .fractional x => .ok x

def mul : Number → Number → Except Overflow Number
  | .whole a, .whole b => .ok (.whole (a * b))
  | a, b => do return .fractional ((← a.binary) * (← b.binary))

def pow : Number → Nat → Except Overflow Number
  | .whole a, n => .ok (.whole (a.pow n))
  | .fractional x, n =>
    let y := x.pow n.toFloat
    if y.isInf && !x.isInf then .error .power else .ok (.fractional y)

end Number

end SpecTree
