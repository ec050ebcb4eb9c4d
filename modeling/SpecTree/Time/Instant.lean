import SpecTree.Decimal.Fixed
import SpecTree.Decimal.Number

/-!
# Instants

An instant is a count of microseconds since the start of 1970. It is written as a date and a time
of day in the Gregorian calendar.

Days are counted from the first of March of the year zero: leap days then come last in a year, and
every four centuries have the same number of days.
-/

namespace SpecTree

/-- Microseconds since the start of 1970. -/
structure Instant where
  micros : Int
  deriving Repr, DecidableEq, Inhabited

namespace Instant

def microsPerDay : Int := 86400000000

/-- The days from the first of March of the year zero to the start of 1970. -/
def daysBefore1970 : Int := 719468

/-- Year, month and day of a count of days since the first of March of the year zero. -/
def civil (days : Int) : Int × Nat × Nat :=
  let era := days / 146097
  let dayOfEra := (days % 146097).toNat
  let yearOfEra := (dayOfEra - dayOfEra / 1460 + dayOfEra / 36524 - dayOfEra / 146096) / 365
  let dayOfYear := dayOfEra - (365 * yearOfEra + yearOfEra / 4 - yearOfEra / 100)
  let monthFromMarch := (5 * dayOfYear + 2) / 153
  let day := dayOfYear - (153 * monthFromMarch + 2) / 5 + 1
  let month := if monthFromMarch < 10 then monthFromMarch + 3 else monthFromMarch - 9
  let year := 400 * era + yearOfEra
  (if month ≤ 2 then year + 1 else year, month, day)

/-- A number with zeros in front. -/
def padded (width n : Nat) : String :=
  let text := toString n
  "".pushn '0' (width - text.length) ++ text

/-- Date, time and offset; the fraction of a second only where there is one. -/
def text (t : Instant) : String :=
  let (year, month, day) := civil (t.micros / microsPerDay + daysBefore1970)
  let inDay := (t.micros % microsPerDay).toNat
  let seconds := inDay / 1000000
  let micros := inDay % 1000000
  padded 4 year.toNat ++ "-" ++ padded 2 month ++ "-" ++ padded 2 day ++ "T"
    ++ padded 2 (seconds / 3600) ++ ":" ++ padded 2 (seconds / 60 % 60) ++ ":"
    ++ padded 2 (seconds % 60) ++ (if micros = 0 then "" else "." ++ padded 6 micros) ++ "+00:00"

/-- The seconds from one instant to another. -/
def secondsTo (a b : Instant) : Float := Float.ofInt (b.micros - a.micros) / 1000000

/-- The milliseconds from one instant to another, as a clock measures them that counts the seconds
since its own start in binary. -/
def clockMillis (epoch a b : Instant) : Float := (epoch.secondsTo b - epoch.secondsTo a) * 1000

/-- The whole milliseconds from one instant to another, as the seconds between them give them. -/
def millisTo (a b : Instant) : Int :=
  let x := a.secondsTo b * 1000
  if x < 0 then -((-x).toUInt64.toNat : Int) else x.toUInt64.toNat

/-- The whole microseconds in a time: whole milliseconds count in full, what is left of one is
rounded, a half to the even neighbour. -/
def microsOf (millis : Float) : Int :=
  let whole := if millis < 0 then millis.ceil else millis.floor
  let rest := Decimal.roundTo 0 ((millis - whole) * 1000)
  (Number.wholeOf? whole).getD 0 * 1000 + (Number.wholeOf? rest).getD 0

/-- An instant some milliseconds later. -/
def later (t : Instant) (millis : Float) : Instant := ⟨t.micros + microsOf millis⟩

end Instant

end SpecTree
