/-!
# Dates and times of day

Dates of the Gregorian calendar, times of day down to the microsecond, and offsets from universal
time of less than a day. `Date.of` and `Moment.of` refuse what is out of range and say what is.
-/

namespace SpecTree.Calendar

def isLeap (year : Nat) : Bool := year % 4 == 0 && (year % 100 != 0 || year % 400 == 0)

def daysIn (year month : Nat) : Nat :=
  if month = 2 then if isLeap year then 29 else 28
  else if [4, 6, 9, 11].contains month then 30
  else 31

/-- What is out of range. -/
inductive Fault where
  | year (n : Nat)
  | month
  | day
  | hour
  | minute
  | second
  | offset (minutes : Int)
  deriving Repr, DecidableEq

structure Date where
  year : Nat
  month : Nat
  day : Nat
  deriving Repr, DecidableEq

/-- A date and a time of day, with an offset from universal time in minutes if it is known. -/
structure Moment where
  date : Date
  hour : Nat
  minute : Nat
  second : Nat
  micros : Nat
  offset : Option Int
  deriving Repr, DecidableEq

/-! ## Ranges -/

def Date.of (year month day : Nat) : Except Fault Date :=
  if year = 0 ∨ 9999 < year then .error (.year year)
  else if month = 0 ∨ 12 < month then .error .month
  else if day = 0 ∨ daysIn year month < day then .error .day
  else .ok ⟨year, month, day⟩

def checkTime (hour minute second : Nat) : Except Fault Unit :=
  if 23 < hour then .error .hour
  else if 59 < minute then .error .minute
  else if 59 < second then .error .second
  else .ok ()

def checkOffset (minutes : Int) : Except Fault Unit :=
  if minutes.natAbs < 1440 then .ok () else .error (.offset minutes)

/-- The offset is looked at first, then the date, then the time. -/
def Moment.of (year month day hour minute second micros : Nat) (offset : Option Int) :
    Except Fault Moment := do
  if let some minutes := offset then checkOffset minutes
  let date ← Date.of year month day
  checkTime hour minute second
  return ⟨date, hour, minute, second, micros, offset⟩

/-! ## Texts -/

def padded (width n : Nat) : String :=
  let text := toString n
  "".pushn '0' (width - text.length) ++ text

def listed (ns : List Nat) : String := String.intercalate ", " (ns.map toString)

/-- A span of minutes as days and seconds; the seconds are not negative. -/
def span (minutes : Int) : String :=
  let seconds := minutes * 60
  let days := seconds / 86400
  let inDay := seconds % 86400
  let parts :=
    (if days = 0 then [] else ["days=" ++ toString days])
      ++ if inDay = 0 then [] else ["seconds=" ++ toString inDay]
  "datetime.timedelta(" ++ (if parts.isEmpty then "0" else String.intercalate ", " parts) ++ ")"

def Fault.message : Fault → String
  | year n => "year " ++ toString n ++ " is out of range"
  | month => "month must be in 1..12"
  | day => "day is out of range for month"
  | hour => "hour must be in 0..23"
  | minute => "minute must be in 0..59"
  | second => "second must be in 0..59"
  | offset minutes =>
    "offset must be a timedelta strictly between -timedelta(hours=24) and timedelta(hours=24), not "
      ++ span minutes ++ "."

def Date.text (d : Date) : String :=
  padded 4 d.year ++ "-" ++ padded 2 d.month ++ "-" ++ padded 2 d.day

/-- A date as an expression that makes it. -/
def Date.inner (d : Date) : String :=
  "datetime.date(" ++ listed [d.year, d.month, d.day] ++ ")"

def offsetText (minutes : Int) : String :=
  let size := minutes.natAbs
  (if minutes < 0 then "-" else "+") ++ padded 2 (size / 60) ++ ":" ++ padded 2 (size % 60)

/-- Date and time; the fraction of a second and the offset only where there is one. -/
def Moment.text (m : Moment) : String :=
  m.date.text ++ " " ++ padded 2 m.hour ++ ":" ++ padded 2 m.minute ++ ":" ++ padded 2 m.second
    ++ (if m.micros = 0 then "" else "." ++ padded 6 m.micros)
    ++ ((m.offset.map offsetText).getD "")

def zone (minutes : Int) : String :=
  if minutes = 0 then "datetime.timezone.utc" else "datetime.timezone(" ++ span minutes ++ ")"

/-- A moment as an expression that makes it. -/
def Moment.inner (m : Moment) : String :=
  let fraction := if m.micros = 0 then [] else [m.micros]
  let seconds := if m.second = 0 ∧ m.micros = 0 then [] else m.second :: fraction
  "datetime.datetime("
    ++ listed ([m.date.year, m.date.month, m.date.day, m.hour, m.minute] ++ seconds)
    ++ ((m.offset.map fun minutes => ", tzinfo=" ++ zone minutes).getD "") ++ ")"

end SpecTree.Calendar
