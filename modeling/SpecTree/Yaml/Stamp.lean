import SpecTree.Time.Calendar
import SpecTree.Yaml.Place

/-!
# Time stamps in files

A stamp is a date, which a time of day may follow after a letter or blanks. A time may have a
fraction of a second and an offset from universal time.
-/

namespace SpecTree.Yaml

/-- A time of day as it is written. -/
structure Stamp.Time where
  hour : Nat
  minute : Nat
  second : Nat
  /-- The digits after the point. -/
  fraction : List Char
  /-- The offset in minutes. -/
  offset : Option Int

structure Stamp where
  year : Nat
  month : Nat
  day : Nat
  /-- Month and day have two digits each. -/
  isPadded : Bool
  time : Option Stamp.Time

namespace Stamp

def isDigit (c : Char) : Bool := '0' ≤ c && c ≤ '9'

def ofDigits (ds : List Char) : Nat := ds.foldl (fun n d => 10 * n + (d.toNat - '0'.toNat)) 0

/-- The number in the next digits, at least and at most so many, and what follows them. -/
def number? (least most : Nat) (cs : List Char) : Option (Nat × List Char) :=
  let ds := (cs.take most).takeWhile isDigit
  if least ≤ ds.length then some (ofDigits ds, cs.drop ds.length) else none

/-- The offset at the end of a stamp, after its blanks. -/
def offset? (cs : List Char) : Option Int :=
  match cs with
  | ['Z'] => some 0
  | sign :: cs =>
    if sign = '+' ∨ sign = '-' then do
      let (hours, rest) ← number? 1 2 cs
      let minutes ←
        match rest with
        | [] => some 0
        | ':' :: rest =>
          match number? 2 2 rest with
          | some (n, []) => some n
          | _ => none
        | _ => none
      let size : Int := 60 * hours + minutes
      return if sign = '-' then -size else size
    else none
  | [] => none

/-- A time up to the end of the stamp. -/
def time? (cs : List Char) : Option Time := do
  let (hour, ':' :: cs) ← number? 1 2 cs | none
  let (minute, ':' :: cs) ← number? 2 2 cs | none
  let (second, cs) ← number? 2 2 cs
  let (fraction, cs) :=
    match cs with
    | '.' :: cs => (cs.takeWhile isDigit, cs.dropWhile isDigit)
    | cs => ([], cs)
  if cs.isEmpty then return ⟨hour, minute, second, fraction, none⟩
  else return ⟨hour, minute, second, fraction, some (← offset? (cs.dropWhile isBlank))⟩

/-- What stands between a date and a time is passed. -/
def separator? (cs : List Char) : Option (List Char) :=
  match cs with
  | 'T' :: cs | 't' :: cs => some cs
  | c :: cs => if isBlank c then some (cs.dropWhile isBlank) else none
  | [] => none

def ofChars? (cs : List Char) : Option Stamp := do
  let (year, '-' :: cs) ← number? 4 4 cs | none
  let (month, '-' :: rest) ← number? 1 2 cs | none
  let (day, after) ← number? 1 2 rest
  let isPadded := cs.length = rest.length + 3 && rest.length = after.length + 2
  if after.isEmpty then return ⟨year, month, day, isPadded, none⟩
  else return ⟨year, month, day, isPadded, some (← time? (← separator? after))⟩

/-- Whether a text without a tag is a stamp in this form: a date alone has to be padded. -/
def isPlain (s : Stamp) : Bool := s.isPadded || s.time.isSome

/-- The fraction of a second in microseconds; further digits are dropped. -/
def Time.micros (t : Time) : Nat :=
  let ds := t.fraction.take 6
  ofDigits ds * Nat.pow 10 (6 - ds.length)

end Stamp

end SpecTree.Yaml
