import SpecTree.Decimal.Number
import SpecTree.Text.Pieces
import SpecTree.Time.Calendar

/-!
# Time stamps

A stamp is a date, or a date with a time of day, or a count of seconds or milliseconds since 1970.
A time may have a fraction of a second and an offset from universal time. A count is of
milliseconds if it is large; what it counts to lies in the years 1600 to 9999.
-/

namespace SpecTree.Stamp

def isDigit (c : Char) : Bool := '0' ≤ c && c ≤ '9'

/-- The number in the first `count` characters, and what follows. -/
def number? (count : Nat) (cs : List Char) : Option (Nat × List Char) :=
  let ds := cs.take count
  if ds.length = count && ds.all isDigit then
    some (ds.foldl (fun n d => 10 * n + (d.toNat - '0'.toNat)) 0, cs.drop count)
  else none

/-- What follows a date. -/
def afterDate? (cs : List Char) : Option (List Char) := do
  let (year, '-' :: cs) ← number? 4 cs | none
  let (month, '-' :: cs) ← number? 2 cs | none
  let (day, cs) ← number? 2 cs
  let fits := 1 ≤ year && 1 ≤ month && month ≤ 12 && 1 ≤ day && day ≤ Calendar.daysIn year month
  if fits then some cs else none

/-- What follows seconds with their fraction, if there are any. -/
def afterSeconds? (cs : List Char) : Option (List Char) :=
  match cs with
  | ':' :: cs => do
    let (seconds, cs) ← number? 2 cs
    if 59 < seconds then none
    else
      match cs with
      | point :: rest =>
        if point ≠ '.' ∧ point ≠ ',' then some cs
        else if (rest.head?.map isDigit).getD false then some (rest.dropWhile isDigit)
        else none
      | [] => some []
  | cs => some cs

/-- Whether a text is an offset from universal time, or nothing. -/
def isOffset (cs : List Char) : Bool :=
  match cs with
  | [] | ['Z'] | ['z'] => true
  | sign :: cs =>
    (sign == '+' || sign == '-' || sign == '\u2212') &&
      match number? 2 cs with
      | some (hours, rest) =>
        let rest := if rest.head? == some ':' then rest.drop 1 else rest
        match number? 2 rest with
        | some (minutes, []) => hours ≤ 23 && minutes ≤ 59
        | _ => false
      | none => false

def isTime (cs : List Char) : Bool :=
  match number? 2 cs with
  | some (hours, ':' :: cs) =>
    match number? 2 cs with
    | some (minutes, cs) =>
      hours ≤ 23 && minutes ≤ 59 && ((afterSeconds? cs).map isOffset).getD false
    | none => false
  | _ => false

/-- The greatest count of seconds; larger ones are of milliseconds. -/
def maxSeconds : Nat := 20000000000

/-- Whether a count since 1970 lies in the years 1600 to 9999. -/
def isCount (n : Int) : Bool :=
  let seconds := if n.natAbs ≤ maxSeconds then n else n / 1000
  seconds ≤ 253402300799 && -11676096000 ≤ seconds

/-- Whether a count with a fraction lies in these years. -/
def isRealCount (x : Float) : Bool := ((Number.wholeOf? x.floor).map isCount).getD false

/-- The count that a text is, without its fraction. -/
def count? (cs : List Char) : Option Int :=
  let negative := cs.head? == some '-'
  let size := if negative || cs.head? == some '+' then cs.drop 1 else cs
  let (whole, rest) := Text.splitWhile isDigit size
  let fraction := rest.drop 1
  if (whole ++ fraction).isEmpty || !fraction.all isDigit || !(rest.isEmpty || rest.head? == some '.')
  then none
  else
    let n : Int := whole.foldl (fun n d => 10 * n + (d.toNat - '0'.toNat)) 0
    some (if !negative then n else if fraction.all (· == '0') then -n else -n - 1)

def isStamp (text : String) : Bool :=
  let cs := text.toList
  match afterDate? cs with
  | some [] => true
  | some (sep :: rest) => ['T', 't', ' ', '_'].contains sep && isTime rest
  | none => ((count? cs).map isCount).getD false

end SpecTree.Stamp
