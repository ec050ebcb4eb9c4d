import SpecTree.Decimal.Reader
import SpecTree.Text.Base64
import SpecTree.Text.Lowercase
import SpecTree.Yaml.Problem
import SpecTree.Yaml.Stamp
import SpecTree.Yaml.Value

/-!
# Values of texts

What a text stands for under a tag. A tag may be given to any text, so each reading can fail.
-/

namespace SpecTree.Yaml.Scalar

open Json (ofDigits readSign signed)
open Text (splitWhile)

/-- A text as numbers are read from it: without blanks at its ends and with digits of ASCII. -/
def trimmed (cs : List Char) : List Char := (Text.stripChars cs).map Text.asciiDigit

/-- Without the letter after a zero that says the base. -/
def dropBase (base : Nat) (cs : List Char) : List Char :=
  let letters := if base = 2 then ['b', 'B'] else if base = 8 then ['o', 'O'] else ['x', 'X']
  match cs with
  | '0' :: c :: rest => if base ≠ 10 ∧ letters.contains c ∧ !rest.isEmpty then rest else cs
  | _ => cs

/-- The whole number that a text is in a base. Only the digits of the base ten are limited. -/
def numeral (base : Nat) (cs : List Char) : Except Problem Int :=
  let (negative, digits) := readSign (trimmed cs)
  let (ds, rest) := splitWhile (fun c => (Text.hexValue? c).any (· < base)) (dropBase base digits)
  if base = 10 ∧ Decimal.maxDigits < ds.length then .error (.longNumber ds.length)
  else if ds.isEmpty || !rest.isEmpty then .error (.notWhole base (String.ofList cs))
  else .ok (signed negative (ds.foldl (fun n d => base * n + (Text.hexValue? d).getD 0) 0))

def real (cs : List Char) : Except Problem Float :=
  match Decimal.ofChars? (trimmed cs) with
  | some x => .ok x
  | none => .error (.notReal (String.ofList cs))

def dropUnderscores (cs : List Char) : List Char := cs.filter (· != '_')

/-- The value of a whole number: the base shows in how it starts, colons separate groups to the
base sixty. -/
def wholeValue (s : String) : Except Problem Value := do
  let cs := dropUnderscores s.toList
  if cs.isEmpty then .error .noDigits
  let (negative, cs) := readSign cs
  let n ←
    match cs with
    | [] => .error .noDigits
    | ['0'] => pure 0
    | '0' :: 'b' :: ds => numeral 2 ds
    | '0' :: 'x' :: ds => numeral 16 ds
    | '0' :: _ => numeral 8 cs
    | _ =>
      if cs.contains ':' then
        ((Text.pieces ':' cs).mapM (numeral 10)).map fun groups => groups.foldl (60 * · + ·) 0
      else numeral 10 cs
  return .int (if negative then -n else n)

/-- Groups to the base sixty, the last one first, each with its weight. -/
def weighted (xs : List Float) (weight : Nat) : List Float :=
  match xs with
  | [] => []
  | x :: rest => x * Float.ofNat weight :: weighted rest (60 * weight)

/-- The value of a number with a point. -/
def realValue (s : String) : Except Problem Value := do
  let cs := (Text.lower (String.ofList (dropUnderscores s.toList))).toList
  if cs.isEmpty then .error .noDigits
  let (negative, cs) := readSign cs
  let word := String.ofList cs
  if word = ".nan" then return .float (0 / 0)
  let x ←
    if word = ".inf" then pure (1 / 0)
    else if cs.contains ':' then do
      let groups ← (Text.pieces ':' cs).mapM real
      pure ((weighted groups.reverse 1).foldl (· + ·) 0)
    else real cs
  return .float (if negative then -x else x)

def flagValue (s : String) : Except Problem Value :=
  let word := Text.lower s
  if ["yes", "true", "on"].contains word then .ok (.bool true)
  else if ["no", "false", "off"].contains word then .ok (.bool false)
  else .error .notFlag

/-- The value of a stamp: a date, or a moment if it has a time. -/
def stampValue (s : Stamp) : Except Problem Value :=
  let read :=
    match s.time with
    | none => (Calendar.Date.of s.year s.month s.day).map Value.date
    | some t =>
      (Calendar.Moment.of s.year s.month s.day t.hour t.minute t.second t.micros t.offset).map
        Value.moment
  read.mapError .badDate

def stampOfText (s : String) : Except Problem Value :=
  match Stamp.ofChars? (dropLineEnd s.toList) with
  | some stamp => stampValue stamp
  | none => .error .notStamp

def bytesValue (s : String) : Except Problem Value :=
  if s.toList.all (·.toNat < 128) then
    match Text.base64? s.toList with
    | some bs => .ok (.bytes bs)
    | none => .error .malformed
  else .error .malformed

end SpecTree.Yaml.Scalar
