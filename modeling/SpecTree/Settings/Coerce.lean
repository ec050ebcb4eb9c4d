import SpecTree.Decimal.Limit
import SpecTree.Decimal.Number
import SpecTree.Decimal.Reader
import SpecTree.Json.Decode

/-!
# Values of settings

Numbers may also be given as texts and flags, flags also as numbers and words; texts have to be
texts.
-/

namespace SpecTree.Settings

open Json (isDigit ofDigits readSign signed)
open Text (splitWhile)

/-- Without single underscores inside the text; one with others is left as it is. -/
def dropUnderscores (cs : List Char) : List Char :=
  if (Text.pieces '_' cs).all fun g => !g.isEmpty then cs.filter (· != '_') else cs

/-- Without a point that has only zeros, and at least one, after it. -/
def dropZeroFraction (cs : List Char) : List Char :=
  let (whole, rest) := splitWhile (· != '.') cs
  let zeros := rest.drop 1
  if !zeros.isEmpty && zeros.all (· == '0') then whole else cs

/-- What follows a zero, without the zeros and underscores at its start. `last` is the character
before, which stays if nothing or a point follows. -/
def afterZero? (last : Char) : List Char → Option (List Char)
  | [] => some [last]
  | c :: cs =>
    if c = '0' ∨ c = '_' then afterZero? c cs
    else if c = '-' ∨ isDigit c then some (c :: cs)
    else if c = '.' then some (last :: c :: cs)
    else none

/-- A text that starts with a digit or a minus, without zeros at its start. -/
def dropZeros? (cs : List Char) : Option (List Char) :=
  match cs with
  | [] => none
  | c :: rest =>
    if c = '0' then afterZero? c rest else if c = '-' ∨ isDigit c then some cs else none

/-- The whole number that digits with a sign stand for. -/
def plainWhole? (cs : List Char) : Option Int :=
  let (negative, ds) := readSign cs
  if ds.isEmpty || !ds.all isDigit || Decimal.maxDigits < ds.length then none
  else some (signed negative (ofDigits ds))

/-- The whole number that a text stands for. -/
def wholeOfText? (text : String) : Option Int := do
  let cs := Text.trimChars text.toList
  let unsigned ←
    match cs with
    | '+' :: '-' :: _ => none
    | '+' :: rest => some rest
    | _ => some cs
  plainWhole? (dropUnderscores (dropZeroFraction (← dropZeros? unsigned)))

/-- The number that a text stands for. -/
def realOfText? (text : String) : Option Float :=
  (Decimal.ofChars? (Text.trimChars text.toList)).or
    (Decimal.ofChars? (dropUnderscores text.toList))

/-- The whole number of a finite number without a fraction, in the range of 64 bits. -/
def wholeOfReal? (x : Float) : Option Int :=
  if x.abs < 9223372036854775808 then Number.wholeOf? x else none

def whole? : Json → Option Int
  | .bool b => some (if b then 1 else 0)
  | .int n => some n
  | .float x => wholeOfReal? x
  | .str s => wholeOfText? s
  | _ => none

def real? : Json → Option Float
  | .bool b => some (if b then 1 else 0)
  | .int n => (Number.whole n).binary.toOption
  | .float x => some x
  | .str s => realOfText? s
  | _ => none

/-- A text or nothing. -/
def optionalText? : Json → Option (Option String)
  | .null => some none
  | .str s => some (some s)
  | _ => none

end SpecTree.Settings
