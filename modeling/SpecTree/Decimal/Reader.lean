import SpecTree.Json.Reader
import SpecTree.Text.Blank
import SpecTree.Text.Digit

/-!
# Reading decimals

A decimal has digits, of which a point may be among, and may have a sign before them and an
exponent after them. The words for infinity and for no number are read in any case.
-/

namespace SpecTree.Decimal

open Json (isDigit ofDigits readSign)
open Text (splitWhile)

/-- Whether a text is a word in any case. -/
def isWord (cs : List Char) (words : List String) : Bool :=
  words.contains (String.ofList (cs.map Char.toLower))

/-- A decimal without a sign. -/
def magnitude? (cs : List Char) : Option Float :=
  let (whole, rest) := splitWhile isDigit cs
  let (fraction, rest) :=
    match rest with
    | '.' :: rest => splitWhile isDigit rest
    | _ => ([], rest)
  let (exponent, rest) := Json.readExponent rest
  if (whole ++ fraction).isEmpty || !rest.isEmpty then none
  else some (Json.floatOfDecimal (ofDigits (whole ++ fraction)) (exponent.getD 0 - fraction.length))

/-- The number that a text stands for. -/
def ofChars? (cs : List Char) : Option Float :=
  let (negative, cs) := readSign cs
  let size :=
    if isWord cs ["inf", "infinity"] then some (1 / 0)
    else if isWord cs ["nan"] then some (0 / 0)
    else magnitude? cs
  size.map fun x => if negative then -x else x

end SpecTree.Decimal
