import SpecTree.Text.Digit
import SpecTree.Text.Pieces
import SpecTree.Yaml.Stamp

/-!
# Tags

A tag says of what kind a value is. A plain text without one gets it from its form: nothing, a
flag, a number, a time stamp or, failing these, a text. Underscores in numbers are for the eye
only; numbers may have groups to the base sixty after colons.
-/

namespace SpecTree.Yaml

inductive Tag where
  | null
  | flag
  | whole
  | real
  | stamp
  | bytes
  | text
  | list
  | map
  | set
  /-- Entries in order, and entries whose keys may come again. -/
  | ordered
  | pairs
  /-- A key whose value is taken into the mapping around it. -/
  | merge
  | value
  | other
  deriving Repr, DecidableEq, Inhabited

namespace Tag

/-- What the names of the tags of the standard start with. -/
def mark : String := "tag:yaml.org,2002:"

def names : List (String × Tag) :=
  [("null", null), ("bool", flag), ("int", whole), ("float", real), ("timestamp", stamp),
   ("binary", bytes), ("str", text), ("seq", list), ("map", map), ("set", set), ("omap", ordered),
   ("pairs", pairs), ("merge", merge), ("value", value)]

def ofName (name : String) : Tag :=
  ((names.find? fun (word, _) => mark ++ word = name).map (·.2)).getD other

/-! ## The form of a plain text -/

open Text (splitWhile)

def nullWords : List String := ["", "~", "null", "Null", "NULL"]

def flagWords : List String :=
  ["yes", "Yes", "YES", "no", "No", "NO", "true", "True", "TRUE", "false", "False", "FALSE", "on",
   "On", "ON", "off", "Off", "OFF"]

def infinityWords : List String := [".inf", ".Inf", ".INF"]

def notANumberWords : List String := [".nan", ".NaN", ".NAN"]

open Yaml.Stamp (isDigit)

def isSign (c : Char) : Bool := c == '+' || c == '-'

def dropSign (cs : List Char) : List Char :=
  if (cs.head?.map isSign).getD false then cs.drop 1 else cs

/-- Whether a text consists of digits of a base and of underscores. -/
def isNumeral (base : Nat) (cs : List Char) : Bool :=
  !cs.isEmpty && cs.all fun c => c == '_' || (Text.hexValue? c).any (· < base)

/-- Whether a text is a decimal numeral that does not start with an underscore. -/
def isDecimal (cs : List Char) : Bool := (cs.head?.map isDigit).getD false && isNumeral 10 cs

/-- Sixtieths after a colon: one digit, or two of which the first is below six. -/
def isSixtieth (cs : List Char) : Bool :=
  match cs with
  | [d] => isDigit d
  | [t, d] => '0' ≤ t && t ≤ '5' && isDigit d
  | _ => false

/-- Whether a number without a sign is whole. -/
def isWhole (cs : List Char) : Bool :=
  match cs with
  | '0' :: 'b' :: ds => isNumeral 2 ds
  | '0' :: 'x' :: ds => isNumeral 16 ds
  | ['0'] => true
  | '0' :: ds => isNumeral 8 ds
  | _ =>
    match Text.pieces ':' cs with
    | [first] => isDecimal first
    | first :: groups => isDecimal first && groups.all isSixtieth
    | [] => false

/-- An exponent, which has a letter and a sign, or its absence. -/
def isExponent (cs : List Char) : Bool :=
  match cs with
  | [] => true
  | e :: sign :: ds => (e == 'e' || e == 'E') && isSign sign && !ds.isEmpty && ds.all isDigit
  | _ => false

/-- Whether a number has a point. Without digits before the point it has no sign. -/
def isReal (cs : List Char) : Bool :=
  let isPlace (c : Char) : Bool := isDigit c || c == '_'
  let (before, rest) := splitWhile isPlace (dropSign cs)
  match rest with
  | '.' :: rest =>
    let (fraction, rest) := splitWhile isPlace rest
    isExponent rest && (isDecimal before || (cs.head? == some '.' && isDecimal fraction))
  | _ => false

/-- Whether a number with a point has groups to the base sixty. -/
def isRealSexagesimal (cs : List Char) : Bool :=
  match Text.pieces ':' (dropSign cs) with
  | first :: second :: rest =>
    let groups := second :: rest
    match Text.pieces '.' (groups.getLastD []) with
    | [last, fraction] =>
      isDecimal first && (groups.dropLast ++ [last]).all isSixtieth
        && fraction.all fun c => isDigit c || c == '_'
    | _ => false
  | _ => false

/-- The tag that a text has by its form. -/
def ofForm (s : String) : Tag :=
  let cs := dropLineEnd s.toList
  let word := String.ofList cs
  let unsigned := String.ofList (dropSign cs)
  if cs.isEmpty then if s.isEmpty then null else text
  else if nullWords.contains word then null
  else if flagWords.contains word then flag
  else if isReal cs || isRealSexagesimal cs || infinityWords.contains unsigned
      || notANumberWords.contains word then real
  else if isWhole (dropSign cs) then whole
  else if word = "<<" then merge
  else if word = "=" then value
  else if ((Stamp.ofChars? cs).map (·.isPlain)).getD false then stamp
  else text

end Tag

end SpecTree.Yaml
