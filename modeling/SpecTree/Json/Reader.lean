import SpecTree.Decimal.Limit
import SpecTree.Json.Escape
import SpecTree.Json.Value
import SpecTree.Text.Pieces

/-!
# Reading JSON

1. The text splits into marks: brackets, commas, colons and scalars, with blanks between them.
   `marks` goes on to the first place where no mark stands, and says so by a mark of its own.
2. A stack automaton turns marks into a value: `Expectation` says what may come next, and the
   stack holds the arrays and objects that are still open.

Besides the standard, the words for infinities and for no number are read as numbers. A name that
comes again in an object replaces the first value in its place. Whole numbers have a limited count
of digits.
-/

namespace SpecTree.Json

open Text (splitWhile splitWhile_snd_length)

/-! ## Marks -/

inductive Mark where
  | openArray
  | closeArray
  | openObject
  | closeObject
  | comma
  | colon
  | string (s : String)
  | scalar (j : Json)
  /-- A whole number with too many digits. -/
  | longNumber (digits : Nat)
  /-- A place where no mark stands. -/
  | broken

/-- Why a text is no JSON value. -/
inductive Problem where
  | malformed
  | longNumber (digits : Nat)
  deriving Repr, DecidableEq

def isSpace (c : Char) : Bool := c == ' ' || c == '\t' || c == '\n' || c == '\r'

def isDigit (c : Char) : Bool := '0' ≤ c && c ≤ '9'

/-- The number that digits stand for. -/
def ofDigits (ds : List Char) : Nat := ds.foldl (fun n d => 10 * n + (d.toNat - '0'.toNat)) 0

/-- The binary number nearest to `digits · 10 ^ exponent`. -/
def floatOfDecimal (digits : Nat) (exponent : Int) : Float :=
  let size : Int := (Nat.toDigits 10 digits).length + exponent
  if digits = 0 ∨ size < -400 then 0
  else if 400 < size then 1 / 0
  else Float.ofScientific digits (exponent < 0) exponent.natAbs

/-- A point with the digits after it. -/
def readFraction (cs : List Char) : List Char × List Char :=
  match cs with
  | '.' :: rest =>
    let (ds, after) := splitWhile isDigit rest
    if ds.isEmpty then ([], cs) else (ds, after)
  | _ => ([], cs)

/-- Whether a minus stands in front, and what follows the sign. -/
def readSign : List Char → Bool × List Char
  | '-' :: cs => (true, cs)
  | '+' :: cs => (false, cs)
  | cs => (false, cs)

def signed (negative : Bool) (n : Nat) : Int := if negative then -(n : Int) else n

/-- An exponent with its sign. -/
def readExponent (cs : List Char) : Option Int × List Char :=
  match cs with
  | e :: rest =>
    if e = 'e' ∨ e = 'E' then
      let (negative, digits) := readSign rest
      let (ds, after) := splitWhile isDigit digits
      if ds.isEmpty then (none, cs) else (some (signed negative (ofDigits ds)), after)
    else (none, cs)
  | [] => (none, cs)

/-- The whole part of a number: a zero stands alone. -/
def readWhole (cs : List Char) : List Char × List Char :=
  match cs with
  | '0' :: rest => (['0'], rest)
  | _ => splitWhile isDigit cs

/-- A whole number by its digits. -/
def wholeMark (negative : Bool) (digits : List Char) : Mark :=
  if Decimal.maxDigits < digits.length then .longNumber digits.length
  else .scalar (.int (signed negative (ofDigits digits)))

/-- A number after its sign. -/
def readNumber (negative : Bool) (cs : List Char) : Option (Mark × List Char) :=
  let (whole, rest) := readWhole cs
  if whole.isEmpty then none
  else
    let (fraction, rest) := readFraction rest
    let (exponent?, rest) := readExponent rest
    if fraction.isEmpty && exponent?.isNone then some (wholeMark negative whole, rest)
    else
      let x := floatOfDecimal (ofDigits (whole ++ fraction)) (exponent?.getD 0 - fraction.length)
      some (.scalar (.float (if negative then -x else x)), rest)

/-- The words that are values. -/
def words : List (List Char × Json) :=
  [(['n', 'u', 'l', 'l'], .null), (['t', 'r', 'u', 'e'], .bool true),
   (['f', 'a', 'l', 's', 'e'], .bool false), (['N', 'a', 'N'], .float (0 / 0)),
   (['I', 'n', 'f', 'i', 'n', 'i', 't', 'y'], .float (1 / 0)),
   (['-', 'I', 'n', 'f', 'i', 'n', 'i', 't', 'y'], .float (-1 / 0))]

def readWord (cs : List Char) : Option (Json × List Char) :=
  (words.find? fun w => w.1.isPrefixOf cs).map fun w => (w.2, cs.drop w.1.length)

/-- The first mark of a text that starts with `c`. -/
def readMark (c : Char) (cs : List Char) : Option (Mark × List Char) :=
  match c with
  | '[' => some (.openArray, cs)
  | ']' => some (.closeArray, cs)
  | '{' => some (.openObject, cs)
  | '}' => some (.closeObject, cs)
  | ',' => some (.comma, cs)
  | ':' => some (.colon, cs)
  | '"' => (unquote? cs).map fun (text, rest) => (.string (String.ofList text), rest)
  | _ =>
    match readWord (c :: cs) with
    | some (j, rest) => some (.scalar j, rest)
    | none => if c = '-' then readNumber true cs else readNumber false (c :: cs)

/-! ## A mark takes a character -/

theorem readFraction_length (cs : List Char) : (readFraction cs).2.length ≤ cs.length := by
  unfold readFraction
  split
  · next rest =>
    have := splitWhile_snd_length isDigit rest
    dsimp only
    split
    · exact Nat.le_refl _
    · simp only [List.length_cons]; omega
  · exact Nat.le_refl _

theorem readSign_length (cs : List Char) : (readSign cs).2.length ≤ cs.length := by
  unfold readSign
  split <;> simp

theorem readExponent_length (cs : List Char) : (readExponent cs).2.length ≤ cs.length := by
  unfold readExponent
  split
  · next e rest =>
    split
    · have h1 := readSign_length rest
      have h2 := splitWhile_snd_length isDigit (readSign rest).2
      dsimp only
      split
      · exact Nat.le_refl _
      · simp only [List.length_cons]; omega
    · exact Nat.le_refl _
  · exact Nat.le_refl _

theorem readWhole_length (cs : List Char) (h : (readWhole cs).1.isEmpty = false) :
    (readWhole cs).2.length < cs.length := by
  unfold readWhole at *
  split at *
  · simp
  · have happ := congrArg List.length (Text.splitWhile_append isDigit cs)
    have hpos : 0 < (splitWhile isDigit cs).1.length :=
      List.length_pos_iff.2 (fun he => by simp [he] at h)
    rw [List.length_append] at happ
    omega

theorem readNumber_length {negative : Bool} {cs rest : List Char} {m : Mark}
    (h : readNumber negative cs = some (m, rest)) : rest.length < cs.length := by
  unfold readNumber at h
  dsimp only at h
  split at h
  · cases h
  · next hw =>
    have h1 := readWhole_length cs (by simpa using hw)
    have h2 := readFraction_length (readWhole cs).2
    have h3 := readExponent_length (readFraction (readWhole cs).2).2
    split at h <;> (cases h; omega)

theorem readWord_length {cs rest : List Char} {j : Json} (h : readWord cs = some (j, rest)) :
    rest.length < cs.length := by
  obtain ⟨w, hw, heq⟩ := Option.map_eq_some_iff.1 h
  cases heq
  have hp : w.1.isPrefixOf cs = true := by simpa using List.find?_some hw
  have hpos : 0 < w.1.length := by
    have hm := List.mem_of_find?_eq_some hw
    simp only [words, List.mem_cons, List.not_mem_nil, or_false] at hm
    rcases hm with rfl | rfl | rfl | rfl | rfl | rfl <;> simp
  have hle := (List.isPrefixOf_iff_prefix.1 hp).length_le
  rw [List.length_drop]
  omega

theorem readMark_length {c : Char} {cs rest : List Char} {m : Mark}
    (h : readMark c cs = some (m, rest)) : rest.length ≤ cs.length := by
  unfold readMark at h
  split at h
  · cases h; exact Nat.le_refl _
  · cases h; exact Nat.le_refl _
  · cases h; exact Nat.le_refl _
  · cases h; exact Nat.le_refl _
  · cases h; exact Nat.le_refl _
  · cases h; exact Nat.le_refl _
  · obtain ⟨⟨text, r⟩, hu, heq⟩ := Option.map_eq_some_iff.1 h
    cases heq
    exact Nat.le_of_lt (unquote?_length hu)
  · split at h
    · next hw =>
      cases h
      have := readWord_length hw
      simp only [List.length_cons] at this
      omega
    · split at h
      · exact Nat.le_of_lt (readNumber_length h)
      · have := readNumber_length h
        simp only [List.length_cons] at this
        omega

/-- The marks of a text up to a place where none stands. -/
def marks (cs : List Char) : List Mark :=
  match cs with
  | [] => []
  | c :: rest =>
    if isSpace c then marks rest
    else
      match _h : readMark c rest with
      | none => [.broken]
      | some (m, after) => m :: marks after
termination_by cs.length
decreasing_by
  · simp
  · have := readMark_length ‹_›
    simp only [List.length_cons]
    omega

/-! ## The automaton -/

/-- An open array or object with what it holds so far, the last item of an array first. -/
inductive Frame where
  | array (items : List Json)
  | object (members : List (String × Json))
  | member (members : List (String × Json)) (name : String)

/-- What may come next. -/
inductive Expectation where
  | value
  | valueOrClose
  | name
  | nameOrClose
  | colon
  | commaOrClose
  | nothing (result : Json)

structure Machine where
  stack : List Frame
  next : Expectation

namespace Machine

def start : Machine := ⟨[], .value⟩

/-- Puts a finished value where it belongs. -/
def deliver (stack : List Frame) (j : Json) : Option Machine :=
  match stack with
  | [] => some ⟨[], .nothing j⟩
  | .array items :: below => some ⟨.array (j :: items) :: below, .commaOrClose⟩
  | .member members name :: below =>
    some ⟨.object (putEntry name j members) :: below, .commaOrClose⟩
  | .object _ :: _ => none

/-- A value, or the opening of one. -/
def takeValue (stack : List Frame) : Mark → Option Machine
  | .scalar j => deliver stack j
  | .string s => deliver stack (.str s)
  | .openArray => some ⟨.array [] :: stack, .valueOrClose⟩
  | .openObject => some ⟨.object [] :: stack, .nameOrClose⟩
  | _ => none

def takeName (stack : List Frame) : Mark → Option Machine
  | .string s =>
    match stack with
    | .object members :: below => some ⟨.member members s :: below, .colon⟩
    | _ => none
  | _ => none

/-- The end of the innermost array or object. -/
def takeClose (stack : List Frame) : Mark → Option Machine
  | .closeArray =>
    match stack with
    | .array items :: below => deliver below (.arr items.reverse)
    | _ => none
  | .closeObject =>
    match stack with
    | .object members :: below => deliver below (.obj members)
    | _ => none
  | _ => none

def takeComma (stack : List Frame) : Mark → Option Machine
  | .comma =>
    match stack with
    | .array _ :: _ => some ⟨stack, .value⟩
    | .object _ :: _ => some ⟨stack, .name⟩
    | _ => none
  | _ => none

def step? (m : Machine) (mark : Mark) : Option Machine :=
  match m.next with
  | .value => takeValue m.stack mark
  | .valueOrClose => (takeClose m.stack mark).or (takeValue m.stack mark)
  | .name => takeName m.stack mark
  | .nameOrClose => (takeClose m.stack mark).or (takeName m.stack mark)
  | .colon =>
    match mark with
    | .colon => some ⟨m.stack, .value⟩
    | _ => none
  | .commaOrClose => (takeComma m.stack mark).or (takeClose m.stack mark)
  | .nothing _ => none

/-- Whether a value may come next. -/
def takesValue (m : Machine) : Bool :=
  match m.next with
  | .value | .valueOrClose => true
  | _ => false

/-- Takes a mark. A number that is too long counts only where a value may come. -/
def step (m : Machine) (mark : Mark) : Except Problem Machine :=
  match mark, m.step? mark with
  | .longNumber digits, _ => .error (if m.takesValue then .longNumber digits else .malformed)
  | _, some next => .ok next
  | _, none => .error .malformed

def result? (m : Machine) : Option Json :=
  match m.next with
  | .nothing j => some j
  | _ => none

end Machine

/-- The value that a row of marks makes up. -/
def ofMarks (marks : List Mark) : Except Problem Json := do
  let m ← marks.foldlM Machine.step Machine.start
  match m.result? with
  | some j => return j
  | none => throw .malformed

/-- The value of a JSON text. -/
def read (text : String) : Except Problem Json := ofMarks (marks text.toList)

/-- The value of a JSON text, if it is one. -/
def read? (text : String) : Option Json := (read text).toOption

end SpecTree.Json
