/-!
# Places in a file

What is left of a file, and where that starts. Lines matter since a key on one line ends with it,
columns since blocks are told apart by their indentation. A line ends in a line feed, a carriage
return, both, or one of three marks of the Unicode standard; a mark of the byte order takes no
column.
-/

namespace SpecTree.Yaml

/-- Whether a character ends a line. -/
def isBreak (c : Char) : Bool :=
  c == '\n' || c == '\r' || c == '\u0085' || c == '\u2028' || c == '\u2029'

def isSpace (c : Char) : Bool := c == ' '

def isBlank (c : Char) : Bool := c == ' ' || c == '\t'

/-- Whether a word ends here: at a blank, at the end of a line or of the file. -/
def atGap (cs : List Char) : Bool :=
  match cs with
  | [] => true
  | c :: _ => isBlank c || isBreak c

/-- Whether a word ends here and no tab follows it. -/
def atStop (cs : List Char) : Bool :=
  match cs with
  | [] => true
  | c :: _ => isSpace c || isBreak c

def atLineEnd (cs : List Char) : Bool :=
  match cs with
  | [] => true
  | c :: _ => isBreak c

/-- Whether three dashes or three dots stand here by themselves. -/
def atDocumentMark (cs : List Char) : Bool :=
  match cs with
  | '-' :: '-' :: '-' :: rest => atGap rest
  | '.' :: '.' :: '.' :: rest => atGap rest
  | _ => false

/-- Without the line end that a text in lines may have. -/
def dropLineEnd (cs : List Char) : List Char :=
  if cs.getLast? == some '\n' then cs.dropLast else cs

structure Place where
  rest : List Char
  index : Nat
  line : Nat
  column : Nat

namespace Place

/-- The start of a text. -/
def start (cs : List Char) : Place := ⟨cs, 0, 0, 0⟩

/-- One character further; at the end the place stays. -/
def step (p : Place) : Place :=
  match p.rest with
  | [] => p
  | c :: rest =>
    if isBreak c && !(c == '\r' && rest.head? == some '\n') then
      ⟨rest, p.index + 1, p.line + 1, 0⟩
    else ⟨rest, p.index + 1, p.line, if c = '\uFEFF' then p.column else p.column + 1⟩

/-- `n` characters further. -/
def advance (p : Place) : Nat → Place
  | 0 => p
  | n + 1 => p.step.advance n

/-- Past the characters of a class. -/
def skip (p : Place) (class? : Char → Bool) : Place := p.advance (p.rest.takeWhile class?).length

/-- The characters of a class that stand here, and the place after them. -/
def take (p : Place) (class? : Char → Bool) : List Char × Place :=
  (p.rest.takeWhile class?, p.skip class?)

/-- The end of a line as the character it counts for, and the place after it. -/
def lineBreak? (p : Place) : Option (Char × Place) :=
  match p.rest with
  | '\r' :: '\n' :: _ => some ('\n', p.advance 2)
  | c :: _ =>
    if isBreak c then some (if c = '\u2028' ∨ c = '\u2029' then c else '\n', p.step) else none
  | [] => none

/-- Past spaces and a comment to the end of the line. -/
def skipComment (p : Place) : Place :=
  let p := p.skip isSpace
  if p.rest.head? == some '#' then p.skip fun c => !isBreak c else p

end Place

end SpecTree.Yaml
