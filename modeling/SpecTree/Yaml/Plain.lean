import SpecTree.Yaml.Quoted

/-!
# Plain texts

A text without quotes ends at a colon with a blank after it and before a comment; in brackets it
also ends at any bracket, comma or question mark. It may go on over lines that are indented more
than the block around it.
-/

namespace SpecTree.Yaml

/-- Whether a character means something of its own in brackets. -/
def isBracketMark (c : Char) : Bool := [',', '?', '[', ']', '{', '}'].contains c

/-- Whether a colon ends a text here. -/
def endsAtColon (inBrackets : Bool) (after : List Char) : Bool :=
  atGap after || (inBrackets && (after.head?.map isBracketMark).getD false
    && after.head? != some '?')

/-- How many characters go on a word. -/
def wordLength (inBrackets : Bool) : List Char → Nat
  | [] => 0
  | c :: cs =>
    if isBlank c || isBreak c || (c == ':' && endsAtColon inBrackets cs)
        || (inBrackets && isBracketMark c) then 0
    else wordLength inBrackets cs + 1

/-- Past spaces and the ends of lines, and the ends as characters; nothing if a document mark
follows one. -/
def plainBreaks (fuel : Nat) (p : Place) (sofar : List Char) : Option (List Char) × Place :=
  match fuel with
  | 0 => (none, p)
  | fuel + 1 =>
    if atDocumentMark p.rest && p.column == 0 then (none, p)
    else
      let p := p.skip isSpace
      match p.lineBreak? with
      | some (c, p) => plainBreaks fuel p (sofar ++ [c])
      | none => (some sofar, p)

/-- The gap after a word: what it counts for if the text goes on, the place after it, and whether
a line ended in it. -/
def plainGap (p : Place) : List Char × Place × Bool :=
  let (spaces, p) := p.take isSpace
  match p.lineBreak? with
  | some (c, p) =>
    match plainBreaks (p.rest.length + 1) p [] with
    | (some others, p) => (folded c others, p, true)
    | (none, p) => ([], p, true)
  | none => (spaces, p, false)

/-- A text that goes on while its words stand in column `least` or after it. The result also says
whether a line ended after the last word. -/
def plainText (fuel : Nat) (inBrackets : Bool) (least : Nat) (p : Place) (gap sofar : List Char)
    (lineEnded : Bool) : List Char × Place × Bool :=
  match fuel with
  | 0 => (sofar, p, lineEnded)
  | fuel + 1 =>
    let length := wordLength inBrackets p.rest
    if length = 0 ∨ p.rest.head? = some '#' then (sofar, p, lineEnded)
    else
      let sofar := sofar ++ gap ++ p.rest.take length
      let (gap, p, lineEnded) := plainGap (p.advance length)
      if gap.isEmpty || (!inBrackets && p.column < least) then (sofar, p, lineEnded)
      else plainText fuel inBrackets least p gap sofar lineEnded

end SpecTree.Yaml
