import SpecTree.Yaml.Quoted

/-!
# Texts in lines

After a bar the lines of a text are taken as they are, after a greater-than sign they are joined
into one. The lines are indented more than the block around them; a digit after the sign says by
how much. A plus keeps the empty lines at the end, a minus drops even the last line end.
-/

namespace SpecTree.Yaml

/-- What becomes of the line ends at the end of a text. -/
inductive Ending where
  | one
  | none
  | all
  deriving Repr, DecidableEq

def ending? (c : Char) : Option Ending :=
  if c = '+' then some .all else if c = '-' then some .none else none

def width? (c : Char) : Option Nat :=
  if '0' ≤ c ∧ c ≤ '9' then some (c.toNat - '0'.toNat) else none

/-- What stands after the sign of a text: an ending and a width, in either order. -/
def header (p : Place) : (Ending × Option Nat) × Place :=
  let e := p.rest.head?.bind ending?
  let p := if e.isSome then p.step else p
  let w := p.rest.head?.bind width?
  let p := if w.isSome then p.step else p
  let late := if e.isNone && w.isSome then p.rest.head?.bind ending? else .none
  (((e.or late).getD .one, w), if late.isSome then p.step else p)

/-- Past empty lines, up to a column: the line ends as characters. -/
def emptyLines (fuel : Nat) (indent : Nat) (p : Place) (sofar : List Char) : List Char × Place :=
  match fuel with
  | 0 => (sofar, p)
  | fuel + 1 =>
    let p := p.advance (min (p.rest.takeWhile isSpace).length (indent - p.column))
    match p.lineBreak? with
    | some (c, p) => emptyLines fuel indent p (sofar ++ [c])
    | none => (sofar, p)

/-- Past spaces and empty lines: the line ends as characters, and the greatest column of a space. -/
def leadingLines (fuel : Nat) (p : Place) (widest : Nat) (sofar : List Char) :
    List Char × Nat × Place :=
  match fuel with
  | 0 => (sofar, widest, p)
  | fuel + 1 =>
    let p := p.skip isSpace
    let widest := max widest p.column
    match p.lineBreak? with
    | some (c, p) => leadingLines fuel p widest (sofar ++ [c])
    | none => (sofar, widest, p)

/-- Whether a line of a text stands here. -/
def atLine (indent : Nat) (p : Place) : Bool := p.column == indent && !p.rest.isEmpty

def startsBlank (p : Place) : Bool := (p.rest.head?.map isBlank).getD false

/-- What the end of a line counts for between two lines of a text. -/
def joint (folds : Bool) (first after : Place) (lineEnd others : List Char) : List Char :=
  if folds ∧ lineEnd = ['\n'] ∧ startsBlank first = false ∧ startsBlank after = false then
    if others.isEmpty then [' '] else []
  else lineEnd

/-- The lines of a text after those so far. -/
def lines (fuel : Nat) (folds : Bool) (ending : Ending) (indent : Nat) (p : Place)
    (gap sofar : List Char) : List Char × Place :=
  match fuel with
  | 0 => (sofar, p)
  | fuel + 1 =>
    let (line, after) := p.take fun c => !isBreak c
    let sofar := sofar ++ gap ++ line
    let (lineEnd, after) :=
      match after.lineBreak? with
      | some (c, after) => ([c], after)
      | none => ([], after)
    let (others, after) := emptyLines (after.rest.length + 1) indent after []
    if atLine indent after then
      lines fuel folds ending indent after others (sofar ++ joint folds p after lineEnd others)
    else
      match ending with
      | .one => (sofar ++ lineEnd, after)
      | .none => (sofar, after)
      | .all => (sofar ++ lineEnd ++ others, after)

/-- A text after its sign, in a block whose contents stand in column `least`. -/
def blockText (folds : Bool) (least : Nat) (p : Place) : Except Problem (List Char × Place) :=
  let ((ending, width), p) := header p
  let p' := p.skipComment
  if width = some 0 ∨ !atStop p.rest ∨ !atLineEnd p'.rest then .error .malformed
  else
    let p := (p'.lineBreak?.map (·.2)).getD p'
    let least := max least 1
    let (gap, indent, p) :=
      match width with
      | some n =>
        let indent := least + n - 1
        let (gap, p) := emptyLines (p.rest.length + 1) indent p []
        (gap, indent, p)
      | none =>
        let (gap, widest, p) := leadingLines (p.rest.length + 1) p 0 []
        (gap, max least widest, p)
    if atLine indent p then .ok (lines (p.rest.length + 1) folds ending indent p gap [])
    else .ok (if ending = .all then gap else [], p)

end SpecTree.Yaml
