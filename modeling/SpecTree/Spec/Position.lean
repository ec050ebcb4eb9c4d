/-!
# Places in a spec file

A `Position` is a point between two characters, with lines and columns counted from 1 and offsets
from 0, all in characters. A `Span` is a stretch of one file.
-/

namespace SpecTree.Spec

structure Position where
  line : Nat := 1
  column : Nat := 1
  offset : Nat := 0
  deriving Repr, DecidableEq, Inhabited

namespace Position

/-- The start of a file. -/
def origin : Position := {}

/-- The position after one more character. -/
def next (p : Position) (c : Char) : Position :=
  if c = '\n' then ⟨p.line + 1, 1, p.offset + 1⟩ else ⟨p.line, p.column + 1, p.offset + 1⟩

/-- The position after a run of characters. -/
def after (p : Position) (cs : List Char) : Position :=
  cs.foldl next p

/-- The position `n` columns further on the same line. -/
def along (p : Position) (n : Nat) : Position :=
  ⟨p.line, p.column + n, p.offset + n⟩

@[simp] theorem after_nil (p : Position) : p.after [] = p := rfl

@[simp] theorem after_cons (p : Position) (c : Char) (cs : List Char) :
    p.after (c :: cs) = (p.next c).after cs := rfl

theorem after_append (p : Position) (cs ds : List Char) :
    p.after (cs ++ ds) = (p.after cs).after ds := by
  simp [after, List.foldl_append]

end Position

/-- A stretch of the file `file`. -/
structure Span where
  file : String
  start : Position
  stop : Position
  deriving Repr, DecidableEq, Inhabited

/-- The empty stretch at a position. -/
def Span.at (file : String) (p : Position) : Span := ⟨file, p, p⟩

/-- The empty stretch at the start of a file. -/
def Span.empty (file : String) : Span := .at file .origin

end SpecTree.Spec
