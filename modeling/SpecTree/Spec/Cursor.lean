import SpecTree.Spec.Position

/-!
# Cursor

A place in a text as what lies before it, nearest character first, and what lies after it.
-/

namespace SpecTree.Spec

structure Cursor where
  before : List Char
  after : List Char
  position : Position

namespace Cursor

/-- The start of a text. -/
def start (source : String) : Cursor := ⟨[], source.toList, .origin⟩

/-- The character `n` places ahead. -/
def peek (c : Cursor) (n : Nat) : Option Char := c.after[n]?

def previous (c : Cursor) : Option Char := c.before.head?

def atEnd (c : Cursor) : Bool := c.after.isEmpty

/-- One character further; at the end the cursor stays. -/
def step (c : Cursor) : Cursor :=
  match c.after with
  | [] => c
  | a :: rest => ⟨a :: c.before, rest, c.position.next a⟩

/-- `n` characters further, or to the end of the text. -/
def advance (c : Cursor) : Nat → Cursor
  | 0 => c
  | n + 1 => c.step.advance n

theorem advance_add (c : Cursor) (m n : Nat) : c.advance (m + n) = (c.advance m).advance n := by
  induction m generalizing c with
  | zero => simp [advance]
  | succ m ih => rw [Nat.succ_add]; exact ih c.step

/-- Advancing by the length of a leading run moves the run behind the cursor. -/
theorem advance_append (b : List Char) (p : Position) (run rest : List Char) :
    (Cursor.mk b (run ++ rest) p).advance run.length
      = ⟨run.reverse ++ b, rest, p.after run⟩ := by
  induction run generalizing b p with
  | nil => rfl
  | cons a run ih => simpa [advance, step] using ih (a :: b) (p.next a)

end Cursor

end SpecTree.Spec
