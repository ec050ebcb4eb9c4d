import SpecTree.Decimal.Number
import SpecTree.Provider.Failure

/-!
# Retries

A task is attempted until it succeeds, fails in a way that another attempt cannot mend, or has
been attempted often enough. Between two attempts the waiting time grows by a factor, up to a
limit.

The waiting times are counted in any kind of number that can tell the next of them, so that they
can be given as settings have them and reasoned about in rationals. Where the numbers have bounds,
the next waiting time may be beyond them; the run then ends with this failure.
-/

namespace SpecTree.Retry

/-- Waiting times that grow by a factor. -/
structure Backoff (α : Type) where
  base : α
  factor : α
  limit : α
  deriving Repr

/-- The time to wait after the attempt with index `k`, counted from zero, if nothing overflows. -/
def Backoff.delay {α : Type} [Mul α] [Pow α Nat] [Min α] (b : Backoff α) (k : Nat) : α :=
  min (b.base * b.factor ^ k) b.limit

/-- Kinds of numbers that seconds are counted in. -/
class Seconds (α : Type) where
  ofNat : Nat → α
  /-- The time to wait after the attempt with an index. -/
  delay : Backoff α → Nat → Except Failure α

instance : Seconds Rat :=
  ⟨Nat.cast, fun b k => .ok (@Backoff.delay Rat _ Rat.instPowNat Rat.instMin b k)⟩

/-- The waiting time as given numbers have it. -/
def Backoff.given (b : Backoff Number) (k : Nat) : Except Overflow Number := do
  return min (← b.base.mul (← b.factor.pow k)) b.limit

/-- A waiting time is told in binary, so that it has to be within the binary range. -/
instance : Seconds Number where
  ofNat n := .fractional n.toFloat
  delay b k := ((b.given k).bind Number.binary).mapError (⟨.overflow, ·.message⟩)
    |>.map .fractional

structure Policy (α : Type) where
  /-- How often a task is attempted; once in any case. -/
  limit : Int
  backoff : Backoff α
  /-- The failures after which another attempt may succeed. -/
  mends : FailureKind → Bool

def Policy.attempts {α : Type} (p : Policy α) : Nat := max 1 p.limit.toNat

/-- What is worth telling about a run of attempts, which are numbered from one. -/
inductive Notice (α : Type) where
  /-- An attempt took longer than it may. -/
  | timedOut
  | retrying (attempt : Nat) (failure : Failure) (delay : α)
  | recovered (attempt : Nat)
  | exhausted (failure : Failure)
  deriving Repr, DecidableEq

def Notice.delay? {α : Type} : Notice α → Option α
  | .retrying _ _ delay => some delay
  | _ => none

/-- One attempt at a task: how it ended, what there is to tell, and the state that it left. -/
structure Attempt (α σ β : Type) where
  outcome : Except Failure β
  notices : List (Notice α) := []
  after : σ

/-- A run of attempts. -/
structure Run (α σ β : Type) where
  outcome : Except Failure β
  attempts : Nat
  notices : List (Notice α)
  after : σ

/-- The waiting times of a run, in order. -/
def Run.delays {α σ β : Type} (r : Run α σ β) : List α := r.notices.filterMap Notice.delay?

variable {α σ β : Type} [Seconds α]

/-- The attempts from the one with index `made` on; `spare` more may follow it. -/
def Policy.runFrom (p : Policy α) (task : σ → Attempt α σ β) (made spare : Nat) (s : σ) :
    Run α σ β :=
  let a := task s
  match a.outcome with
  | .ok value =>
    let told := if made = 0 then [] else [.recovered (made + 1)]
    ⟨.ok value, 1, a.notices ++ told, a.after⟩
  | .error f =>
    if p.mends f.kind then
      match spare with
      | 0 => ⟨.error f, 1, a.notices ++ [.exhausted f], a.after⟩
      | spare + 1 =>
        match Seconds.delay p.backoff made with
        | .error beyond => ⟨.error beyond, 1, a.notices, a.after⟩
        | .ok delay =>
          let rest := p.runFrom task (made + 1) spare a.after
          { rest with
            attempts := rest.attempts + 1
            notices := a.notices ++ .retrying (made + 1) f delay :: rest.notices }
    else ⟨.error f, 1, a.notices, a.after⟩

/-- Attempts a task as the policy says. -/
def Policy.run (p : Policy α) (task : σ → Attempt α σ β) (s : σ) : Run α σ β :=
  p.runFrom task 0 (p.attempts - 1) s

end SpecTree.Retry
