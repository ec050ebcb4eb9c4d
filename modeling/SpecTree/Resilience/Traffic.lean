import SpecTree.Resilience.Breaker

/-!
# Calls through a breaker

Calls overlap: each begins, stays in flight for some time and ends in its own way. A call that is
cancelled tells the breaker nothing.
-/

namespace SpecTree.Breaker

/-- How a call ends. -/
inductive Ending where
  | returned
  | failed
  | cancelled
  deriving Repr, DecidableEq

/-- What happens to a breaker; calls have numbers. -/
inductive Event (τ : Type) where
  | begin (call : Nat) (now : τ)
  | finish (call : Nat) (ending : Ending) (now : τ)
  | reset
  deriving Repr

/-- A breaker and the calls that it has let through and that have not ended. -/
structure Traffic (τ : Type) where
  breaker : Breaker τ
  inFlight : List Nat := []

variable {τ : Type}

def settle (b : Breaker τ) (ending : Ending) (now : τ) : Breaker τ :=
  match ending with
  | .returned => b.succeed
  | .failed => b.fail now
  | .cancelled => b

namespace Traffic

variable [Sub τ] [LT τ] [DecidableLT τ] [Zero τ]

/-- One event, and why a call was refused if it was. -/
def step (t : Traffic τ) : Event τ → Traffic τ × Option (Refusal τ)
  | .begin call now =>
    match t.breaker.ask now with
    | .ok b => (⟨b, call :: t.inFlight⟩, none)
    | .error (refusal, b) => ({ t with breaker := b }, some refusal)
  | .finish call ending now =>
    if call ∈ t.inFlight then (⟨t.breaker.settle ending now, t.inFlight.erase call⟩, none)
    else (t, none)
  | .reset => ({ t with breaker := t.breaker.reset }, none)

/-- Events one after another. -/
def run (t : Traffic τ) (events : List (Event τ)) : Traffic τ :=
  events.foldl (fun t e => (t.step e).1) t

end Traffic

end SpecTree.Breaker
