/-!
# Circuit breakers

A breaker stands in front of calls that may fail. Closed, it lets all calls pass and counts
failures; after too many it opens and refuses every call. When it has been open for longer than
its pause, it lets a bounded number of probes pass: enough successes close it, one failure opens
it again.

The times are of any type with a subtraction and an order, so that one clock serves the program
and another the theory.
-/

namespace SpecTree

namespace Breaker

inductive Mode where
  | closed
  | opened
  | probing
  deriving Repr, DecidableEq

def Mode.name : Mode → String
  | .closed => "closed"
  | .opened => "open"
  | .probing => "half_open"

/-- What a breaker goes by. -/
structure Config (τ : Type) where
  /-- Failures that open the breaker. -/
  threshold : Int
  /-- How long it stays open before it probes. -/
  pause : τ
  /-- Probes that are let through, and successes that close it. -/
  probes : Int
  deriving Repr

/-- Why a call was refused. -/
inductive Refusal (τ : Type) where
  | opened (pause : τ)
  | probesSpent
  deriving Repr, DecidableEq

def Refusal.message {τ : Type} (text : τ → String) : Refusal τ → String
  | .opened pause =>
    "Circuit breaker is OPEN. Provider unavailable. Will retry after " ++ text pause
      ++ "s timeout."
  | .probesSpent => "Circuit breaker is HALF_OPEN and max test calls reached"

end Breaker

open Breaker

/-- A breaker in some state. -/
structure Breaker (τ : Type) where
  config : Config τ
  mode : Mode := .closed
  failures : Nat := 0
  /-- Successes since probing began. -/
  successes : Nat := 0
  /-- Probes let through since probing began. -/
  probesMade : Nat := 0
  lastFailure : Option τ := none
  deriving Repr

namespace Breaker

variable {τ : Type}

/-- Closed, with nothing counted. -/
def reset (b : Breaker τ) : Breaker τ := { config := b.config }

/-- Whether the pause after the last failure is over. A failure at time zero counts as none. -/
def isRested [Sub τ] [LT τ] [DecidableLT τ] [Zero τ] (b : Breaker τ) (now : τ) : Bool :=
  match b.lastFailure with
  | some t => (decide (t < 0) || decide (0 < t)) && decide (b.config.pause < now - t)
  | none => false

/-- Lets a probe through, if any is left. -/
def probe (b : Breaker τ) : Except (Refusal τ × Breaker τ) (Breaker τ) :=
  if b.config.probes ≤ b.probesMade then .error (.probesSpent, b)
  else .ok { b with probesMade := b.probesMade + 1 }

/-- The breaker after asking for a call at time `now`: the call passes or is refused. Asking may
turn an open breaker to probing, also when it then refuses. -/
def ask [Sub τ] [LT τ] [DecidableLT τ] [Zero τ] (b : Breaker τ) (now : τ) :
    Except (Refusal τ × Breaker τ) (Breaker τ) :=
  match b.mode with
  | .closed => .ok b
  | .probing => b.probe
  | .opened =>
    if b.isRested now then { b with mode := .probing, probesMade := 0, successes := 0 }.probe
    else .error (.opened b.config.pause, b)

/-- The breaker after a call returned. -/
def succeed (b : Breaker τ) : Breaker τ :=
  match b.mode with
  | .probing =>
    if b.config.probes ≤ (b.successes + 1 : Nat) then b.reset
    else { b with successes := b.successes + 1 }
  | _ => { b with failures := 0 }

/-- The breaker after a call failed at time `now`. -/
def fail (b : Breaker τ) (now : τ) : Breaker τ :=
  let b := { b with failures := b.failures + 1, lastFailure := some now }
  match b.mode with
  | .probing => { b with mode := .opened, successes := 0, probesMade := 0 }
  | .closed =>
    if b.config.threshold ≤ b.failures then { b with mode := .opened, successes := 0 } else b
  | .opened => b

end Breaker

end SpecTree
