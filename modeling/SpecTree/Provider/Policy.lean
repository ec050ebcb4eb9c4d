import SpecTree.Provider.Answer
import SpecTree.Resilience.Notice

/-!
# Providers and how they are called

A provider answers two kinds of requests. A call policy bounds how long one attempt may take and
how often a call is attempted; what the caller sees is the last outcome.
-/

namespace SpecTree

/-- How a call ends, if it does. -/
inductive Ending (β : Type) where
  | answered (value : β)
  | failed (failure : Failure)
  /-- The provider never answers. -/
  | silent

/-- A provider whose answers depend on a state that each call may change. -/
structure Provider (σ : Type) where
  name : String
  compile : Request → σ → Ending Expansion × σ
  generate : Request → σ → Ending Production × σ
  /-- Whether the provider can be reached. -/
  isReachable : σ → Ending Bool × σ

/-- How calls are made; waiting times are of type `α`. -/
structure CallPolicy (α : Type) where
  /-- The time of one attempt, in seconds. -/
  timeout : Number
  /-- How often a call is attempted; once in any case. -/
  attempts : Int
  /-- The waiting time after the first attempt, in seconds. -/
  baseDelay : α

namespace CallPolicy

variable {α σ β : Type} [Retry.Seconds α]

/-- The failures that another attempt may mend: those of the provider and of the system. -/
def mends (kind : FailureKind) : Bool := kind.isA .provider || kind.isA .system

/-- Waiting times double, up to a minute. -/
def retry (p : CallPolicy α) : Retry.Policy α :=
  ⟨p.attempts, ⟨p.baseDelay, Retry.Seconds.ofNat 2, Retry.Seconds.ofNat 60⟩, mends⟩

/-- One attempt under a time limit. A limit of zero leaves no time to begin. -/
def attempt (p : CallPolicy α) (task : σ → Ending β × σ) (s : σ) : Retry.Attempt α σ β :=
  let expired (message : String) (after : σ) : Retry.Attempt α σ β :=
    { outcome := .error ⟨.timeout, message⟩, notices := [.timedOut], after }
  if 0 < p.timeout then
    match task s with
    | (.answered value, after) => { outcome := .ok value, after }
    | (.failed f, after) =>
      if f.kind == .timeout then expired f.message after else { outcome := .error f, after }
    | (.silent, after) => expired "" after
  else expired "" s

/-- What a caller is told of a failure: a timeout is a failure of the provider. -/
def report (subject : Retry.Subject) (f : Failure) : Failure :=
  if f.kind == .timeout then ⟨.provider, subject.timeoutMessage⟩ else f

/-- A call of an operation of a provider. -/
def call (p : CallPolicy α) (subject : Retry.Subject) (task : σ → Ending β × σ) (s : σ) :
    Retry.Run α σ β :=
  let run := p.retry.run (p.attempt task) s
  { run with outcome := run.outcome.mapError (report subject) }

/-- The operation of a provider as the log names it. -/
def subject (p : CallPolicy α) (provider operation : String) : Retry.Subject :=
  ⟨provider ++ "." ++ operation, p.retry.attempts, p.timeout⟩

end CallPolicy

end SpecTree
