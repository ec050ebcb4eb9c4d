/-!
# Failures of provider calls

The kind says how a caller may react to a failure; the message is for readers.
-/

namespace SpecTree

inductive FailureKind where
  /-- The provider could not answer. -/
  | provider
  /-- The provider answered, but not in the agreed form. -/
  | response
  /-- The circuit breaker refused the call. -/
  | circuitOpen
  | timeout
  | system
  | service
  | value
  | runtime
  /-- A value of a kind that the program cannot go through. -/
  | shape
  /-- A number grew too large. -/
  | overflow
  deriving Repr, DecidableEq

structure Failure where
  kind : FailureKind
  message : String
  deriving Repr, DecidableEq

namespace FailureKind

/-- Whether a failure of this kind counts among those named by `other`: a malformed answer is a
provider failure, and a timeout is a system failure. -/
def isA (kind other : FailureKind) : Bool :=
  kind == other || (kind == .response && other == .provider)
    || (kind == .timeout && other == .system)

end FailureKind

end SpecTree
