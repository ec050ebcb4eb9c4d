import SpecTree.Decimal.Fixed
import SpecTree.Decimal.Number
import SpecTree.Log.Level
import SpecTree.Resilience.Retry

/-!
# Telling about retries

The log lines of a run of attempts at a named task.
-/

namespace SpecTree.Retry

/-- The task that a notice is about. -/
structure Subject where
  name : String
  /-- How often it may be attempted. -/
  attempts : Nat
  /-- How long one attempt may take, in seconds. -/
  timeout : Number

/-- How long an attempt took at least when it was given up. -/
def Subject.timeoutMessage (s : Subject) : String :=
  s.name ++ " timed out after " ++ s.timeout.text ++ "s"

def Notice.line (s : Subject) : Notice Number → Log.Line
  | .timedOut => ⟨.warning, s.timeoutMessage⟩
  | .retrying attempt failure delay =>
    ⟨.warning, s.name ++ " failed on attempt " ++ toString attempt ++ "/" ++ toString s.attempts
      ++ ": " ++ failure.message ++ ". Retrying in " ++ Decimal.fixedText 1 delay.toFloat ++ "s..."⟩
  | .recovered attempt =>
    ⟨.info, s.name ++ " succeeded on attempt " ++ toString attempt ++ "/" ++ toString s.attempts⟩
  | .exhausted failure =>
    ⟨.error, s.name ++ " failed after " ++ toString s.attempts ++ " attempts: " ++ failure.message⟩

end SpecTree.Retry
