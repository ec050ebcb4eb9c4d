import SpecTree.Text.Quoted

/-!
# Log levels

Levels are ordered by severity; a reader may ask for all lines of some severity and above.
-/

namespace SpecTree.Log

inductive Level where
  /-- No level: everything passes. -/
  | unset
  | debug
  | info
  | warning
  | error
  | critical
  deriving Repr, DecidableEq

namespace Level

def severity : Level → Nat
  | .unset => 0
  | .debug => 10
  | .info => 20
  | .warning => 30
  | .error => 40
  | .critical => 50

def name : Level → String
  | .unset => "NOTSET"
  | .debug => "DEBUG"
  | .info => "INFO"
  | .warning => "WARNING"
  | .error => "ERROR"
  | .critical => "CRITICAL"

/-- The level of a name, which is written in capitals; two levels have a second name. -/
def ofName? : String → Option Level
  | "NOTSET" => some .unset
  | "DEBUG" => some .debug
  | "INFO" => some .info
  | "WARNING" | "WARN" => some .warning
  | "ERROR" => some .error
  | "CRITICAL" | "FATAL" => some .critical
  | _ => none

theorem ofName?_name (l : Level) : ofName? l.name = some l := by
  cases l <;> rfl

end Level

/-- What is said of a name that no level has. -/
def unknownLevel (name : String) : String := "Unknown level: " ++ Text.quoted name

/-- One line of a log. -/
structure Line where
  level : Level
  message : String
  deriving Repr, DecidableEq

/-- The lines of some severity and above. -/
def atLeast (level : Level) (lines : List Line) : List Line :=
  lines.filter fun l => level.severity ≤ l.level.severity

end SpecTree.Log
