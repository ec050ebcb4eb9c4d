import SpecTree.Decimal.Fixed
import SpecTree.Decimal.Number
import SpecTree.Json.Value
import SpecTree.Log.Level

/-!
# Structured log records

A record has a level, a message and fields. A few fields are known to every reader and stand
beside the message; all others are gathered under one name. Names that a record has anyway cannot
be given as fields, and what is told of a node or an error is told once.
-/

namespace SpecTree.Log

/-- Names that every record has. -/
def ownNames : List String :=
  ["name", "msg", "args", "levelname", "levelno", "pathname", "filename", "module", "exc_info",
   "exc_text", "stack_info", "lineno", "funcName", "created", "msecs", "relativeCreated", "thread",
   "threadName", "processName", "process", "message", "asctime"]

/-- Fields that no reader is shown. -/
def hiddenNames : List String := ["taskName"]

/-- Fields that stand beside the message. -/
def knownNames : List String := ["run_id", "node_path", "phase"]

/-- An error as a record tells it. -/
structure Trouble where
  kind : String
  message : String

structure Record where
  line : Line
  fields : Table Json := {}
  trouble : Option Trouble := none

/-- Why a record is not written. -/
inductive Refusal where
  /-- A field takes a name that every record has. -/
  | ownName
  /-- A detail has the name of something that is told anyway. -/
  | toldTwice
  /-- The name of its level is the name of none. -/
  | noLevel
  deriving Repr, DecidableEq

/-- Details beside things that are told anyway. -/
def details (told : List String) (fields : List (String × Json)) :
    Except Refusal (List (String × Json)) :=
  if fields.any fun f => told.contains f.1 then .error .toldTwice else .ok fields

namespace Record

/-- A record without fields under names of its own. -/
def checked (r : Record) : Except Refusal Record :=
  if r.fields.names.any ownNames.contains then .error .ownName else .ok r

def known (r : Record) : List (String × Json) :=
  knownNames.filterMap fun name => (r.fields.get? name).map (name, ·)

def others (r : Record) : List (String × Json) :=
  r.fields.entries.filter fun (name, _) => !(knownNames ++ hiddenNames).contains name

def toJson (r : Record) : Json :=
  let gathered := if r.others.isEmpty then [] else [("context", Json.obj r.others)]
  let trouble :=
    match r.trouble with
    | some t => [("error", Json.obj [("type", .str t.kind), ("message", .str t.message)])]
    | none => []
  .obj ([("level", .str r.line.level.name), ("message", .str r.line.message)]
    ++ r.known ++ gathered ++ trouble)

end Record

/-- The line about how many of some items an operation has done. -/
def tallyLine (operation : String) (total successful : Int) : Line :=
  let share := toString successful ++ "/" ++ toString total
  if 0 < total - successful then
    ⟨.warning, "Partial failure in " ++ operation ++ ": " ++ share ++ " succeeded, "
      ++ toString (total - successful) ++ " failed"⟩
  else ⟨.info, operation ++ " completed successfully: " ++ share⟩

/-- A log to which every record goes with some fields of its own. -/
structure Logger where
  context : Table Json := {}

namespace Logger

/-- The log itself has a name. -/
def named (context : List (String × Json)) : Except Refusal Logger :=
  (details ["name"] context).map fun fields => ⟨.ofList fields⟩

/-- Fields on top of others; a field given again keeps its place. -/
def extend (fields : Table Json) (more : List (String × Json)) : Table Json :=
  more.foldl (fun t f => t.put f.1 f.2) fields

/-- The log with more fields for every record. -/
def withContext (l : Logger) (more : List (String × Json)) : Except Refusal Logger :=
  (details ["self"] more).map fun more => ⟨extend l.context more⟩

def record (l : Logger) (level : Level) (message : String) (fields : List (String × Json))
    (trouble : Option Trouble := none) : Except Refusal Record :=
  Record.checked ⟨⟨level, message⟩, extend l.context fields, trouble⟩

/-- The level from which on records are written. -/
def threshold : Level := .debug

/-- A record of a level that is given by name, if the level is written at all. -/
def log (l : Logger) (level message : String) (fields : List (String × Json)) :
    Except Refusal (Option Record) :=
  match Level.ofName? level with
  | none => .error .noLevel
  | some level =>
    if level.severity < threshold.severity then .ok none
    else (l.record level message fields).map some

/-- A node's change of state. -/
def transition (l : Logger) (node state : String) (more : List (String × Json)) :
    Except Refusal Record := do
  let more ← details ["logger", "node_path", "state"] more
  l.record .debug ("Node " ++ node ++ " -> " ++ state)
    ([("node_path", .str node), ("state", .str state)] ++ more)

/-- A duration to two places; a whole one stays whole. -/
def duration : Number → Json
  | .whole n => .int n
  | .fractional x => .float (Decimal.roundTo 2 x)

/-- A call of a provider, and its error if it failed. -/
def providerCall (l : Logger) (provider operation node : String) (millis : Option Number)
    (error : Option String) : Except Refusal Record :=
  let fields :=
    [("provider", Json.str provider), ("operation", .str operation), ("node_path", .str node)]
      ++ (millis.map fun d => ("duration_ms", duration d)).toList
      ++ (error.map fun e => ("error", Json.str e)).toList
  let call := provider ++ "." ++ operation ++ " " ++ node
  if error.isSome then l.record .error ("Provider call failed: " ++ call) fields
  else l.record .info ("Provider call: " ++ call) fields

/-- An error with its kind and text. -/
def trouble (l : Logger) (message : String) (t : Trouble) (more : List (String × Json)) :
    Except Refusal Record := do
  let more ← details ["logger", "message", "error"] more
  l.record .error message (("error_type", .str t.kind) :: more) (some t)

/-- How many of some items an operation has done; the first ten errors are told. -/
def tally (l : Logger) (operation : String) (total successful : Int) (errors : List Json)
    (context : Json) : Except Refusal Record :=
  let line := tallyLine operation total successful
  let failed := total - successful
  let shortfall :=
    if 0 < failed then
      [("successful_items", Json.int successful), ("failed_items", .int failed),
       ("errors", .arr (errors.take 10))]
    else []
  l.record line.level line.message
    ([("operation", .str operation), ("total_items", .int total)] ++ shortfall
      ++ [("context", context)])

end Logger

end SpecTree.Log
