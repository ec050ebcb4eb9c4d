import SpecTree.Json.Printer
import SpecTree.Json.Strict
import SpecTree.Log.Level
import SpecTree.Plan.Name
import SpecTree.Plan.Record
import SpecTree.Store.Basic

/-!
# Artifacts of a plan

A node's spec is kept as text, its context, questions and record as JSON. The context is written
for leaves only, so that its file marks a leaf. What cannot be read counts as missing.
-/

namespace SpecTree.Plan

/-! ## Writing -/

def writeSpec (s : Store) (directory node spec : String) : Store × Option FileError :=
  s.writeDeep (planPath directory node) (.text spec)

def contextText (c : Context) : String := c.toJson.dropNulls.pretty

def writeContext (s : Store) (directory node : String) (c : Context) : Store × Option FileError :=
  s.writeDeep (contextPath directory node) (.text (contextText c))

def questionsText (q : Questionnaire) : String := q.toJson.dropNulls.pretty

def writeQuestions (s : Store) (directory node : String) (q : Questionnaire) :
    Store × Option FileError :=
  s.writeDeep (questionsPath directory node) (.text (questionsText q))

def recordText (r : Record) : String := r.toJson.pretty

def writeRecord (s : Store) (directory node : String) (r : Record) : Store × Option FileError :=
  s.writeDeep (metaPath directory node) (.text (recordText r))

/-! ## Reading -/

/-- The spec of a node, if it is there. -/
def readSpec (s : Store) (directory node : String) : Except FileError (Option String) := do
  let path := planPath directory node
  if ← s.isFile path then return some (← s.readText path) else return none

/-- A warning about a file that does not hold what it should. -/
def unreadable (path reason : String) : Log.Line :=
  ⟨.warning, "Ignoring unreadable artifact " ++ path ++ ": " ++ reason⟩

/-- What a JSON file holds, if it is there and well-formed. -/
def readJson {α : Type} (value? : Json → Option α) (s : Store) (path : String) :
    Except FileError (Option α × List Log.Line) := do
  if ← s.isFile path then
    match s.readText path with
    | .ok text =>
      match (Json.readStored? text).bind value? with
      | some a => return (some a, [])
      | none => return (none, [unreadable path "the text does not have the expected form"])
    | .error e => if e.isSystem then throw e else return (none, [unreadable path e.message])
  else return (none, [])

def readContext (s : Store) (directory node : String) :
    Except FileError (Option Context × List Log.Line) :=
  readJson Context.ofJson? s (contextPath directory node)

def readQuestions (s : Store) (directory node : String) :
    Except FileError (Option Questionnaire × List Log.Line) :=
  readJson Questionnaire.ofJson? s (questionsPath directory node)

def readRecord (s : Store) (directory node : String) :
    Except FileError (Option Record × List Log.Line) :=
  readJson Record.ofJson? s (metaPath directory node)

/-! ## Removing -/

/-- Removes an entry of a directory with all that it holds. -/
def removeEntry (s : Store) (path : String) : Except FileError Store := do
  if ← s.isDirectory path then s.removeTree path else s.removeFile path

/-- Removes entries one after another, up to the first that resists. -/
def removeEntries (s : Store) : List String → Store × Option FileError
  | [] => (s, none)
  | path :: rest =>
    match removeEntry s path with
    | .ok s => removeEntries s rest
    | .error e => (s, some e)

/-- Removes the artifacts of a node and of all nodes below it; below the root lies everything. -/
def invalidate (s : Store) (directory node : String) : Store × Option FileError :=
  let inside := if node = rootName then directory else Path.assemble [directory, node]
  match s.isDirectory inside with
  | .error e => (s, some e)
  | .ok false => (s, none)
  | .ok true =>
    if node = rootName then
      match s.list directory with
      | .ok entries =>
        removeEntries s (entries.map fun (name, _) => Path.assemble [directory, name])
      | .error e => (s, some e)
    else
      match s.removeTree inside with
      | .ok s => (s, none)
      | .error e => (s, some e)

end SpecTree.Plan
