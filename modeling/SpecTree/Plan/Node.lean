import SpecTree.Context.Changes
import SpecTree.Plan.Difference
import SpecTree.Provider.Failure
import SpecTree.Spec.Printer
import SpecTree.Spec.Statement
import SpecTree.Text.Blank
import SpecTree.Text.Lowercase

/-!
# Compiling one node

A node is examined first: its record may be used again, or it is a leaf from the start, or a
provider has to be asked. In the last two cases the old artifacts of the node and of all nodes
below it go away and the spec is written; the outcome then decides what else is written.

Failures to write are told in the result; other failures end the compilation.
-/

namespace SpecTree.Plan

/-! ## Which nodes are leaves from the start

A node whose spec marks it as a leaf, or whose spec is short and without blocks, is not broken
down.
-/

/-- Specs below this length are small unless a project says otherwise. -/
def defaultThreshold : Int := 100

/-- Short, and without any block. -/
def isSmall (threshold : Int) (spec : String) : Bool :=
  (spec.length : Int) < threshold && !spec.contains '{'

/-- Values of the `leaf` parameter that do not make a node a leaf. -/
def falseWords : List String := ["false", "0", "no", "off"]

/-- Marked as a leaf by its own parameter. -/
def isMarkedLeaf (n : Spec.Node) : Bool :=
  match n.param? "leaf" with
  | some value => !falseWords.contains (Text.lower (Text.strip value))
  | none => false

/-! ## Compiling -/

open Spec

/-- The stages that a node goes through. -/
inductive Stage where
  | pending
  | specSerialized
  | providerInvoked
  | leaf
  | branch
  | contextWritten
  | terminal
  deriving Repr, DecidableEq

def Stage.name : Stage → String
  | .pending => "pending"
  | .specSerialized => "spec_serialized"
  | .providerInvoked => "provider_invoked"
  | .leaf => "leaf"
  | .branch => "branch"
  | .contextWritten => "context_written"
  | .terminal => "terminal"

/-- What became of a node's record. -/
inductive CacheStatus where
  | compared (reason : Reason)
  /-- No further provider call was allowed. -/
  | noCallLeft
  deriving Repr, DecidableEq

def CacheStatus.message : CacheStatus → String
  | .compared reason => reason.message
  | .noCallLeft => "Skipped: provider call budget exhausted"

/-- The outcome of compiling one node. -/
structure NodeResult where
  nodePath : String
  ancestry : List String
  isLeaf : Bool := true
  children : List ChildSpec := []
  questions : List Question := []
  considerations : List Consideration := []
  errors : List String := []
  /-- The stages in the order in which they were reached. -/
  stages : List Stage := []
  providerCalled : Bool := false
  cacheHit : Bool := false
  skipped : Bool := false
  cacheStatus : Option CacheStatus := none
  deriving DecidableEq

def NodeResult.stage (r : NodeResult) : Stage := r.stages.getLast?.getD .pending

/-- A node that is to be compiled, with what its parent says about it. -/
structure Visit where
  node : Node
  ancestry : List String
  context : Context := {}
  markedLeaf : Bool := false

namespace Visit

def path (v : Visit) : String := nodePath v.ancestry

/-- The text that is compiled, kept and hashed. -/
def spec (v : Visit) : String := v.node.renderBody

def request (v : Visit) : Request := ⟨v.path, v.spec, v.context⟩

/-- Marked as a leaf by the parent or by the spec itself. -/
def isMarked (v : Visit) : Bool := v.markedLeaf || isMarkedLeaf v.node

/-- A leaf without asking a provider. -/
def isPlainLeaf (smallSpec : Int) (v : Visit) : Bool :=
  v.isMarked || (!v.node.hasNestedModules && isSmall smallSpec v.spec)

def result (v : Visit) : NodeResult :=
  { nodePath := v.path, ancestry := v.ancestry, stages := [.pending, .specSerialized] }

/-- The result of a node whose record is used again. -/
def reuse (v : Visit) (r : Record) (reason : Reason) : NodeResult :=
  { v.result with
    isLeaf := r.isLeaf
    children := r.children
    cacheHit := true
    cacheStatus := some (.compared reason)
    stages := v.result.stages ++ [if r.isLeaf then .leaf else .branch, .terminal] }

/-- The result of a node that no provider may be asked about. -/
def skip (v : Visit) : NodeResult :=
  { v.result with skipped := true, cacheStatus := some .noCallLeft }

def skipLine (v : Visit) : Log.Line :=
  ⟨.warning, "Skipping " ++ v.path ++ ": provider call budget exhausted"⟩

end Visit

/-! ## Examining -/

/-- How a node is compiled by default, and under which digest of texts. -/
structure NodePolicy where
  /-- The length from which a spec is no longer small. -/
  smallSpec : Int := defaultThreshold
  useCache : Bool := true
  digest : String → String
  /-- The time stamp of records. -/
  stamp : String

/-- What has to be done about a node. -/
inductive Judgement where
  | reuse (record : Record)
  | keepLeaf
  | ask
  deriving DecidableEq

def judge (p : NodePolicy) (v : Visit) (d : Difference) : Judgement :=
  match (if p.useCache then d.reusable? else none) with
  | some r => .reuse r
  | none => if v.isPlainLeaf p.smallSpec then .keepLeaf else .ask

/-- Compares a node with its record. -/
def examine (p : NodePolicy) (s : Store) (directory : String) (v : Visit) :
    Except FileError (Difference × List Log.Line) :=
  difference p.digest s directory v.path v.spec v.context

/-! ## Compiling -/

/-- A node on its way: its old artifacts are gone and its spec is written. -/
structure Draft where
  visit : Visit
  difference : Difference
  errors : List String := []
  lines : List Log.Line := []

namespace Draft

/-- Notes that an artifact could not be written; a failure of another kind stays one. -/
def note (d : Draft) (what : String) (failure : Option FileError) : Except FileError Draft :=
  match failure with
  | none => .ok d
  | some e =>
    if e.isSystem then
      let message := "Failed to write " ++ what ++ " for " ++ d.visit.path ++ ": " ++ e.message
      .ok { d with errors := d.errors ++ [message], lines := d.lines ++ [⟨.error, message⟩] }
    else .error e

end Draft

/-- Removes what was there before and writes the spec. -/
def prepare (s : Store) (directory : String) (v : Visit) (d : Difference) :
    Except FileError (Store × Draft) :=
  let (s, failure) := invalidate s directory v.path
  let complaint (e : FileError) : List String :=
    ["Failed to invalidate previous artifacts for " ++ v.path ++ ": " ++ e.message]
  let draft : Draft := { visit := v, difference := d, errors := (failure.map complaint).getD [] }
  let (s, failure) := writeSpec s directory v.path v.spec
  (draft.note "spec artifact" failure).map (s, ·)

/-- What is known about a node when its last artifacts are written. -/
structure Outcome where
  expansion : Expansion := {}
  /-- The failure of the provider. -/
  failure : Option Failure := none
  asked : Bool := true

namespace Outcome

/-- No provider was asked. -/
def plain : Outcome := { asked := false }

def ofReply : Except Failure Expansion → Outcome
  | .ok expansion => { expansion }
  | .error f => { failure := some f }

def isLeaf (o : Outcome) : Bool := o.expansion.children.isEmpty

def stages (o : Outcome) : List Stage :=
  (if o.asked then [.providerInvoked] else [])
    ++ [if o.isLeaf then .leaf else .branch, .contextWritten, .terminal]

def errors (o : Outcome) (path : String) : List String :=
  match o.failure with
  | some f => ["Provider compilation failed for " ++ path ++ ": " ++ f.message]
  | none => []

end Outcome

namespace Draft

/-- The record that a node leaves. -/
def record (d : Draft) (stamp : String) (o : Outcome) : Record where
  nodePath := d.visit.path
  specHash := d.difference.specHash
  contextHash := d.difference.contextHash
  isLeaf := o.isLeaf
  context := d.visit.context
  children := o.expansion.children
  interfaces := o.expansion.interfaces
  constraints := o.expansion.constraints
  suggestions := o.expansion.suggestions
  utilities := o.expansion.utilities
  compiledAt := stamp

def questionnaire (d : Draft) (o : Outcome) : Questionnaire :=
  ⟨d.visit.ancestry.getLast?.getD d.visit.path, o.expansion.questions, o.expansion.considerations⟩

/-- Writes the artifacts that the outcome calls for: the context of a leaf, questions if there are
any, and a record unless the provider failed. -/
def writeRest (d : Draft) (stamp : String) (s : Store) (directory : String) (o : Outcome) :
    Except FileError (Store × Draft) := do
  let path := d.visit.path
  let (s, d) ←
    if o.isLeaf then
      let (s, failure) := writeContext s directory path d.visit.context
      (d.note "context artifact" failure).map (s, ·)
    else .ok (s, d)
  let q := d.questionnaire o
  let (s, d) ←
    if q.questions.isEmpty && q.considerations.isEmpty then .ok (s, d)
    else
      let (s, failure) := writeQuestions s directory path q
      (d.note "questions artifact" failure).map (s, ·)
  if o.failure.isSome then .ok (s, d)
  else
    let (s, failure) := writeRecord s directory path (d.record stamp o)
    (d.note "meta artifact" failure).map (s, ·)

def result (d : Draft) (o : Outcome) : NodeResult :=
  { d.visit.result with
    isLeaf := o.isLeaf
    children := o.expansion.children
    questions := o.expansion.questions
    considerations := o.expansion.considerations
    errors := d.errors
    stages := d.visit.result.stages ++ o.stages
    providerCalled := o.asked
    cacheStatus := some (.compared d.difference.reason) }

/-- Ends the compilation of a node. -/
def finish (d : Draft) (stamp : String) (s : Store) (directory : String) (o : Outcome) :
    Except FileError (Store × NodeResult × List Log.Line) := do
  let d := { d with errors := d.errors ++ o.errors d.visit.path }
  let (s, d) ← d.writeRest stamp s directory o
  return (s, d.result o, d.lines)

end Draft

/-- Compiles one node from start to end; `mayAsk` tells whether the provider may be asked. -/
def compileNode (p : NodePolicy) (s : Store) (directory : String) (v : Visit) (mayAsk : Bool)
    (provider : Request → Except Failure Expansion) : Except FileError (Store × NodeResult) := do
  let (d, _) ← examine p s directory v
  let complete (s : Store) (o : Outcome) : Except FileError (Store × NodeResult) := do
    let (s, draft) ← prepare s directory v d
    let (s, result, _) ← draft.finish p.stamp s directory o
    return (s, result)
  match judge p v d with
  | .reuse r => return (s, v.reuse r d.reason)
  | .keepLeaf => complete s .plain
  | .ask => if mayAsk then complete s (.ofReply (provider v.request)) else return (s, v.skip)

end SpecTree.Plan
