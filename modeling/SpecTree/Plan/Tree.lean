import SpecTree.Metrics.Basic
import SpecTree.Plan.Child
import SpecTree.Plan.Node

/-!
# Compiling a tree

Nodes are compiled from the root down: what a node is broken down into is known only when it is
compiled. Siblings overlap. The machine has three moves:

1. `start` takes a task that is ready. A visit admits its node or not, and goes on until the node is
   compiled or waits for a provider call. The other tasks bring the end of a node to its parent,
   which goes on when all its children have ended, and then tells of those that were given up;
2. `grant` sends a call that waits, while fewer than the allowed number are in flight;
3. `finish` ends a call in flight with the provider's reply; the node's children become ready.

Two ceilings, on nodes and on calls, stop further nodes and calls once one of them is reached;
calls in flight still end. A run makes moves, in any order, until nothing is left to do.
-/

namespace SpecTree.Plan

open Spec

inductive Ceiling where
  | nodes
  | calls
  deriving Repr, DecidableEq

def Ceiling.name : Ceiling → String
  | .nodes => "nodes"
  | .calls => "calls"

/-- How a tree is compiled. -/
structure TreePolicy where
  directory : String
  maxNodes : Int := 100
  maxCalls : Int := 100
  concurrency : Int := 5
  node : NodePolicy
  /-- The name of the provider. -/
  provider : String

namespace TreePolicy

/-- The calls that may be in flight at once; there is room for one at least. -/
def slots (p : TreePolicy) : Nat := max 1 p.concurrency.toNat

end TreePolicy

/-- The children of a node, each by its ancestry, while one of them has not ended. -/
structure Family where
  parent : List String
  children : List (List String)
  /-- Those whose end the parent has not noticed. -/
  awaited : List (List String)

inductive Task where
  /-- A node whose parent is compiled. -/
  | visit (v : Visit)
  /-- A node that has ended, and with it all below it. -/
  | notice (node : List String)
  /-- A parent that goes on. -/
  | resume (family : Family)

/-- A compilation under way. -/
structure TreeState where
  store : Store
  ready : List Task := []
  families : List Family := []
  /-- Nodes that are allowed a call and wait for a slot. -/
  waiting : List Draft := []
  inFlight : List Draft := []
  /-- Nodes admitted and not skipped. -/
  visited : Nat := 0
  /-- Calls allowed. -/
  calls : Nat := 0
  exceeded : Option Ceiling := none
  results : List NodeResult := []
  skipped : List String := []
  /-- Nodes given up, with the failures that ended their compilation. -/
  failures : List (Visit × FileError) := []
  /-- The failures that parents have told of. -/
  errors : List String := []
  requests : List Request := []
  /-- The most calls that were in flight at once. -/
  peak : Nat := 0
  metrics : Metrics
  lines : List Log.Line := []

/-- One move of a run; tasks and calls are counted from the front of their queues. -/
inductive Move where
  | start (i : Nat)
  | grant (i : Nat)
  | finish (i : Nat) (reply : Except Failure Expansion)

namespace TreeState

/-- The children of a compiled node as visits, under safe and distinct names; a leaf has none. -/
def visitsBelow (r : NodeResult) : List Visit :=
  let names := distinctNames (r.children.map ChildSpec.name)
  let visits := (r.children.zip names).map fun (child, name) =>
    let ancestry := childAncestry r.ancestry name
    ⟨.statement (childNode child name (nodePath ancestry)), ancestry, child.context, child.isLeaf⟩
  if r.isLeaf then [] else visits

def tell (s : TreeState) (lines : List Log.Line) : TreeState :=
  { s with lines := s.lines ++ lines }

def limitLine (noun : String) (limit : Int) : Log.Line :=
  ⟨.warning, noun ++ " limit reached (" ++ toString limit ++ "); no new nodes will be scheduled"⟩

/-- Passes a ceiling, unless one has been passed before. -/
def exceed (s : TreeState) (c : Ceiling) (line : Log.Line) : TreeState :=
  if s.exceeded.isSome then s else ({ s with exceeded := some c }).tell [line]

def await (s : TreeState) (task : Task) : TreeState := { s with ready := s.ready ++ [task] }

/-- The children of a node become ready; a node without any has ended. -/
def branch (s : TreeState) (parent : List String) (children : List Visit) : TreeState :=
  let names := children.map Visit.ancestry
  if children.isEmpty then s.await (.notice parent)
  else
    { s with
      families := ⟨parent, names, names⟩ :: s.families
      ready := s.ready ++ children.map .visit }

/-- Keeps the result of a compiled node. -/
def record (s : TreeState) (r : NodeResult) : TreeState :=
  { s with
    results := s.results ++ [r]
    metrics := s.metrics.countNode r.isLeaf r.cacheHit }.branch r.ancestry (visitsBelow r)

/-- Gives a node up. -/
def abandon (s : TreeState) (v : Visit) (e : FileError) : TreeState :=
  { s with failures := s.failures ++ [(v, e)] }.await (.notice v.ancestry)

def skip (s : TreeState) (v : Visit) : TreeState :=
  { s with skipped := s.skipped ++ [v.path] }.await (.notice v.ancestry)

/-- Brings the end of a node to its parent. The root has no parent. -/
def notice (s : TreeState) (node : List String) : TreeState :=
  match s.families.find? (·.parent == node.dropLast) with
  | none => s
  | some family =>
    let others := s.families.eraseP (·.parent == node.dropLast)
    let awaited := family.awaited.erase node
    if awaited.isEmpty then { s with families := others }.await (.resume family)
    else { s with families := { family with awaited } :: others }

/-- What is told of the children that were given up, in the order of the children. -/
def failureMessages (s : TreeState) (family : Family) : List String :=
  family.children.filterMap fun child =>
    (s.failures.find? (·.1.ancestry == child)).map fun (v, e) =>
      "Unexpected error compiling " ++ v.path ++ ": " ++ e.message

/-- A parent goes on: it tells of the children that were given up, and has ended. -/
def resume (s : TreeState) (family : Family) : TreeState :=
  let messages := s.failureMessages family
  ({ s with errors := s.errors ++ messages }.tell (messages.map (⟨.error, ·⟩))).await
    (.notice family.parent)

/-- Ends the compilation of a node whose spec is written. -/
def conclude (s : TreeState) (p : TreePolicy) (d : Draft) (o : Outcome) : TreeState :=
  match d.finish p.node.stamp s.store p.directory o with
  | .error e => s.abandon d.visit e
  | .ok (store, result, lines) => (({ s with store }).tell lines).record result

/-- Removes and writes what comes before the outcome of a node. -/
def prepareNode (s : TreeState) (p : TreePolicy) (v : Visit) (d : Difference) :
    TreeState × Option Draft :=
  match prepare s.store p.directory v d with
  | .error e => (s.abandon v e, none)
  | .ok (store, draft) => (({ s with store }).tell draft.lines, some { draft with lines := [] })

/-- Keeps a node as a leaf without asking. -/
def keepLeaf (s : TreeState) (p : TreePolicy) (v : Visit) (d : Difference) : TreeState :=
  match s.prepareNode p v d with
  | (s, none) => s
  | (s, some draft) => s.conclude p draft .plain

/-- Passes the ceiling on calls if no call is left. -/
def checkCalls (s : TreeState) (p : TreePolicy) : TreeState :=
  if p.maxCalls ≤ s.calls then s.exceed .calls (limitLine "Provider call" p.maxCalls) else s

/-- Takes the admission of a node back. -/
def withdraw (s : TreeState) (v : Visit) : TreeState :=
  ({ s with visited := s.visited - 1 }.tell [v.skipLine]).skip v

/-- Lets a node wait for a call, or skips it if no call is left. -/
def ask (s : TreeState) (p : TreePolicy) (v : Visit) (d : Difference) : TreeState :=
  let s := s.checkCalls p
  if s.exceeded.isSome then s.withdraw v
  else
    match { s with calls := s.calls + 1 }.prepareNode p v d with
    | (s, none) => s
    | (s, some draft) => { s with waiting := s.waiting ++ [draft] }

/-- Compiles a node that has been admitted, as far as that goes without a reply. -/
def compile (s : TreeState) (p : TreePolicy) (v : Visit) : TreeState :=
  match examine p.node s.store p.directory v with
  | .error e => s.abandon v e
  | .ok (d, lines) =>
    match judge p.node v d with
    | .reuse r => (s.tell lines).record (v.reuse r d.reason)
    | .keepLeaf => (s.tell lines).keepLeaf p v d
    | .ask => (s.tell lines).ask p v d

/-- Passes the ceiling on nodes if no node may be admitted. -/
def checkNodes (s : TreeState) (p : TreePolicy) : TreeState :=
  if p.maxNodes ≤ s.visited then s.exceed .nodes (limitLine "Node" p.maxNodes) else s

/-- Admits a node, or skips it once a ceiling is reached. -/
def visit (s : TreeState) (p : TreePolicy) (v : Visit) : TreeState :=
  let s := s.checkNodes p
  if s.exceeded.isSome then s.skip v
  else ({ s with visited := s.visited + 1 }).compile p v

/-- Carries a task out. -/
def start (s : TreeState) (p : TreePolicy) : Task → TreeState
  | .visit v => s.visit p v
  | .notice node => s.notice node
  | .resume family => s.resume family

/-- Sends a call. -/
def send (s : TreeState) (d : Draft) : TreeState :=
  { s with
    inFlight := s.inFlight ++ [d]
    requests := s.requests ++ [d.visit.request]
    peak := max s.peak (s.inFlight.length + 1) }

/-- Takes a reply. -/
def receive (s : TreeState) (p : TreePolicy) (d : Draft) (reply : Except Failure Expansion) :
    TreeState :=
  let failed := reply matches .error _
  let s := { s with metrics := s.metrics.countCall "compile" 0 failed }
  (s.tell [Metrics.callLine p.provider "compile" d.visit.path failed]).conclude p d (.ofReply reply)

/-- One move; a move that is not possible changes nothing. -/
def step (p : TreePolicy) (s : TreeState) : Move → TreeState
  | .start i =>
    match s.ready[i]? with
    | some task => { s with ready := s.ready.eraseIdx i }.start p task
    | none => s
  | .grant i =>
    match s.waiting[i]? with
    | some d =>
      if s.inFlight.length < p.slots then { s with waiting := s.waiting.eraseIdx i }.send d else s
    | none => s
  | .finish i reply =>
    match s.inFlight[i]? with
    | some d => { s with inFlight := s.inFlight.eraseIdx i }.receive p d reply
    | none => s

/-- Moves one after another. -/
def run (p : TreePolicy) (s : TreeState) (moves : List Move) : TreeState := moves.foldl (step p) s

/-- Whether there is nothing left to do. -/
def isDone (s : TreeState) : Bool := s.ready.isEmpty && s.waiting.isEmpty && s.inFlight.isEmpty

/-- Before the first move: the root is to be visited. -/
def initial (store : Store) (root : Document) (metrics : Metrics) : TreeState :=
  { store, metrics, ready := [.visit { node := .document root, ancestry := [rootName] }] }

end TreeState

end SpecTree.Plan
