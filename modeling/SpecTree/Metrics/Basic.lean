import SpecTree.Decimal.Fixed
import SpecTree.Log.Record
import SpecTree.Table
import SpecTree.Time.Instant

/-!
# Metrics of a run

What one compile or build run did: its times, the nodes, leaves and files it counted, and how long
every provider call took.
-/

namespace SpecTree

structure Metrics where
  run : String
  phase : String
  started : Option Instant := none
  ended : Option Instant := none
  /-- The milliseconds from start to end. -/
  duration : Option Int := none
  nodes : Nat := 0
  leaves : Nat := 0
  cacheHits : Nat := 0
  files : Int := 0
  /-- The milliseconds of every call, by operation. -/
  latencies : Table (List Float) := {}
  failures : Nat := 0
  status : String := "running"
  error : Option String := none

namespace Metrics

def start (m : Metrics) (now : Instant) : Metrics :=
  { m with started := some now, status := "running" }

def startLine (m : Metrics) : Log.Line :=
  ⟨.info, "Metrics collection started for " ++ m.phase ++ " run " ++ m.run⟩

def complete (m : Metrics) (status : String) (error : Option String) (now : Instant) : Metrics :=
  { m with
    ended := some now
    status
    error
    duration :=
      match m.started with
      | some start => some (start.millisTo now)
      | none => m.duration }

def completeLine (m : Metrics) : Log.Line :=
  ⟨.info, "Metrics collection completed for " ++ m.phase ++ " run " ++ m.run⟩

def countNode (m : Metrics) (isLeaf isHit : Bool) : Metrics :=
  { m with
    nodes := m.nodes + 1
    leaves := m.leaves + if isLeaf then 1 else 0
    cacheHits := m.cacheHits + if isHit then 1 else 0 }

def countFiles (m : Metrics) (count : Int) : Metrics := { m with files := m.files + count }

/-- Counts a provider call that took some milliseconds. -/
def countCall (m : Metrics) (operation : String) (millis : Float) (failed : Bool) : Metrics :=
  { m with
    latencies := m.latencies.put operation ((m.latencies.get? operation).getD [] ++ [millis])
    failures := m.failures + if failed then 1 else 0 }

/-- The calls of an operation. -/
def calls (m : Metrics) (operation : String) : Nat :=
  ((m.latencies.get? operation).getD []).length

/-- How often each operation was called. -/
def callCounts (m : Metrics) : List (String × Nat) :=
  m.latencies.entries.map fun (operation, times) => (operation, times.length)

/-- The latencies of one operation in short, rounded to two places. -/
structure Latency where
  count : Nat
  least : Float
  greatest : Float
  mean : Float

def latency (times : List Float) : Latency where
  count := times.length
  least := Decimal.roundTo 2 (times.foldl (fun a b => if b < a then b else a) (times.headD 0))
  greatest := Decimal.roundTo 2 (times.foldl (fun a b => if a < b then b else a) (times.headD 0))
  mean := Decimal.roundTo 2 (times.foldl (· + ·) 0 / times.length.toFloat)

/-- The line about a provider call. -/
def callLine (provider operation node : String) (failed : Bool) : Log.Line :=
  if failed then
    ⟨.error, "Provider call failed: " ++ provider ++ "." ++ operation ++ " " ++ node⟩
  else ⟨.info, "Provider call: " ++ provider ++ "." ++ operation ++ " " ++ node⟩

/-- The line about one measured value. -/
def metricLine (name : String) (tags : List (String × Json)) : Except Log.Refusal Log.Line :=
  (Log.details ["metric_name", "value"] tags).map fun _ => ⟨.info, "Metric: " ++ name⟩

end Metrics

end SpecTree
