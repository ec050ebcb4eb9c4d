import SpecTree.Json.Value
import SpecTree.Metrics.Basic

/-!
# Metrics as JSON

The summary of a run. An error and latencies are told only if there are any.
-/

namespace SpecTree.Metrics

def Latency.toJson (l : Latency) : Json :=
  .obj [("count", .int l.count), ("min_ms", .float l.least), ("max_ms", .float l.greatest),
    ("avg_ms", .float l.mean)]

/-- How often each operation was called. -/
def callsJson (m : Metrics) : Json :=
  .obj (m.callCounts.map fun (operation, count) => (operation, .int count))

/-- What was counted. -/
def counts (m : Metrics) : List (String × Json) :=
  [("nodes_compiled", .int m.nodes), ("leaves", .int m.leaves), ("cache_hits", .int m.cacheHits),
   ("files_written", .int m.files), ("provider_calls", m.callsJson),
   ("provider_failures", .int m.failures)]

/-- How the run stands. -/
def standing (m : Metrics) : List (String × Json) :=
  let error := m.error.getD ""
  [("phase", .str m.phase), ("status", .str m.status)]
    ++ (if error.isEmpty then [] else [("error_message", .str error)])

/-- The latencies of each operation. -/
def latencyMembers (m : Metrics) : List (String × Json) :=
  m.latencies.entries.map fun (operation, times) => (operation, (latency times).toJson)

def times (m : Metrics) : List (String × Json) :=
  let instant (t : Option Instant) : Json := t.elim .null fun t => .str t.text
  [("start_time", instant m.started), ("end_time", instant m.ended),
   ("duration_ms", m.duration.elim .null Json.int)]

def summary (m : Metrics) : Json :=
  .obj (("run_id", .str m.run) :: m.standing ++ m.times ++ m.counts
    ++ (if m.latencies.isEmpty then [] else [("provider_latencies", .obj m.latencyMembers)]))

end SpecTree.Metrics
