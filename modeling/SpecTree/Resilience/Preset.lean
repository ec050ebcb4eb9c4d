import SpecTree.Provider.Policy
import SpecTree.Resilience.Breaker
import SpecTree.Settings.Coerce

/-!
# Usual breakers and policies

What breakers and policies go by if nothing else is said, and with values under option names in
place of that.
-/

namespace SpecTree

namespace Breaker.Config

/-- Five failures open it for a minute; three probes close it. -/
def usual : Config Number := ⟨5, .whole 60, 3⟩

/-- In front of a provider: three failures open it for half a minute; two probes close it. -/
def provider : Config Number := ⟨3, .whole 30, 2⟩

def under (options : Json) (c : Config Number) : Config Number where
  threshold := options.option "failure_threshold" Json.bound? c.threshold
  pause := options.option "timeout" Json.number? c.pause
  probes := options.option "half_open_max_calls" Json.bound? c.probes

end Breaker.Config

namespace Retry

/-- Three attempts, the second after a second, the third after two; no waiting time is longer than
a minute. -/
def Policy.usual : Policy Number :=
  ⟨3, ⟨.fractional 1, .fractional 2, .fractional 60⟩, fun _ => true⟩

def Backoff.under (options : Json) (b : Backoff Number) : Backoff Number where
  base := options.option "base_delay" Json.number? b.base
  factor := options.option "exponential_base" Json.number? b.factor
  limit := options.option "max_delay" Json.number? b.limit

def Policy.under (options : Json) (p : Policy Number) : Policy Number :=
  { p with
    limit := options.option "max_retries" Settings.whole? p.limit
    backoff := p.backoff.under options }

end Retry

namespace CallPolicy

/-- Three attempts of five minutes each; the second begins after a second. -/
def usual : CallPolicy Number := ⟨.whole 300, 3, .fractional 1⟩

def under (options : Json) (p : CallPolicy Number) : CallPolicy Number where
  timeout := options.option "timeout_seconds" Json.number? p.timeout
  attempts := options.option "max_retries" Settings.whole? p.attempts
  baseDelay := options.option "base_delay" Json.number? p.baseDelay

end CallPolicy

end SpecTree
