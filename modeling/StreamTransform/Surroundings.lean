import StreamTransform.Record

/-!
# Surroundings of a transformation

Sinks, the resolver of further documents and the listener are foreign: each
answers from the record of what happened before and from what it is asked now.
An answer with a fault is a refusal.
-/

namespace StreamTransform

structure Surroundings where
  sink : Destination → Record → Output.Event → Option Fault
  /-- Without a resolver no further document can be had. -/
  resolver : Option (Record → String → Option Fault)
  listener : Record → Diagnostic → Option Fault

namespace Surroundings

/-- Sinks that take everything, no resolver, and a listener that looks at the diagnostic only. -/
def plain (verdict : Verdict) : Surroundings where
  sink _ _ _ := none
  resolver := none
  listener _ d := verdict d

end Surroundings

end StreamTransform
