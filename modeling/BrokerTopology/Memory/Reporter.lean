import BrokerTopology.Json.Writer
import BrokerTopology.Memory.Counter
/-!
# Reporting memory

A reading of the counters is reported only when it differs from the last one that was reported.
-/

namespace BrokerTopology.Memory

/-- A reading as a JSON document. -/
def Usage.write (u : Usage) : String :=
  Json.Value.write (.object [("current", .int u.current), ("maximum", .int u.maximum)])

/-- The last reading that was reported. -/
structure Reporter where
  last : Option Usage := none
  deriving DecidableEq, Repr

/-- The reading if it is to be reported. -/
def Reporter.poll (r : Reporter) (reading : Usage) : Option Usage × Reporter :=
  if r.last = some reading then (none, r) else (some reading, ⟨some reading⟩)

/-- A reading is reported at most once in a row. -/
theorem Reporter.poll_poll (r : Reporter) (reading : Usage) :
    (r.poll reading).2.poll reading = (none, (r.poll reading).2) := by
  by_cases h : r.last = some reading <;> simp [Reporter.poll, h]

end BrokerTopology.Memory
