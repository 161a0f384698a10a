import BrokerTopology.Graph.Topology
/-!
# When to sample

The sampler keeps the instant of its last sample. A tick samples the topology when at least one
interval has passed since then, over the time that has really passed. An interval of zero switches
sampling off. Instants and intervals are nanoseconds.
-/

namespace BrokerTopology

/-- The interval between samples and the instant of the last one. -/
structure Sampler where
  interval : Nat
  last : Nat
  deriving DecidableEq, Repr

namespace Sampler

/-- Whether the sampler ever samples. -/
def isEnabled (p : Sampler) : Bool :=
  p.interval != 0

/-- The time since the last sample, if a sample is due. Time does not run backwards. -/
def due? (p : Sampler) (now : Nat) : Option Nat :=
  if p.isEnabled && p.interval ≤ now - p.last then some (now - p.last) else none

/-- A tick: a sample if one is due, and nothing otherwise. -/
def tick (p : Sampler) (now : Nat) (s : Topology) :
    Option Topology.SampleReport × Sampler × Topology :=
  match p.due? now with
  | none => (none, p, s)
  | some elapsed =>
    let (report, s) := s.sample (seconds elapsed)
    (some report, { p with last := now }, s)

/-- With an interval of zero no tick samples. -/
theorem tick_of_interval_eq_zero (last now : Nat) (s : Topology) :
    tick ⟨0, last⟩ now s = (none, ⟨0, last⟩, s) := by
  simp [tick, due?, isEnabled]

end Sampler

end BrokerTopology
