/-!
# Settings

What can be set: where the server listens, how the topology is sampled and on which topics it is
published, and how much is logged.
-/

namespace BrokerTopology

/-- How the topology is sampled and published. The interval counts seconds, and zero switches
publishing off. `idleBudget` counts samples. -/
structure GraphSettings where
  interval : Nat := 10
  idleBudget : Nat := 3
  topic : String := "$SYS/graph"
  memoryTopic : String := "$SYS/graph/memory"
  latencyTopic : String := "$GRAPH/latency"
  deriving DecidableEq, Repr

/-- All settings, with their defaults. -/
structure Settings where
  host : String := "127.0.0.1"
  port : Nat := 8080
  graph : GraphSettings := {}
  level : String := "info"
  deriving DecidableEq, Repr

end BrokerTopology
