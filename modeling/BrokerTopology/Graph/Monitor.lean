import BrokerTopology.Graph.Render
import BrokerTopology.Graph.Sampler
import BrokerTopology.Memory.Reporter
import BrokerTopology.Settings.Basic
/-!
# The monitor

The monitor stands between the broker and the topology. It turns events into operations, drops
failures (an event out of order must not stop the broker), and turns ticks into documents. A tick that
samples renders the graph if the topology has been marked as changed since the last one, which gives
the same document again where the changes cancel out; and it reports the memory if the reading is not
the one reported last.
-/

namespace BrokerTopology

/-- The topology, when it is sampled, and what was last reported about memory. -/
structure Monitor where
  topology : Topology
  sampler : Sampler
  reporter : Memory.Reporter
  deriving DecidableEq, Repr

namespace Monitor

/-- The documents of one tick. -/
structure Update where
  graph : Option String := none
  memory : Option String := none
  deriving DecidableEq, Repr

/-- Whether a tick has produced nothing. -/
def Update.isEmpty (u : Update) : Bool :=
  u.graph.isNone && u.memory.isNone

/-- A monitor that starts at the instant `start`. -/
def new (settings : GraphSettings) (start : Nat) : Monitor where
  topology := .empty settings.idleBudget
  sampler := ⟨settings.interval * 1000000000, start⟩
  reporter := {}

/-- The monitor after an operation on the topology, whatever the operation answers. -/
def apply (m : Monitor) (operation : Topology → Topology.Answer) : Monitor :=
  { m with topology := (operation m.topology).2 }

/-! ## Events -/

/-- A client connects. -/
def connect (m : Monitor) (id address : String) (bridge : Option String := none) : Monitor :=
  m.apply fun s => s.addClient address id bridge

/-- A client disconnects. -/
def disconnect (m : Monitor) (id address : String) : Monitor :=
  m.apply fun s => s.removeClient id address

/-- A client publishes. System topics are not part of the graph. -/
def publish (m : Monitor) (id address topic : String) (retain : Bool) (bytes : Nat) : Monitor :=
  if TopicName.isSystem topic then m
  else m.apply fun s => s.addPublish id address topic retain bytes

/-- A client subscribes. -/
def subscribe (m : Monitor) (id address filter : String) : Monitor :=
  m.apply fun s => s.addSubscription id address filter

/-- A client unsubscribes. -/
def unsubscribe (m : Monitor) (id address filter : String) : Monitor :=
  m.apply fun s => s.removeSubscription id address filter

/-- A latency probe is sent to a client. -/
def startProbe (m : Monitor) (id address : String) (now : Nat) : Monitor :=
  m.apply fun s => s.startProbe id address now

/-- A client acknowledges a latency probe. -/
def finishProbe (m : Monitor) (id address : String) (now : Nat) : Monitor :=
  m.apply fun s => s.finishProbe id address now

/-! ## Ticks -/

/-- A tick with a reading of the memory counters. When a sample is due, the graph is rendered if it
has changed and the reading is reported if it is new. -/
def tick (m : Monitor) (now : Nat) (reading : Memory.Usage) : Update × Monitor :=
  match m.sampler.tick now m.topology with
  | (none, _, _) => ({}, m)
  | (some _, sampler, topology) =>
    let (changed, topology) := topology.takeChanged
    let (usage, reporter) := m.reporter.poll reading
    ({ graph := if changed then some (Snapshot.render topology).write else none
       memory := usage.map Memory.Usage.write },
      ⟨topology, sampler, reporter⟩)

end Monitor

end BrokerTopology
