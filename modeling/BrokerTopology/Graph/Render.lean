import BrokerTopology.Decimal.Binary
import BrokerTopology.Graph.Snapshot
import BrokerTopology.Graph.Topology
/-!
# Rendering the topology

The document of a topology lists its nodes in the order of the dictionaries. Rates and latencies
are rounded to three places.
-/

namespace BrokerTopology

/-- A number rounded to three decimal places, by way of its thousandfold. -/
def round3 (x : Float) : Float :=
  Decimal.roundHalfAway (x * 1000) / 1000

namespace Snapshot

/-- A publish edge in the document. -/
def Publication.ofEdge (e : Edge) : Publication :=
  ⟨e.topic, round3 e.rate⟩

/-- A client in the document. -/
def ClientNode.ofClient (c : Client) : ClientNode :=
  ⟨c.id, c.latency.average.map round3, c.bridge, c.published.values.map Publication.ofEdge⟩

/-- An address in the document. -/
def AddressNode.ofHost (h : Host) : AddressNode :=
  ⟨h.address, h.clients.values.map ClientNode.ofClient⟩

/-- A topic in the document. Its rate stands with every subscriber as well. -/
def TopicNode.ofTopic (t : Topic) : TopicNode :=
  ⟨t.name, t.retain, round3 t.rate, t.subscribers.map fun k => ⟨k.id, round3 t.rate⟩⟩

/-- The document of a topology. -/
def render (s : Topology) : Snapshot :=
  ⟨s.hosts.values.map AddressNode.ofHost, s.topics.values.map TopicNode.ofTopic⟩

/-- The topic with a given name. -/
def topic? (d : Snapshot) (name : String) : Option TopicNode :=
  d.topics.find? fun t => t.name == name

/-- The first client with a given name. -/
def client? (d : Snapshot) (name : String) : Option ClientNode :=
  (d.addresses.flatMap AddressNode.clients).find? fun c => c.name == name

end Snapshot

end BrokerTopology
