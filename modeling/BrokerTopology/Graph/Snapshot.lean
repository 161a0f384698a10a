import BrokerTopology.Json.Record
import BrokerTopology.Json.Writer
/-!
# The graph document

A snapshot lists the addresses with their clients and what these publish, and the topics with the
clients they are delivered to. It is written as a JSON document and can be read back.
-/

namespace BrokerTopology

open Json (Value)

namespace Snapshot

/-! ## The nodes of the document -/

/-- A topic to which a client publishes, with the rate in bytes per second. -/
structure Publication where
  topic : String
  rate : Float
  deriving DecidableEq, Repr

/-- A client. The latency in milliseconds is known once a probe has completed, and `bridge` is the
remote broker of a bridge session. -/
structure ClientNode where
  name : String
  latency : Option Float
  bridge : Option String
  published : List Publication
  deriving DecidableEq, Repr

/-- An address with the clients connected from it. -/
structure AddressNode where
  id : String
  clients : List ClientNode
  deriving DecidableEq, Repr

/-- A client to which a topic is delivered, with the rate of the topic. -/
structure Subscription where
  client : String
  rate : Float
  deriving DecidableEq, Repr

/-- A topic with its subscribers. -/
structure TopicNode where
  name : String
  retain : Bool
  rate : Float
  subscriptions : List Subscription
  deriving DecidableEq, Repr

end Snapshot

open Snapshot in
/-- The rendered topology. -/
structure Snapshot where
  addresses : List AddressNode
  topics : List TopicNode
  deriving DecidableEq, Repr

namespace Snapshot

/-! ## Writing -/

/-- A publication as a JSON value. -/
def Publication.toValue (p : Publication) : Value :=
  .object [("topic", .text p.topic), ("bps", .float p.rate)]

/-- A client as a JSON value. A missing latency is written as `null`, a missing bridge is left
out. -/
def ClientNode.toValue (c : ClientNode) : Value :=
  .object ([("name", .text c.name), ("latency", .ofOption .float c.latency)] ++
    (c.bridge.map fun b => ("bridge", Value.text b)).toList ++
    [("published", .array (c.published.map Publication.toValue))])

/-- An address as a JSON value. -/
def AddressNode.toValue (a : AddressNode) : Value :=
  .object [("id", .text a.id), ("clients", .array (a.clients.map ClientNode.toValue))]

/-- A subscription as a JSON value. -/
def Subscription.toValue (s : Subscription) : Value :=
  .object [("client", .text s.client), ("bps", .float s.rate)]

/-- A topic as a JSON value. -/
def TopicNode.toValue (t : TopicNode) : Value :=
  .object [("name", .text t.name), ("retain", .bool t.retain), ("bps", .float t.rate),
    ("subscriptions", .array (t.subscriptions.map Subscription.toValue))]

/-- The document as a JSON value. -/
def toValue (s : Snapshot) : Value :=
  .object [("ips", .array (s.addresses.map AddressNode.toValue)),
    ("topics", .array (s.topics.map TopicNode.toValue))]

/-- The text of the document. -/
def write (s : Snapshot) : String :=
  s.toValue.write

/-! ## Reading -/

/-- Reads a publication. -/
def asPublication : Json.Reader Value :=
  Json.asRecord [{ name := "topic", read := Json.asText }, { name := "bps", read := Json.asFloat }]

/-- Reads a client. The latency may be missing from an object, the bridge from any record. -/
def asClientNode : Json.Reader Value :=
  Json.asRecord
    [{ name := "name", read := Json.asText },
     { name := "latency", read := Json.orNull Json.asFloat, presence := .nullable },
     { name := "bridge", read := Json.orNull Json.asText, presence := .defaulted .null },
     { name := "published", read := Json.asArray asPublication }]

/-- Reads an address. -/
def asAddressNode : Json.Reader Value :=
  Json.asRecord
    [{ name := "id", read := Json.asText }, { name := "clients", read := Json.asArray asClientNode }]

/-- Reads a subscription. -/
def asSubscription : Json.Reader Value :=
  Json.asRecord [{ name := "client", read := Json.asText }, { name := "bps", read := Json.asFloat }]

/-- Reads a topic. -/
def asTopicNode : Json.Reader Value :=
  Json.asRecord
    [{ name := "name", read := Json.asText }, { name := "retain", read := Json.asBool },
     { name := "bps", read := Json.asFloat },
     { name := "subscriptions", read := Json.asArray asSubscription }]

/-- Reads a document. -/
def asSnapshot : Json.Reader Value :=
  Json.asRecord
    [{ name := "ips", read := Json.asArray asAddressNode },
     { name := "topics", read := Json.asArray asTopicNode }]

/-- The publication that a complete record stands for. -/
def Publication.ofValue? : Value → Option Publication
  | .object [("topic", .text topic), ("bps", .number (.float rate))] => some ⟨topic, rate⟩
  | _ => none

/-- A double that may be missing. -/
def optionalFloat? : Value → Option (Option Float)
  | .null => some none
  | .number (.float x) => some (some x)
  | _ => none

/-- A text that may be missing. -/
def optionalText? : Value → Option (Option String)
  | .null => some none
  | .text s => some (some s)
  | _ => none

/-- The client that a complete record stands for. -/
def ClientNode.ofValue? : Value → Option ClientNode
  | .object [("name", .text name), ("latency", latency), ("bridge", bridge),
      ("published", .array published)] => do
    return ⟨name, ← optionalFloat? latency, ← optionalText? bridge,
      ← published.mapM Publication.ofValue?⟩
  | _ => none

/-- The address that a complete record stands for. -/
def AddressNode.ofValue? : Value → Option AddressNode
  | .object [("id", .text id), ("clients", .array clients)] => do
    return ⟨id, ← clients.mapM ClientNode.ofValue?⟩
  | _ => none

/-- The subscription that a complete record stands for. -/
def Subscription.ofValue? : Value → Option Subscription
  | .object [("client", .text client), ("bps", .number (.float rate))] => some ⟨client, rate⟩
  | _ => none

/-- The topic that a complete record stands for. -/
def TopicNode.ofValue? : Value → Option TopicNode
  | .object [("name", .text name), ("retain", .bool retain), ("bps", .number (.float rate)),
      ("subscriptions", .array subscriptions)] => do
    return ⟨name, retain, rate, ← subscriptions.mapM Subscription.ofValue?⟩
  | _ => none

/-- The document that a complete record stands for. -/
def ofValue? : Value → Option Snapshot
  | .object [("ips", .array addresses), ("topics", .array topics)] => do
    return ⟨← addresses.mapM AddressNode.ofValue?, ← topics.mapM TopicNode.ofValue?⟩
  | _ => none

/-- Reads a document to its end. -/
def read (text : String) : Except Json.Error Snapshot := do
  let v ← Json.document asSnapshot text
  match ofValue? v with
  | some s => return s
  | none => .error .wrongType

end Snapshot

end BrokerTopology
