import BrokerTopology.Broker.Message
import BrokerTopology.Table
import BrokerTopology.Graph.Monitor
/-!
# The broker

The broker routes messages between the clients that are connected, keeps the last retained message
of every topic, and reports every event to the monitor. What it sends is a list of deliveries, each
a reply to one connected client, in the order of sending.

Instants are nanoseconds; `stamp` is the wall time in milliseconds that a message is given.
-/

namespace BrokerTopology

/-- A connected client. -/
structure Connection where
  id : String
  address : String
  deriving DecidableEq, Repr

/-- A reply on its way to a client. -/
structure Delivery where
  recipient : String
  reply : Reply
  deriving DecidableEq, Repr

/-- The tables of the broker, the monitor it reports to, and its settings. A client without filters
may have an entry in `subscriptions` or none. -/
structure Broker where
  connections : Table Connection
  subscriptions : Table (List String)
  retained : Table Message
  monitor : Monitor
  settings : GraphSettings
  deriving DecidableEq, Repr

namespace Broker

/-- A broker that starts at the instant `start`. -/
def new (settings : GraphSettings) (start : Nat := 0) : Broker :=
  ⟨.empty, .empty, .empty, .new settings start, settings⟩

/-- The topology that the broker reports to. -/
def topology (b : Broker) : Topology :=
  b.monitor.topology

/-- The address from which a client is connected. -/
def addressOf (b : Broker) (id : String) : Option String :=
  (b.connections.find? id).map Connection.address

/-- The filters of a client. -/
def filtersOf (b : Broker) (id : String) : List String :=
  (b.subscriptions.find? id).getD []

/-! ## Connecting and disconnecting -/

/-- A client connects. -/
def register (b : Broker) (id address : String) : Broker :=
  { b with
    connections := b.connections.set id ⟨id, address⟩
    monitor := b.monitor.connect id address }

/-- Takes a client out of the tables, but not out of the graph. -/
def remove (b : Broker) (id : String) : Option Connection × Broker :=
  (b.connections.find? id,
    { b with connections := b.connections.erase id, subscriptions := b.subscriptions.erase id })

/-- A client disconnects. -/
def cleanup (b : Broker) (id : String) : Broker :=
  match b.remove id with
  | (some c, b) => { b with monitor := b.monitor.disconnect c.id c.address }
  | (none, b) => b

/-! ## Routing -/

/-- Whether one of a client's filters routes a topic to it. -/
def wants (filters : List String) (topic : String) : Bool :=
  filters.any fun f => Filter.routes f topic

/-- The connected clients with a filter that routes a topic to them. -/
def recipients (b : Broker) (topic : String) : List String :=
  (b.subscriptions.toList.filter fun e => wants e.2 topic && b.connections.contains e.1).map (·.1)

/-- The retained messages after a message. A retained message replaces the last one of its topic,
or clears it when its payload is empty. -/
def retain (b : Broker) (m : Message) : Table Message :=
  if m.retain then
    if m.payload.isEmpty then b.retained.erase m.topic else b.retained.set m.topic m
  else b.retained

/-- Delivers a message once to every connected client that wants it. -/
def route (b : Broker) (m : Message) : List Delivery × Broker :=
  ((b.recipients m.topic).map fun id => ⟨id, .message m⟩, { b with retained := b.retain m })

/-! ## Subscribing -/

/-- A filter added to the filters of a client. -/
def withFilter (filters : List String) (filter : String) : List String :=
  if filters.contains filter then filters else filters ++ [filter]

/-- A client subscribes and is sent the retained messages that the filter routes to it. A filter
that is not well formed and a client that is not connected are refused. -/
def subscribe (b : Broker) (filter id : String) : Bool × List Delivery × Broker :=
  if Filter.isValid filter then
    match b.addressOf id with
    | none => (false, [], b)
    | some address =>
      let replayed := b.retained.values.filter fun m => Filter.routes filter m.topic
      (true, replayed.map fun m => ⟨id, .message m⟩,
        { b with
          subscriptions := b.subscriptions.set id (withFilter (b.filtersOf id) filter)
          monitor := b.monitor.subscribe id address filter })
  else (false, [], b)

/-- A client unsubscribes. -/
def unsubscribe (b : Broker) (filter id : String) : Broker :=
  if (b.filtersOf id).contains filter then
    let b₁ := { b with
      subscriptions := b.subscriptions.set id ((b.filtersOf id).filter (· != filter)) }
    match b.addressOf id with
    | none => b₁
    | some address => { b₁ with monitor := b.monitor.unsubscribe id address filter }
  else b

/-! ## Publishing -/

/-- The reply to a message whose topic names no topic. -/
def invalidTopic (topic : String) : Reply :=
  .error ("invalid topic name: " ++ topic)

/-- The reply to a subscription whose filter is not well formed. -/
def invalidFilter (filter : String) : Reply :=
  .error ("invalid filter: " ++ filter)

/-- A client publishes. A message on the latency topic starts a probe instead, and one whose topic
names no topic is answered with an error. -/
def publish (b : Broker) (id : String) (m : Message) (now : Nat) : List Delivery × Broker :=
  match b.addressOf id with
  | none => ([], b)
  | some address =>
    if !TopicName.isValid m.topic then ([⟨id, invalidTopic m.topic⟩], b)
    else if m.topic = b.settings.latencyTopic then
      ([⟨id, .probe⟩], { b with monitor := b.monitor.startProbe id address now })
    else
      { b with
        monitor := b.monitor.publish id address m.topic m.retain m.payload.utf8ByteSize }.route m

/-- A client acknowledges a probe. -/
def acknowledge (b : Broker) (id : String) (now : Nat) : Broker :=
  match b.addressOf id with
  | none => b
  | some address => { b with monitor := b.monitor.finishProbe id address now }

/-! ## Requests -/

/-- Applies a request of a client. -/
def dispatch (b : Broker) (id : String) (r : Request) (now : Nat) (stamp : Int) :
    List Delivery × Broker :=
  match r with
  | .subscribe filter =>
    match b.subscribe filter id with
    | (true, ds, b) => (ds, b)
    | (false, ds, b) =>
      if b.connections.contains id then (ds ++ [⟨id, invalidFilter filter⟩], b) else (ds, b)
  | .unsubscribe filter => ([], b.unsubscribe filter id)
  | .publish topic payload retain => b.publish id ⟨topic, payload, stamp, retain⟩ now
  | .probeAck => ([], b.acknowledge id now)

/-! ## Publishing the graph -/

/-- Routes a document on a topic, as a retained message, if there is one. -/
def routeDocument (b : Broker) (topic : String) (document : Option String) (stamp : Int) :
    List Delivery × Broker :=
  match document with
  | none => ([], b)
  | some text => b.route ⟨topic, text, stamp, true⟩

/-- Ticks the monitor and publishes the documents that it produces. Each is stamped when it is made,
the one about memory after the one about the graph has been routed. -/
def publishGraph (b : Broker) (now : Nat) (stamp : Int) (reading : Memory.Usage)
    (memoryStamp : Int := stamp) : List Delivery × Broker :=
  let (update, monitor) := b.monitor.tick now reading
  let b := { b with monitor := monitor }
  let (graph, b) := b.routeDocument b.settings.topic update.graph stamp
  let (memory, b) := b.routeDocument b.settings.memoryTopic update.memory memoryStamp
  (graph ++ memory, b)

/-- The first `ticks` rounds of the graph loop, which publishes the graph after every interval from
the instant `start` on. -/
def graphLoop (stamp : Nat → Int) (reading : Memory.Usage) (ticks start : Nat) (b : Broker)
    (memoryStamp : Nat → Int := stamp) : List Delivery × Broker :=
  match ticks with
  | 0 => ([], b)
  | ticks + 1 =>
    let now := start + b.monitor.sampler.interval
    let (ds, b) := b.publishGraph now (stamp now) reading (memoryStamp now)
    let (rest, b) := graphLoop stamp reading ticks now b memoryStamp
    (ds ++ rest, b)

end Broker

end BrokerTopology
