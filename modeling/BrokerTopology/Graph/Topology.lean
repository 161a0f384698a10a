import BrokerTopology.Graph.Topic
/-!
# The topology

The topology holds the addresses with their clients, and the topics. A client remembers its filters
and owns its publish edges; a topic lists the clients it is delivered to. All references are keys
that are looked up, so nodes come and go in any order.

An operation answers whether it was applied, was ignored because it repeats what is known, or
failed, and gives back the topology after it. A sample turns byte counters into rates, lets idle
edges expire and removes drained topics.
-/

namespace BrokerTopology

namespace Topology

/-! ## Answers -/

/-- The kinds of nodes that can be looked for. -/
inductive NodeKind where
  | address
  | client
  | topic
  deriving DecidableEq, Repr

/-- The word for a kind of node. -/
def NodeKind.word : NodeKind → String
  | .address => "ip"
  | .client => "client"
  | .topic => "topic"

/-- Why an operation failed. -/
inductive Failure where
  | notFound (kind : NodeKind) (key : String)
  | duplicate (key : String)
  deriving DecidableEq, Repr

/-- The text of a failure. -/
def Failure.message : Failure → String
  | .notFound kind key => kind.word ++ " not found: " ++ key
  | .duplicate key => Dict.Duplicate.message ⟨key⟩

/-- What an operation that did not fail has done. -/
inductive Mutation where
  | applied
  /-- The request repeats what is known. -/
  | ignored
  deriving DecidableEq, Repr

end Topology

/-- The live graph. `idleBudget` is the number of samples that an idle edge, or a retained topic
without publishers, survives. `changed` is set when a client, a topic or an edge comes or goes, and when
a sample reports a latency for the first time or moves a reported value by more than the tolerance. A
document rendered before may be out of date without it: another retain flag that comes along a known edge
does not set it, nor do values that move by less at a time. -/
structure Topology where
  hosts : Dict Host
  topics : Dict Topic
  idleBudget : Nat
  changed : Bool
  deriving DecidableEq, Repr

namespace Topology

/-- The answer of an operation and the topology after it. -/
abbrev Answer := Except Failure Mutation × Topology

/-- A topology without nodes. -/
def empty (idleBudget : Nat) : Topology :=
  ⟨Dict.empty, Dict.empty, idleBudget, false⟩

/-! ## Looking up -/

/-- All clients, address by address in listed order. -/
def clients (s : Topology) : List Client :=
  s.hosts.values.flatMap fun h => h.clients.values

/-- The client with a given address and id. -/
def client? (s : Topology) (address id : String) : Option Client := do
  let host ← s.hosts.find? address
  host.clients.find? id

/-- The client with a given address and id, or what is missing. -/
def findClient (s : Topology) (address id : String) : Except Failure Client :=
  match s.hosts.find? address with
  | none => .error (.notFound .address address)
  | some host =>
    match host.clients.find? id with
    | none => .error (.notFound .client id)
    | some c => .ok c

/-- The number of addresses with a client. -/
def hostCount (s : Topology) : Nat :=
  s.hosts.size

/-- The number of clients. -/
def clientCount (s : Topology) : Nat :=
  s.hosts.values.foldr (fun h n => h.clients.size + n) 0

/-- The number of topics. -/
def topicCount (s : Topology) : Nat :=
  s.topics.size

/-- The number of clients with a publish edge to a topic. -/
def publisherCount (s : Topology) (topic : String) : Nat :=
  (s.clients.filter fun c => c.published.contains topic).length

/-- The clients that a topic is delivered to. A topic that is not known is delivered to nobody. -/
def subscribers (s : Topology) (topic : String) : List ClientKey :=
  ((s.topics.find? topic).map Topic.subscribers).getD []

/-- The keys of the clients with a filter that covers a topic. -/
def interested (s : Topology) (topic : String) : List ClientKey :=
  (s.clients.filter fun c => c.subscribesTo topic).map Client.key

/-- Applies `f` to the client with a given address and id. -/
def modifyClient (s : Topology) (address id : String) (f : Client → Client) : Topology :=
  { s with hosts := s.hosts.modify address fun h => { h with clients := h.clients.modify id f } }

/-- Sets the flag of change if `b`. -/
def markIf (s : Topology) (b : Bool) : Topology :=
  { s with changed := s.changed || b }

/-! ## Connecting and disconnecting -/

/-- Files a client under the host at an address. -/
def addToHost (s : Topology) (host : Host) (address id : String) (bridge : Option String) :
    Answer :=
  match host.clients.insert id (.fresh address id bridge) with
  | .error e => (.error (.duplicate e.key), s)
  | .ok clients =>
    (.ok .applied,
      { s with
        hosts := s.hosts.modify address fun h => { h with clients := clients }
        changed := true })

/-- Connects a client, a bridge session if `bridge` names its remote broker. An address is listed
with its first client. A client that is known already is left as it is. -/
def addClient (s : Topology) (address id : String) (bridge : Option String := none) : Answer :=
  match s.hosts.find? address with
  | some host =>
    if host.clients.contains id then (.ok .ignored, s) else s.addToHost host address id bridge
  | none =>
    match s.hosts.insert address (.fresh address) with
    | .error e => (.error (.duplicate e.key), s)
    | .ok hosts => { s with hosts := hosts }.addToHost (.fresh address) address id bridge

/-- The hosts after a client has left the host at an address. An address without clients is
dropped. -/
def hostsWithout (s : Topology) (host : Host) (address id : String) : Dict Host :=
  let clients := host.clients.erase id
  let hosts := s.hosts.modify address fun h => { h with clients := clients }
  if clients.isEmpty then hosts.erase address else hosts

/-- Detaches a publish edge from each of the named topics. -/
def detachAll (budget : Nat) (topics : Dict Topic) (names : List String) : Dict Topic :=
  names.foldl (fun ts name => ts.modify name (Topic.detach budget)) topics

/-- Disconnects a client and drops its subscriptions and its publish edges. -/
def removeClient (s : Topology) (id address : String) : Answer :=
  match s.hosts.find? address with
  | none => (.error (.notFound .address address), s)
  | some host =>
    match host.clients.find? id with
    | none => (.error (.notFound .client id), s)
    | some c =>
      let unsubscribed := s.topics.map fun t => t.removeSubscriber c.key
      (.ok .applied,
        { s with
          hosts := s.hostsWithout host address id
          topics := detachAll s.idleBudget unsubscribed (c.published.values.map Edge.topic)
          changed := true })

/-! ## Publishing -/

/-- A new topic is delivered to every client with a filter that covers it. -/
def newTopic (s : Topology) (name : String) (retain : Bool) : Topic :=
  (s.interested name).foldl Topic.addSubscriber (.fresh name retain)

/-- Lists a topic if it is not known. -/
def ensureTopic (s : Topology) (name : String) (retain : Bool) : Except Failure Topology :=
  if s.topics.contains name then .ok s
  else
    match s.topics.insert name (s.newTopic name retain) with
    | .error e => .error (.duplicate e.key)
    | .ok topics => .ok { s with topics := topics }

/-- Sends bytes along the edge of a client to a topic, and answers with the client and whether the
edge is new. -/
def sendAlong (c : Client) (topic : String) (ttl : Int) (bytes : Nat) :
    Except Failure (Client × Bool) :=
  if c.published.contains topic then
    .ok ({ c with published := c.published.modify topic fun e => e.send ttl bytes }, false)
  else
    match c.published.insert topic (.fresh topic ttl bytes) with
    | .error e => .error (.duplicate e.key)
    | .ok published => .ok ({ c with published := published }, true)

/-- A topic receives bytes, along a new edge or a known one. -/
def deliver (s : Topology) (topic : String) (retain : Bool) (bytes : Nat) (isNew : Bool) : Answer :=
  if s.topics.contains topic then
    let topics := s.topics.modify topic fun t =>
      let t := t.receive retain bytes
      if isNew then t.attach else t
    (.ok .applied, { s with topics := topics }.markIf isNew)
  else (.error (.notFound .topic topic), s)

/-- Records that a client published a number of bytes to a topic. The topic and the edge to it are
listed on first use, and the idle time of the edge starts anew. -/
def addPublish (s : Topology) (id address topic : String) (retain : Bool) (bytes : Nat) : Answer :=
  match s.findClient address id with
  | .error e => (.error e, s)
  | .ok c =>
    match s.ensureTopic topic retain with
    | .error e => (.error e, s)
    | .ok s₁ =>
      match sendAlong c topic s.idleBudget bytes with
      | .error e => (.error e, s)
      | .ok (c', isNew) => (s₁.modifyClient address id fun _ => c').deliver topic retain bytes isNew

/-! ## Subscribing -/

/-- Remembers a filter of a client, and delivers to it every known topic that the filter covers. -/
def addSubscription (s : Topology) (id address filter : String) : Answer :=
  match s.findClient address id with
  | .error e => (.error e, s)
  | .ok c =>
    if c.filters.contains filter then (.ok .ignored, s)
    else
      let gains (t : Topic) : Bool := Filter.covers filter t.name && !t.hasSubscriber c.key
      let s₁ := s.modifyClient address id fun c => { c with filters := c.filters ++ [filter] }
      let topics := s.topics.map fun t =>
        if Filter.covers filter t.name then t.addSubscriber c.key else t
      (.ok .applied, { s₁ with topics := topics }.markIf (s.topics.values.any gains))

/-- Forgets a filter of a client, and stops delivering to it every topic that the filter covers and
no other filter of the client does. -/
def removeSubscription (s : Topology) (id address filter : String) : Answer :=
  match s.findClient address id with
  | .error e => (.error e, s)
  | .ok c =>
    if c.filters.contains filter then
      let c' := { c with filters := c.filters.filter (· != filter) }
      let loses (t : Topic) : Bool := Filter.covers filter t.name && !c'.subscribesTo t.name
      let s₁ := s.modifyClient address id fun _ => c'
      let topics := s.topics.map fun t => if loses t then t.removeSubscriber c.key else t
      (.ok .applied,
        { s₁ with topics := topics }.markIf
          (s.topics.values.any fun t => loses t && t.hasSubscriber c.key))
    else (.ok .ignored, s)

/-! ## Probing -/

/-- Starts a latency probe of a client. -/
def startProbe (s : Topology) (id address : String) (now : Nat) : Answer :=
  match s.findClient address id with
  | .error e => (.error e, s)
  | .ok _ =>
    (.ok .applied, s.modifyClient address id fun c => { c with latency := c.latency.start now })

/-- Completes the latency probe of a client; without one in flight the request is ignored. -/
def finishProbe (s : Topology) (id address : String) (now : Nat) : Answer :=
  match s.findClient address id with
  | .error e => (.error e, s)
  | .ok c =>
    match c.latency.finish now with
    | (none, _) => (.ok .ignored, s)
    | (some _, latency) =>
      (.ok .applied, s.modifyClient address id fun c => { c with latency := latency })

/-! ## Sampling -/

/-- What a sample has done. -/
structure SampleReport where
  removedEdges : Nat
  removedTopics : Nat
  changed : Bool
  deriving DecidableEq, Repr

/-- The report of a sample that has no effect. -/
def SampleReport.none : SampleReport :=
  ⟨0, 0, false⟩

/-- A sample has an effect only over a positive, finite number of seconds. -/
def isEffective (secs : Float) : Bool :=
  !(secs ≤ 0) && secs.isFinite

/-- The hosts after a sample. -/
def sampledHosts (s : Topology) (secs : Float) : Dict Host :=
  s.hosts.map fun h => { h with clients := h.clients.map fun c => (c.sampled secs).client }

/-- The topics of the edges that expire in a sample, in listed order. -/
def expiredEdges (s : Topology) (secs : Float) : List String :=
  s.clients.flatMap fun c => (c.sampled secs).expired

/-- One sample over `secs` seconds. Clients are sampled first and expired edges detached from their
topics; then drained topics go, and the others are measured. -/
def sample (s : Topology) (secs : Float) : SampleReport × Topology :=
  if isEffective secs then
    let expired := s.expiredEdges secs
    let swept := (detachAll s.idleBudget s.topics expired).removeIf Topic.isDrained
    let left := swept.dict.map Topic.drain
    let values := s.clients.any (fun c => (c.sampled secs).changed) ||
      left.values.any fun t => moved t.rate (t.measured secs)
    let report : SampleReport :=
      { removedEdges := expired.length
        removedTopics := swept.removed.length
        changed := values || !expired.isEmpty || !swept.removed.isEmpty }
    (report,
      { s with
        hosts := s.sampledHosts secs
        topics := left.map (Topic.sampled secs)
        changed := s.changed || report.changed })
  else (.none, s)

/-- The flag of change, and the topology with the flag cleared. -/
def takeChanged (s : Topology) : Bool × Topology :=
  (s.changed, { s with changed := false })

end Topology

end BrokerTopology
