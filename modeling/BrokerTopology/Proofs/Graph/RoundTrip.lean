import BrokerTopology.Graph.Snapshot
import BrokerTopology.Proofs.Json.Records
/-!
# Reading back the graph document

Each node of a document is read as its complete record, in which a bridge that was left out stands as
`null`, and the node is what that record stands for. The numbers of a document are the only part of it
whose texts need not read back, so that they do is asked of each of them.
-/

namespace BrokerTopology

open Json (Value Number Reads)

namespace Snapshot

/-! ## The numbers of a document -/

/-- The numbers of a client: its latency and the rates of what it publishes. -/
def ClientNode.numbers (c : ClientNode) : List Float :=
  c.latency.toList ++ c.published.map Publication.rate

/-- The numbers of an address. -/
def AddressNode.numbers (a : AddressNode) : List Float :=
  a.clients.flatMap ClientNode.numbers

/-- The numbers of a topic: its rate and those of its subscriptions. -/
def TopicNode.numbers (t : TopicNode) : List Float :=
  t.rate :: t.subscriptions.map Subscription.rate

/-- The numbers of a document. -/
def numbers (s : Snapshot) : List Float :=
  s.addresses.flatMap AddressNode.numbers ++ s.topics.flatMap TopicNode.numbers

/-- All these numbers read back. -/
def AllReadBack (xs : List Float) : Prop :=
  ∀ x ∈ xs, (Number.float x).ReadsBack

/-- The numbers of two parts read back if those of each part do. -/
theorem allReadBack_append {xs ys : List Float} :
    AllReadBack (xs ++ ys) ↔ AllReadBack xs ∧ AllReadBack ys :=
  List.forall_mem_append

/-- Where the numbers of all nodes read back, those of each node do. -/
theorem AllReadBack.of_flatMap {α : Type} {nodes : List α} {f : α → List Float} {n : α}
    (h : AllReadBack (nodes.flatMap f)) (hn : n ∈ nodes) : AllReadBack (f n) :=
  fun x hx => h x (List.mem_flatMap_of_mem hn hx)

/-! ## The complete records -/

/-- The complete record of a client. -/
def ClientNode.complete (c : ClientNode) : Value :=
  .object [("name", .text c.name), ("latency", .ofOption .float c.latency),
    ("bridge", .ofOption .text c.bridge), ("published", .array (c.published.map Publication.toValue))]

/-- The complete record of an address. -/
def AddressNode.complete (a : AddressNode) : Value :=
  .object [("id", .text a.id), ("clients", .array (a.clients.map ClientNode.complete))]

/-- The complete record of a document. -/
def complete (s : Snapshot) : Value :=
  .object [("ips", .array (s.addresses.map AddressNode.complete)),
    ("topics", .array (s.topics.map TopicNode.toValue))]

/-! ## Each node is read as its complete record -/

/-- The nodes of an array are read one by one. -/
theorem reads_nodes {α : Type} {read : Json.Reader Value} {written got : α → Value} {nodes : List α}
    (h : ∀ n ∈ nodes, Reads read (written n).render (got n)) :
    Reads (Json.asArray read) (Value.array (nodes.map written)).render
      (.array (nodes.map got)) := by
  refine Json.reads_asArray (List.forall₂_map_left_iff.mpr (List.forall₂_map_right_iff.mpr ?_))
  exact List.forall₂_same.mpr h

/-- A publication is read as it is written. -/
theorem reads_asPublication {p : Publication} (h : (Number.float p.rate).ReadsBack) :
    Reads asPublication p.toValue.render p.toValue := by
  have hnames : ["topic", "bps"].Nodup := by decide
  refine Json.reads_asRecord (.cons (Json.takes rfl (Json.reads_asText p.topic))
    (.cons (Json.takes rfl (Json.reads_asFloat h)) .nil)) hnames rfl

/-- A latency is read as a number, or as the `null` that stands for none. -/
theorem reads_latency {latency : Option Float} (h : AllReadBack latency.toList) :
    Reads (Json.orNull Json.asFloat) (Value.ofOption .float latency).render
      (.ofOption .float latency) := by
  cases latency with
  | none => exact Json.reads_orNull_null Json.asFloat
  | some x =>
    have hx : (Number.float x).ReadsBack := h x (List.mem_singleton_self x)
    refine (Json.reads_asFloat hx).orNull ?_
    rw [Value.float, Value.render]
    exact hx.head?_ne

/-- A client is read with the latency that was written as `null` and the bridge that was left out. -/
theorem reads_asClientNode {c : ClientNode} (h : AllReadBack c.numbers) :
    Reads asClientNode c.toValue.render c.complete := by
  obtain ⟨hlatency, hrates⟩ := allReadBack_append.mp h
  have hpublished : Reads (Json.asArray asPublication)
      (Value.array (c.published.map Publication.toValue)).render
      (.array (c.published.map Publication.toValue)) :=
    reads_nodes fun p hp => reads_asPublication (hrates p.rate (List.mem_map_of_mem hp))
  obtain ⟨name, latency, bridge, published⟩ := c
  cases bridge with
  | none =>
    have hnames : ["name", "latency", "published"].Nodup := by decide
    exact Json.reads_asRecord (.cons (Json.takes rfl (Json.reads_asText name))
      (.cons (Json.takes rfl (reads_latency hlatency))
      (.cons (Json.takes rfl hpublished) .nil))) hnames rfl
  | some b =>
    have hnames : ["name", "latency", "bridge", "published"].Nodup := by decide
    have hbridge : Reads (Json.orNull Json.asText) (Value.text b).render (.text b) := by
      refine Reads.orNull ?_ ?_
      · rw [Value.render]
        exact Json.reads_asText b
      · rw [Value.render]
        exact fun hhead => absurd (Option.some.inj hhead) (by decide)
    exact Json.reads_asRecord (.cons (Json.takes rfl (Json.reads_asText name))
      (.cons (Json.takes rfl (reads_latency hlatency))
      (.cons (Json.takes rfl hbridge)
      (.cons (Json.takes rfl hpublished) .nil)))) hnames rfl

/-- An address is read with the complete records of its clients. -/
theorem reads_asAddressNode {a : AddressNode} (h : AllReadBack a.numbers) :
    Reads asAddressNode a.toValue.render a.complete := by
  have hnames : ["id", "clients"].Nodup := by decide
  have hclients : Reads (Json.asArray asClientNode)
      (Value.array (a.clients.map ClientNode.toValue)).render
      (.array (a.clients.map ClientNode.complete)) :=
    reads_nodes fun c hc => reads_asClientNode (h.of_flatMap hc)
  exact Json.reads_asRecord (.cons (Json.takes rfl (Json.reads_asText a.id))
    (.cons (Json.takes rfl hclients) .nil)) hnames rfl

/-- A subscription is read as it is written. -/
theorem reads_asSubscription {s : Subscription} (h : (Number.float s.rate).ReadsBack) :
    Reads asSubscription s.toValue.render s.toValue := by
  have hnames : ["client", "bps"].Nodup := by decide
  exact Json.reads_asRecord (.cons (Json.takes rfl (Json.reads_asText s.client))
    (.cons (Json.takes rfl (Json.reads_asFloat h)) .nil)) hnames rfl

/-- A topic is read as it is written. -/
theorem reads_asTopicNode {t : TopicNode} (h : AllReadBack t.numbers) :
    Reads asTopicNode t.toValue.render t.toValue := by
  have hnames : ["name", "retain", "bps", "subscriptions"].Nodup := by decide
  obtain ⟨hrate, hrates⟩ := List.forall_mem_cons.mp h
  have hsubscriptions : Reads (Json.asArray asSubscription)
      (Value.array (t.subscriptions.map Subscription.toValue)).render
      (.array (t.subscriptions.map Subscription.toValue)) :=
    reads_nodes fun s hs => reads_asSubscription (hrates s.rate (List.mem_map_of_mem hs))
  exact Json.reads_asRecord (.cons (Json.takes rfl (Json.reads_asText t.name))
    (.cons (Json.takes rfl (Json.reads_asBool t.retain))
    (.cons (Json.takes rfl (Json.reads_asFloat hrate))
    (.cons (Json.takes rfl hsubscriptions) .nil)))) hnames rfl

/-- A document is read as its complete record. -/
theorem reads_asSnapshot {s : Snapshot} (h : AllReadBack s.numbers) :
    Reads asSnapshot s.toValue.render s.complete := by
  have hnames : ["ips", "topics"].Nodup := by decide
  obtain ⟨haddresses, htopics⟩ := allReadBack_append.mp h
  have hnodes : Reads (Json.asArray asAddressNode)
      (Value.array (s.addresses.map AddressNode.toValue)).render
      (.array (s.addresses.map AddressNode.complete)) :=
    reads_nodes fun a ha => reads_asAddressNode (haddresses.of_flatMap ha)
  have hlisted : Reads (Json.asArray asTopicNode)
      (Value.array (s.topics.map TopicNode.toValue)).render
      (.array (s.topics.map TopicNode.toValue)) :=
    reads_nodes fun t ht => reads_asTopicNode (htopics.of_flatMap ht)
  exact Json.reads_asRecord (.cons (Json.takes rfl hnodes)
    (.cons (Json.takes rfl hlisted) .nil)) hnames rfl

/-! ## What the complete records stand for -/

/-- Where each record stands for its node, a list of records stands for the list of nodes. -/
theorem mapM_map_eq_some {α : Type} {f : α → Value} {g : Value → Option α} (h : ∀ a, g (f a) = some a)
    (xs : List α) : (xs.map f).mapM g = some xs := by
  induction xs with
  | nil => rfl
  | cons x xs ih => simp [h, ih]

/-- The record of a publication stands for it. -/
theorem Publication.ofValue?_toValue (p : Publication) : ofValue? p.toValue = some p := rfl

/-- A number or `null` stands for a latency or for none. -/
theorem optionalFloat?_ofOption (latency : Option Float) :
    optionalFloat? (.ofOption .float latency) = some latency := by
  cases latency <;> rfl

/-- A text or `null` stands for a bridge or for none. -/
theorem optionalText?_ofOption (bridge : Option String) :
    optionalText? (.ofOption .text bridge) = some bridge := by
  cases bridge <;> rfl

/-- The complete record of a client stands for it. -/
theorem ClientNode.ofValue?_complete (c : ClientNode) : ofValue? c.complete = some c := by
  have hpublished := mapM_map_eq_some Publication.ofValue?_toValue c.published
  rw [complete, ofValue?, optionalFloat?_ofOption, optionalText?_ofOption, hpublished]
  rfl

/-- The complete record of an address stands for it. -/
theorem AddressNode.ofValue?_complete (a : AddressNode) : ofValue? a.complete = some a := by
  have hclients := mapM_map_eq_some ClientNode.ofValue?_complete a.clients
  rw [complete, ofValue?, hclients]
  rfl

/-- The record of a subscription stands for it. -/
theorem Subscription.ofValue?_toValue (s : Subscription) : ofValue? s.toValue = some s := rfl

/-- The record of a topic stands for it. -/
theorem TopicNode.ofValue?_toValue (t : TopicNode) : ofValue? t.toValue = some t := by
  have hsubscriptions := mapM_map_eq_some Subscription.ofValue?_toValue t.subscriptions
  rw [toValue, Value.float, ofValue?, hsubscriptions]
  rfl

/-- The complete record of a document stands for it. -/
theorem ofValue?_complete (s : Snapshot) : ofValue? s.complete = some s := by
  have haddresses := mapM_map_eq_some AddressNode.ofValue?_complete s.addresses
  have htopics := mapM_map_eq_some TopicNode.ofValue?_toValue s.topics
  rw [complete, ofValue?, haddresses, htopics]
  rfl

/-- A document is read back from its text. -/
theorem read_write_of_allReadBack {s : Snapshot} (h : AllReadBack s.numbers) :
    read s.write = .ok s := by
  have hread : Json.document asSnapshot s.write = .ok s.complete := (reads_asSnapshot h).document
  rw [read, Json.bind_of_eq_ok hread, ofValue?_complete]
  rfl

/-! ## The text as a JSON document -/

/-- An array is nested one deeper than its nodes. -/
theorem readable_nodes {α : Type} {f : α → Value} {nodes : List α} {depth : Nat}
    (h : ∀ n ∈ nodes, (f n).Readable depth) : (Value.array (nodes.map f)).Readable (depth + 1) :=
  .array (List.forall_mem_map.mpr h)

theorem Publication.readable {depth : Nat} {p : Publication} (h : (Number.float p.rate).ReadsBack) :
    p.toValue.Readable (depth + 1) := by
  refine .object ?_
  simp only [List.forall_mem_cons]
  exact ⟨.text p.topic, .number h, List.forall_mem_nil _⟩

theorem Subscription.readable {depth : Nat} {s : Subscription}
    (h : (Number.float s.rate).ReadsBack) : s.toValue.Readable (depth + 1) := by
  refine .object ?_
  simp only [List.forall_mem_cons]
  exact ⟨.text s.client, .number h, List.forall_mem_nil _⟩

theorem ClientNode.readable {depth : Nat} {c : ClientNode} (h : AllReadBack c.numbers) :
    c.toValue.Readable (depth + 3) := by
  obtain ⟨hlatency, hrates⟩ := allReadBack_append.mp h
  have hpublished : (Value.array (c.published.map Publication.toValue)).Readable (depth + 2) :=
    readable_nodes fun p hp => Publication.readable (hrates p.rate (List.mem_map_of_mem hp))
  obtain ⟨name, latency, bridge, published⟩ := c
  have hmissing : (Value.ofOption .float latency).Readable (depth + 2) := by
    cases latency with
    | none => exact .null
    | some x => exact .number (hlatency x (List.mem_singleton_self x))
  have hbridge : ∀ m ∈ (bridge.map fun b => ("bridge", Value.text b)).toList,
      m.2.Readable (depth + 2) := by
    cases bridge with
    | none => exact List.forall_mem_nil _
    | some b => exact List.forall_mem_singleton.mpr (.text b)
  refine .object ?_
  simp only [List.forall_mem_append, List.forall_mem_cons]
  exact ⟨⟨⟨.text name, hmissing, List.forall_mem_nil _⟩, hbridge⟩, hpublished, List.forall_mem_nil _⟩

theorem AddressNode.readable {depth : Nat} {a : AddressNode} (h : AllReadBack a.numbers) :
    a.toValue.Readable (depth + 5) := by
  refine .object ?_
  simp only [List.forall_mem_cons]
  exact ⟨.text a.id, readable_nodes fun c hc => ClientNode.readable (h.of_flatMap hc),
    List.forall_mem_nil _⟩

theorem TopicNode.readable {depth : Nat} {t : TopicNode} (h : AllReadBack t.numbers) :
    t.toValue.Readable (depth + 3) := by
  obtain ⟨hrate, hrates⟩ := List.forall_mem_cons.mp h
  refine .object ?_
  simp only [List.forall_mem_cons]
  exact ⟨.text t.name, .bool t.retain, .number hrate,
    readable_nodes fun s hs => Subscription.readable (hrates s.rate (List.mem_map_of_mem hs)),
    List.forall_mem_nil _⟩

/-- A document is nested seven deep. -/
theorem readable {depth : Nat} {s : Snapshot} (h : AllReadBack s.numbers) :
    s.toValue.Readable (depth + 7) := by
  obtain ⟨haddresses, htopics⟩ := allReadBack_append.mp h
  refine .object ?_
  simp only [List.forall_mem_cons]
  exact ⟨readable_nodes fun a ha => AddressNode.readable (haddresses.of_flatMap ha),
    readable_nodes fun t ht => TopicNode.readable (htopics.of_flatMap ht), List.forall_mem_nil _⟩

/-- A latency is written as `null` where there is none. -/
theorem ClientNode.member?_latency (c : ClientNode) :
    c.toValue.member? "latency" = some (.ofOption .float c.latency) := rfl

/-- A bridge is written where there is one. -/
theorem ClientNode.member?_bridge (c : ClientNode) :
    c.toValue.member? "bridge" = c.bridge.map .text := by
  obtain ⟨name, latency, bridge, published⟩ := c
  cases bridge <;> rfl

/-! ## The round trip -/

/-- A document whose numbers are finite is read back from its text, node for node and in order. That
the text of a finite double is read as that double is assumed of the numbers of the document only: there
are other doubles whose texts are read as a neighbour. The text is the JSON document of the snapshot: in
it a client without a latency has the latency `null`, and a client without a bridge has no such
member. -/
theorem round_trip (s : Snapshot) (hfinite : ∀ x ∈ s.numbers, x.isFinite = true)
    (hdecimal : ∀ x ∈ s.numbers, x.isFinite = true → (Number.float x).ReadsBack) :
    read s.write = .ok s ∧ Value.read s.write = .ok s.toValue ∧
      ∀ a ∈ s.addresses, ∀ c ∈ a.clients,
        (c.latency = none ↔ c.toValue.member? "latency" = some .null) ∧
          (c.bridge = none ↔ c.toValue.member? "bridge" = none) := by
  have hnumbers : AllReadBack s.numbers := fun x hx => hdecimal x hx (hfinite x hx)
  refine ⟨read_write_of_allReadBack hnumbers, Json.Value.read_write (readable hnumbers), ?_⟩
  intro a _ c _
  constructor
  · rw [c.member?_latency]
    cases c.latency with
    | none => exact iff_of_true rfl rfl
    | some x => exact iff_of_false (by simp) (by simp [Value.ofOption, Value.float])
  · rw [c.member?_bridge, Option.map_eq_none_iff]

/-- A document in which a probed bridge session and a client without either share an address. The names
hold quotes, a backslash, a line end, a character that is escaped by its digits and characters beyond
one byte. -/
def travelled : Snapshot where
  addresses :=
    [⟨"fe80::1", [⟨"say \"hi\"\n", some 12.5, some "h\u00fcb\\north", [⟨"a/\u0001", 0.25⟩, ⟨"\u6e29\u5ea6", 3⟩]⟩,
      ⟨"", none, none, []⟩]⟩, ⟨"10.0.0.2", []⟩]
  topics :=
    [⟨"a/\u0001", true, 0.25, [⟨"say \"hi\"\n", 0.25⟩, ⟨"", 0.25⟩]⟩, ⟨"\u6e29\u5ea6", false, 3, []⟩]

/-- Such a document makes the round trip. -/
theorem round_trip_travelled :
    (∀ x ∈ travelled.numbers, x.isFinite = true) ∧
      (∀ x ∈ travelled.numbers, x.isFinite = true → (Number.float x).ReadsBack) ∧
      read travelled.write = .ok travelled ∧ Value.read travelled.write = .ok travelled.toValue ∧
      ∀ a ∈ travelled.addresses, ∀ c ∈ a.clients,
        (c.latency = none ↔ c.toValue.member? "latency" = some .null) ∧
          (c.bridge = none ↔ c.toValue.member? "bridge" = none) := by
  have hfinite : ∀ x ∈ travelled.numbers, x.isFinite = true := by decide +kernel
  have hdecimal : ∀ x ∈ travelled.numbers, x.isFinite = true → (Number.float x).ReadsBack := by
    decide +kernel
  exact ⟨hfinite, hdecimal, round_trip travelled hfinite hdecimal⟩

end Snapshot

end BrokerTopology
