import BrokerTopology.Graph.Render
import BrokerTopology.Proofs.Graph.Actions
/-!
# The document of a topology is consistent

A document joins four dictionaries by names alone: publications name topics, and subscriptions name
clients, whose ids may occur at several addresses. Nothing checks these names when a document is
rendered. They are right because the topology keeps its own counts and lists right: the nodes of a
document are distinct where they should be, and its edges are as many as the topology says.
-/

namespace BrokerTopology

namespace Snapshot

/-! ## What a document lists -/

/-- The keys of the client nodes, address by address. -/
def AddressNode.keys (a : AddressNode) : List ClientKey :=
  a.clients.map fun c => ⟨a.id, c.name⟩

/-- The topics of the publications under an address, once for every edge. -/
def AddressNode.published (a : AddressNode) : List String :=
  a.clients.flatMap fun c => c.published.map Publication.topic

/-- The keys of all client nodes. -/
def keys (d : Snapshot) : List ClientKey :=
  d.addresses.flatMap AddressNode.keys

/-- The topics that the publish edges of a document name, once for every edge. -/
def published (d : Snapshot) : List String :=
  d.addresses.flatMap AddressNode.published

/-- The clients that a topology knows under the keys of a document, if they have the name and a filter
that covers the topic. -/
def interestedNamed (d : Snapshot) (s : Topology) (name topic : String) : List ClientKey :=
  d.keys.filter fun key =>
    key.id == name && (s.clientAt key).any fun c => c.filters.any fun f => Filter.covers f topic

/-- A document is consistent in itself and with the topology that it shows. -/
structure Consistent (s : Topology) (d : Snapshot) : Prop where
  /-- No address is listed twice. -/
  addresses_nodup : (d.addresses.map AddressNode.id).Nodup
  /-- Every address has a client. -/
  clients_ne_nil : ∀ a ∈ d.addresses, a.clients ≠ []
  /-- No two clients of an address have one name. -/
  clients_nodup : ∀ a ∈ d.addresses, (a.clients.map ClientNode.name).Nodup
  /-- No topic is listed twice. -/
  topics_nodup : (d.topics.map TopicNode.name).Nodup
  /-- No client has two edges to one topic. -/
  published_nodup : ∀ a ∈ d.addresses, ∀ c ∈ a.clients, (c.published.map Publication.topic).Nodup
  /-- Every publish edge names a topic node. -/
  published_listed : ∀ topic ∈ d.published, ∃ t ∈ d.topics, t.name = topic
  /-- A topic node is named by as many publish edges as the topology counts publishers. -/
  publishers_eq : ∀ t ∈ d.topics, ∃ stored, s.topics.find? t.name = some stored ∧
    d.published.count t.name = stored.publishers
  /-- Every client node is a client that the topology knows. -/
  clients_found : ∀ key ∈ d.keys, ∃ c, s.clientAt key = some c
  /-- A client name is among the subscriptions of a topic as often as the client nodes with that name
  have a filter that covers the topic. -/
  subscriptions_eq : ∀ t ∈ d.topics, ∀ name,
    (t.subscriptions.map Subscription.client).count name = (d.interestedNamed s name t.name).length
  /-- Every subscription has the rate of its topic. -/
  rates_eq : ∀ t ∈ d.topics, ∀ e ∈ t.subscriptions, e.rate = t.rate

/-! ## What the document of a topology lists -/

variable {s : Topology}

/-- The edges of a client node are those of the client. -/
theorem published_ofClient (c : Client) :
    (ClientNode.ofClient c).published.map Publication.topic = c.publications := by
  rw [ClientNode.ofClient, List.map_map]
  rfl

/-- The document of a topology shows the publish edges of its clients. -/
theorem published_render (s : Topology) : (render s).published = s.publications := by
  rw [published, render, List.flatMap_map, Topology.publications, Topology.clients, List.flatMap_assoc]
  refine List.flatMap_congr fun h _ => ?_
  rw [AddressNode.published, AddressNode.ofHost, List.flatMap_map]
  exact List.flatMap_congr fun c _ => published_ofClient c

/-- The document of a topology shows its clients under their keys. -/
theorem keys_render (hs : s.WellFormed) : (render s).keys = s.clients.map Client.key := by
  rw [keys, render, List.flatMap_map, Topology.clients, List.map_flatMap]
  refine List.flatMap_congr fun h hh => ?_
  rw [AddressNode.keys, AddressNode.ofHost, List.map_map]
  refine List.map_congr_left fun c hc => ?_
  show (⟨h.address, c.id⟩ : ClientKey) = ⟨c.address, c.id⟩
  rw [(hs.host h hh).address_eq c hc]

/-- The subscriptions of a topic node name its subscribers. -/
theorem clients_ofTopic (t : Topic) :
    (TopicNode.ofTopic t).subscriptions.map Subscription.client = t.subscribers.map ClientKey.id := by
  rw [TopicNode.ofTopic, List.map_map]
  rfl

/-- Apart from their order the subscribers of a topic are the keys of the clients that are interested
in it. -/
theorem subscribers_perm (h : s.Sound) {t : Topic} (ht : t ∈ s.topics.values) :
    t.subscribers.Perm ((s.clients.map Client.key).filter fun key =>
      (s.clientAt key).any fun c => c.filters.any fun f => Filter.covers f t.name) := by
  refine (List.perm_ext_iff_of_nodup (h.joined.nodup t ht) (h.wellFormed.keys_nodup.filter _)).mpr ?_
  intro key
  rw [h.joined.mem_iff t ht, List.mem_filter, Option.any_eq_true]
  constructor
  · rintro ⟨c, hc, hkey, hwants⟩
    exact ⟨List.mem_map.mpr ⟨c, hc, hkey⟩, c,
      (Topology.clientAt_eq_some_iff h.wellFormed).mpr ⟨hc, hkey⟩, hwants⟩
  · rintro ⟨-, c, hfind, hwants⟩
    obtain ⟨hc, hkey⟩ := (Topology.clientAt_eq_some_iff h.wellFormed).mp hfind
    exact ⟨c, hc, hkey, hwants⟩

/-- The document of a topology that keeps its counts and lists right is consistent. -/
theorem consistent_render (h : s.Sound) : Consistent s (render s) where
  addresses_nodup := by
    show ((s.hosts.values.map AddressNode.ofHost).map AddressNode.id).Nodup
    rw [List.map_map]
    exact h.wellFormed.hosts.names_nodup
  clients_ne_nil := by
    intro a ha
    obtain ⟨host, hhost, rfl⟩ := List.mem_map.mp ha
    exact fun hnil => (h.wellFormed.host host hhost).nonempty (List.map_eq_nil_iff.mp hnil)
  clients_nodup := by
    intro a ha
    obtain ⟨host, hhost, rfl⟩ := List.mem_map.mp ha
    rw [AddressNode.ofHost, List.map_map]
    exact (h.wellFormed.host host hhost).clients.names_nodup
  topics_nodup := by
    show ((s.topics.values.map TopicNode.ofTopic).map TopicNode.name).Nodup
    rw [List.map_map]
    exact h.wellFormed.topics.names_nodup
  published_nodup := by
    intro a ha node hnode
    obtain ⟨host, hhost, rfl⟩ := List.mem_map.mp ha
    obtain ⟨c, hc, rfl⟩ := List.mem_map.mp hnode
    rw [published_ofClient]
    exact ((h.wellFormed.host host hhost).client c hc).publications_nodup
  published_listed := by
    intro topic hedge
    rw [published_render] at hedge
    obtain ⟨t, ht, hname⟩ := h.counted.listed topic hedge
    exact ⟨_, List.mem_map_of_mem ht, hname⟩
  publishers_eq := by
    intro node hnode
    obtain ⟨t, ht, rfl⟩ := List.mem_map.mp hnode
    refine ⟨t, h.wellFormed.topics.find?_eq_some_iff.mpr ⟨ht, rfl⟩, ?_⟩
    rw [published_render, h.counted.publishers_eq t ht]
    rfl
  clients_found := by
    intro key hkey
    rw [keys_render h.wellFormed] at hkey
    obtain ⟨c, hc, rfl⟩ := List.mem_map.mp hkey
    exact ⟨c, (Topology.clientAt_eq_some_iff h.wellFormed).mpr ⟨hc, rfl⟩⟩
  subscriptions_eq := by
    intro node hnode name
    obtain ⟨t, ht, rfl⟩ := List.mem_map.mp hnode
    have hperm := (subscribers_perm h ht).filter fun key => key.id == name
    rw [clients_ofTopic, interestedNamed, keys_render h.wellFormed, List.count, List.countP_map,
      List.countP_eq_length_filter]
    refine hperm.length_eq.trans ?_
    rw [List.filter_filter]
    rfl
  rates_eq := by
    intro node hnode e he
    obtain ⟨t, -, rfl⟩ := List.mem_map.mp hnode
    obtain ⟨key, -, rfl⟩ := List.mem_map.mp he
    rfl

/-! ## Every run -/

/-- After every run the document of the topology is consistent. -/
theorem consistent_render_run (idleBudget : Nat) (ops : List Topology.Operation) :
    Consistent ((Topology.empty idleBudget).run ops)
      (render ((Topology.empty idleBudget).run ops)) :=
  consistent_render ((Topology.sound_empty idleBudget).run ops)

/-- Two clients of one name, at two addresses, are interested in one topic. -/
def namesakes : Topology :=
  (Topology.empty 3).run
    [.addClient "10.0.0.1" "c" none, .addClient "10.0.0.2" "c" none,
      .addSubscription "c" "10.0.0.1" "a/#", .addSubscription "c" "10.0.0.2" "+/b",
      .addPublish "c" "10.0.0.1" "a/b" false 5]

/-- A document shows one subscription for each of them. -/
example :
    (render namesakes).topics.map (fun t => t.subscriptions.map Subscription.client) = [["c", "c"]] ∧
      ((render namesakes).interestedNamed namesakes "c" "a/b").length = 2 := by
  decide +kernel

end Snapshot

end BrokerTopology
