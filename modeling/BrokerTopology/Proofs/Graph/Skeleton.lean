import BrokerTopology.Graph.Render
import BrokerTopology.Proofs.Graph.Publishers
/-!
# The skeleton of a document

The skeleton of a document are its nodes and edges in their order: the addresses, the clients with
their bridges, the topics that they publish to, the topics and the clients that these are delivered
to. Rates, latencies and retain flags are left out.

The flag of change is set by hand in every operation. This file shows that none forgets it: after an
operation either the flag is set, or the document of the topology has the skeleton it had before. The
order counts, so here the dictionaries are compared in their layout, and not up to a permutation.
-/

namespace BrokerTopology

/-! ## Skeletons of documents -/

namespace Snapshot

/-- A publication without its rate. -/
def Publication.skeleton (p : Publication) : Publication :=
  { p with rate := 0 }

/-- A client without its latency and the rates of its publications. -/
def ClientNode.skeleton (c : ClientNode) : ClientNode :=
  { c with latency := none, published := c.published.map Publication.skeleton }

/-- An address with the skeletons of its clients. -/
def AddressNode.skeleton (a : AddressNode) : AddressNode :=
  { a with clients := a.clients.map ClientNode.skeleton }

/-- A subscription without its rate. -/
def Subscription.skeleton (s : Subscription) : Subscription :=
  { s with rate := 0 }

/-- A topic without its retain flag and its rates. -/
def TopicNode.skeleton (t : TopicNode) : TopicNode :=
  { t with retain := false, rate := 0, subscriptions := t.subscriptions.map Subscription.skeleton }

/-- The nodes and edges of a document. -/
def skeleton (d : Snapshot) : Snapshot :=
  ⟨d.addresses.map AddressNode.skeleton, d.topics.map TopicNode.skeleton⟩

/-! ## Skeletons of rendered nodes -/

/-- The skeleton of a client shows its id, its bridge and its publications. -/
theorem ClientNode.skeleton_ofClient (c : Client) :
    (ofClient c).skeleton = ⟨c.id, none, c.bridge, c.publications.map fun topic => ⟨topic, 0⟩⟩ := by
  simp [skeleton, ofClient, Publication.skeleton, Publication.ofEdge, Client.publications]

/-- The skeleton of an address shows its clients. -/
theorem AddressNode.skeleton_ofHost (h : Host) :
    (ofHost h).skeleton =
      ⟨h.address, h.clients.values.map fun c => (ClientNode.ofClient c).skeleton⟩ := by
  simp [skeleton, ofHost]

/-- The skeleton of a topic shows its name and its subscribers. -/
theorem TopicNode.skeleton_ofTopic (t : Topic) :
    (ofTopic t).skeleton = ⟨t.name, false, 0, t.subscribers.map fun k => ⟨k.id, 0⟩⟩ := by
  simp [skeleton, ofTopic, Subscription.skeleton]

/-- Clients that agree in id, bridge and publications have one skeleton. -/
theorem ClientNode.skeleton_congr {c c' : Client} (hid : c'.id = c.id) (hbridge : c'.bridge = c.bridge)
    (hedges : c'.publications = c.publications) : (ofClient c').skeleton = (ofClient c).skeleton := by
  rw [skeleton_ofClient, skeleton_ofClient, hid, hbridge, hedges]

/-- Topics that agree in name and subscribers have one skeleton. -/
theorem TopicNode.skeleton_congr {t t' : Topic} (hname : t'.name = t.name)
    (hsubscribers : t'.subscribers = t.subscribers) : (ofTopic t').skeleton = (ofTopic t).skeleton := by
  rw [skeleton_ofTopic, skeleton_ofTopic, hname, hsubscribers]

end Snapshot

open Snapshot

/-- The skeletons of the addresses of a dictionary. -/
def Dict.addressSkeletons (hosts : Dict Host) : List AddressNode :=
  hosts.values.map fun h => (AddressNode.ofHost h).skeleton

/-- The skeletons of the topics of a dictionary. -/
def Dict.topicSkeletons (topics : Dict Topic) : List TopicNode :=
  topics.values.map fun t => (TopicNode.ofTopic t).skeleton

namespace Topology

/-- The nodes and edges that a document of the topology shows. -/
def skeleton (s : Topology) : Snapshot :=
  (render s).skeleton

theorem skeleton_eq (s : Topology) :
    s.skeleton = ⟨s.hosts.addressSkeletons, s.topics.topicSkeletons⟩ := by
  simp [skeleton, render, Snapshot.skeleton, Dict.addressSkeletons, Dict.topicSkeletons]

/-! ## What the flag of change announces -/

/-- A change is announced when it sets the flag, unless it leaves both the flag and the skeleton as
they were. -/
def Announced (s s' : Topology) : Prop :=
  s'.changed = true ∨ s'.changed = s.changed ∧ s'.skeleton = s.skeleton

variable {s : Topology} {address id topic filter : String} {c : Client}

/-- Nothing is announced where nothing changes. -/
theorem Announced.refl (s : Topology) : Announced s s :=
  Or.inr ⟨rfl, rfl⟩

/-- A flag that is set if something is seen announces a change that otherwise does not show. -/
theorem Announced.of_flag {s' : Topology} {seen : Bool} (hchanged : s'.changed = (s.changed || seen))
    (hsame : seen = false → s'.skeleton = s.skeleton) : Announced s s' := by
  cases seen with
  | true => exact Or.inl (by rw [hchanged, Bool.or_true])
  | false => exact Or.inr ⟨by rw [hchanged, Bool.or_false], hsame rfl⟩

/-! ## Changes that do not show -/

/-- A change of the found client that a way of showing clients leaves out keeps the addresses as they
are shown. -/
theorem addressNodes_modifyClient (hs : s.WellFormed) (hfind : s.client? address id = some c)
    {f : Client → Client} {node : Client → ClientNode} (hnode : node (f c) = node c) :
    ((s.modifyClient address id f).hosts.values.map fun h =>
        AddressNode.mk h.address (h.clients.values.map node)) =
      s.hosts.values.map fun h => AddressNode.mk h.address (h.clients.values.map node) := by
  obtain ⟨hc, hkey⟩ := (client?_eq_some_iff hs).mp hfind
  rw [modifyClient, hs.hosts.values_modify, List.map_map]
  refine List.map_congr_left fun h hh => ?_
  have hhost := hs.host h hh
  rw [Function.comp]
  split
  · rename_i haddress
    rw [hhost.clients.values_modify, List.map_map]
    refine congrArg (AddressNode.mk h.address) (List.map_congr_left fun w hw => ?_)
    rw [Function.comp]
    split
    · -- no other client has the key
      rename_i hsame
      have hwkey : w.key = ⟨address, id⟩ := by
        rw [Client.key, hhost.address_eq w hw, haddress, hsame]
      rw [hs.eq_of_key_eq (mem_clients_iff.mpr ⟨h, hh, hw⟩) hc (hwkey.trans hkey.symm)]
      exact hnode
    · rfl
  · rfl

/-- A change of the found client in what a skeleton leaves out keeps the skeletons. -/
theorem addressSkeletons_modifyClient (hs : s.WellFormed) (hfind : s.client? address id = some c)
    {f : Client → Client} (hid : (f c).id = c.id) (hbridge : (f c).bridge = c.bridge)
    (hedges : (f c).publications = c.publications) :
    (s.modifyClient address id f).hosts.addressSkeletons = s.hosts.addressSkeletons := by
  simp only [Dict.addressSkeletons, AddressNode.skeleton_ofHost]
  exact addressNodes_modifyClient hs hfind (ClientNode.skeleton_congr hid hbridge hedges)

/-- A change of the topics in what a skeleton leaves out keeps the skeletons. -/
theorem topicSkeletons_of_map {topics topics' : Dict Topic} {f : Topic → Topic}
    (hvalues : topics'.values = topics.values.map f)
    (hsame : ∀ t ∈ topics.values, (f t).name = t.name ∧ (f t).subscribers = t.subscribers) :
    topics'.topicSkeletons = topics.topicSkeletons := by
  rw [Dict.topicSkeletons, hvalues, List.map_map]
  refine List.map_congr_left fun t ht => ?_
  obtain ⟨hname, hsubscribers⟩ := hsame t ht
  exact TopicNode.skeleton_congr hname hsubscribers

/-! ## Every operation announces its changes -/

theorem announced_addClient (hs : s.WellFormed) (address id : String) (bridge : Option String) :
    Announced s (s.addClient address id bridge).2 := by
  cases hfind : s.client? address id with
  | some c =>
    rw [addClient_of_client? hfind]
    exact .refl s
  | none =>
    obtain ⟨s', hanswer, -, -, -, -, hchanged⟩ := addClient_spec hs hfind bridge
    rw [hanswer]
    exact Or.inl hchanged

theorem announced_removeClient (hs : s.WellFormed) (id address : String) :
    Announced s (s.removeClient id address).2 := by
  cases hfind : s.client? address id with
  | none =>
    obtain ⟨e, he⟩ := removeClient_of_client?_eq_none hfind
    rw [he]
    exact .refl s
  | some c =>
    obtain ⟨s', hanswer, -, -, -, -, hchanged⟩ := removeClient_spec hs hfind
    rw [hanswer]
    exact Or.inl hchanged

/-- A publication along a known edge reaches a topic that is listed, since every edge names one. -/
theorem announced_addPublish (hs : s.WellFormed) (hcounted : Counted s.topics.values s.publications)
    (id address topic : String) (retain : Bool) (bytes : Nat) :
    Announced s (s.addPublish id address topic retain bytes).2 := by
  cases hfind : s.client? address id with
  | none =>
    obtain ⟨e, he⟩ := addPublish_of_client?_eq_none hfind topic retain bytes
    rw [he]
    exact .refl s
  | some c =>
    have hc := (client?_eq_some_iff hs).mp hfind
    have hwf : c.WellFormed := hs.client hc.1
    cases hedge : c.published.contains topic with
    | false =>
      obtain ⟨s', published, topics, hanswer, -, -, -, -, -, -, hchanged, -⟩ :=
        addPublish_spec hs hfind topic retain bytes
      rw [hanswer]
      refine Or.inl (hchanged.trans ?_)
      rw [hedge, Bool.not_false, Bool.or_true]
    | true =>
      have hlisted : s.topics.contains topic = true := by
        refine hs.topics.contains_iff.mpr (hcounted.listed topic ?_)
        exact List.mem_flatMap.mpr ⟨c, hc.1, hwf.mem_publications_iff.mpr hedge⟩
      rw [addPublish_of_known hfind hedge hlisted]
      refine Announced.of_flag rfl fun _ => ?_
      have hedges : (c.published.modify topic fun e => e.send s.idleBudget bytes).values.map
          Edge.topic = c.publications := by
        rw [hwf.published.values_modify, List.map_map]
        refine List.map_congr_left fun e _ => ?_
        rw [Function.comp]
        split
        · rfl
        · rfl
      rw [skeleton_eq, skeleton_eq]
      refine congrArg₂ Snapshot.mk ?_ ?_
      · exact addressSkeletons_modifyClient hs hfind rfl rfl hedges
      · refine topicSkeletons_of_map (hs.topics.values_modify _ _) fun t _ => ?_
        split
        · exact ⟨rfl, rfl⟩
        · exact ⟨rfl, rfl⟩

theorem announced_addSubscription (hs : s.WellFormed) (id address filter : String) :
    Announced s (s.addSubscription id address filter).2 := by
  cases hfind : s.client? address id with
  | none =>
    obtain ⟨e, he⟩ := addSubscription_of_client?_eq_none hfind filter
    rw [he]
    exact .refl s
  | some c =>
    by_cases hmem : filter ∈ c.filters
    · rw [addSubscription_of_mem hfind hmem]
      exact .refl s
    · rw [addSubscription_of_not_mem hfind hmem]
      refine Announced.of_flag rfl fun hnone => ?_
      rw [skeleton_eq, skeleton_eq]
      refine congrArg₂ Snapshot.mk ?_ ?_
      · exact addressSkeletons_modifyClient hs hfind rfl rfl rfl
      · refine topicSkeletons_of_map (Dict.values_map _ _) fun t ht => ?_
        -- every topic that the filter covers is delivered to the client already
        have hgain := List.any_eq_false.mp hnone t ht
        refine ⟨name_gained filter c.key t, ?_⟩
        rw [gained]
        split
        · rename_i hcovers
          have hknown : t.hasSubscriber c.key = true := by simpa [hcovers] using hgain
          rw [Topic.addSubscriber_of_hasSubscriber hknown]
        · rfl

theorem announced_removeSubscription (hs : s.WellFormed) (id address filter : String) :
    Announced s (s.removeSubscription id address filter).2 := by
  cases hfind : s.client? address id with
  | none =>
    obtain ⟨e, he⟩ := removeSubscription_of_client?_eq_none hfind filter
    rw [he]
    exact .refl s
  | some c =>
    by_cases hmem : filter ∈ c.filters
    · rw [removeSubscription_of_mem hfind hmem]
      refine Announced.of_flag rfl fun hnone => ?_
      rw [skeleton_eq, skeleton_eq]
      refine congrArg₂ Snapshot.mk ?_ ?_
      · exact addressSkeletons_modifyClient hs hfind rfl rfl rfl
      · refine topicSkeletons_of_map (Dict.values_map _ _) fun t ht => ?_
        -- no topic that loses the client has listed it
        have hloss := List.any_eq_false.mp hnone t ht
        refine ⟨name_lost filter _ t, ?_⟩
        rw [lost]
        split
        · rename_i hlost
          have habsent : c.key ∉ t.subscribers := by
            simpa [hlost, Topic.hasSubscriber] using hloss
          refine List.filter_eq_self.mpr fun key hkey => ?_
          rw [bne_iff_ne]
          rintro rfl
          exact habsent hkey
        · rfl
    · rw [removeSubscription_of_not_mem hfind hmem]
      exact .refl s

theorem announced_startProbe (hs : s.WellFormed) (id address : String) (now : Nat) :
    Announced s (s.startProbe id address now).2 := by
  cases hfind : s.client? address id with
  | none =>
    obtain ⟨e, he⟩ := startProbe_of_client?_eq_none hfind now
    rw [he]
    exact .refl s
  | some c =>
    rw [startProbe_of_client? hfind]
    refine Or.inr ⟨rfl, ?_⟩
    rw [skeleton_eq, skeleton_eq, addressSkeletons_modifyClient hs hfind rfl rfl rfl]
    rfl

theorem announced_finishProbe (hs : s.WellFormed) (id address : String) (now : Nat) :
    Announced s (s.finishProbe id address now).2 := by
  cases hfind : s.client? address id with
  | none =>
    obtain ⟨e, he⟩ := finishProbe_of_client?_eq_none hfind now
    rw [he]
    exact .refl s
  | some c =>
    cases hpending : c.latency.pending with
    | none =>
      rw [finishProbe_of_pending_eq_none hfind hpending]
      exact .refl s
    | some started =>
      rw [finishProbe_of_pending hfind hpending]
      refine Or.inr ⟨rfl, ?_⟩
      rw [skeleton_eq, skeleton_eq, addressSkeletons_modifyClient hs hfind rfl rfl rfl]
      rfl

/-! ## Samples -/

/-- A client of which no edge expires keeps its publications, in their order. -/
theorem publications_sampled_of_expired_eq_nil {secs : Float}
    (h : (c.sampled secs).expired = []) : (c.sampled secs).client.publications = c.publications := by
  have hremoved : ((c.published.map (Edge.sampled secs)).removeIf Edge.isExpired).removed = [] :=
    List.map_eq_nil_iff.mp h
  have hvalues : (c.sampled secs).client.published.values =
      (c.published.map (Edge.sampled secs)).values :=
    congrArg (List.map Dict.Entry.value) (Dict.entries_removeIf_of_removed_eq_nil hremoved)
  rw [Client.publications, hvalues, Dict.values_map, List.map_map]
  rfl

/-- Where no edge expires, the addresses keep their skeletons. -/
theorem addressSkeletons_sampledHosts {secs : Float} (h : s.expiredEdges secs = []) :
    (s.sampledHosts secs).addressSkeletons = s.hosts.addressSkeletons := by
  have hclients : ∀ c ∈ s.clients, (c.sampled secs).expired = [] := List.flatMap_eq_nil_iff.mp h
  rw [Dict.addressSkeletons, sampledHosts, Dict.values_map, List.map_map]
  refine List.map_congr_left fun host hhost => ?_
  rw [Function.comp, AddressNode.skeleton_ofHost, AddressNode.skeleton_ofHost, Dict.values_map,
    List.map_map]
  refine congrArg (AddressNode.mk host.address) (List.map_congr_left fun c hc => ?_)
  have hexpired := hclients c (mem_clients_iff.mpr ⟨host, hhost, hc⟩)
  exact ClientNode.skeleton_congr rfl rfl (publications_sampled_of_expired_eq_nil hexpired)

/-- Where no edge expires and no topic goes, the topics stay in their order. -/
theorem values_swept {secs : Float} (hexpired : s.expiredEdges secs = [])
    (hremoved : (s.swept secs).removed = []) : (s.swept secs).dict.values = s.topics.values := by
  have hdetached : detachAll s.idleBudget s.topics (s.expiredEdges secs) = s.topics := by
    rw [hexpired]
    rfl
  have hentries : (s.swept secs).dict.entries = s.topics.entries :=
    (Dict.entries_removeIf_of_removed_eq_nil hremoved).trans (congrArg Dict.entries hdetached)
  exact congrArg (List.map Dict.Entry.value) hentries

/-- A sample that reports no change has neither let an edge expire nor removed a topic. -/
theorem quiet_of_changed_eq_false {secs : Float} (h : isEffective secs = true)
    (hquiet : (s.sample secs).1.changed = false) :
    s.expiredEdges secs = [] ∧ (s.swept secs).removed = [] := by
  rw [sample, if_pos h] at hquiet
  simp only [Bool.or_eq_false_iff, Bool.not_eq_false', List.isEmpty_iff] at hquiet
  exact ⟨hquiet.1.2, hquiet.2⟩

theorem announced_sample (s : Topology) (secs : Float) : Announced s (s.sample secs).2 := by
  cases heffective : isEffective secs with
  | false =>
    rw [sample_of_not_effective heffective]
    exact .refl s
  | true =>
    rw [sample_of_effective heffective]
    refine Announced.of_flag rfl fun hquiet => ?_
    obtain ⟨hexpired, hremoved⟩ := quiet_of_changed_eq_false heffective hquiet
    rw [skeleton_eq, skeleton_eq]
    refine congrArg₂ Snapshot.mk (addressSkeletons_sampledHosts hexpired) ?_
    refine topicSkeletons_of_map (f := fun t => t.drain.sampled secs) ?_ fun t _ => ?_
    · rw [Dict.values_map, Dict.values_map, List.map_map, values_swept hexpired hremoved]
      rfl
    · exact ⟨Topic.name_drain, Topic.subscribers_drain⟩

/-! ## All operations -/

/-- Every operation announces its changes, but the one that takes the flag back. -/
theorem announced_apply (hs : s.WellFormed) (hcounted : Counted s.topics.values s.publications)
    {op : Operation} (hop : op ≠ .takeChanged) : Announced s (op.apply s) := by
  cases op with
  | addClient address id bridge => exact announced_addClient hs address id bridge
  | removeClient id address => exact announced_removeClient hs id address
  | addPublish id address topic retain bytes =>
    exact announced_addPublish hs hcounted id address topic retain bytes
  | addSubscription id address filter => exact announced_addSubscription hs id address filter
  | removeSubscription id address filter => exact announced_removeSubscription hs id address filter
  | startProbe id address now => exact announced_startProbe hs id address now
  | finishProbe id address now => exact announced_finishProbe hs id address now
  | sample secs => exact announced_sample s secs
  | takeChanged => exact absurd rfl hop

end Topology

end BrokerTopology
