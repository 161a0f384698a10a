import BrokerTopology.Proofs.Graph.Refusals
/-!
# What a client leaves behind

A client that disconnects is named all over the topology: by its host, by every topic that lists it as
a subscriber, and by the count of every topic to which it has an edge. This file says that all of these
forget it, and that nothing else changes: the topics stay with what they keep by themselves, and the
other clients stay whole, whatever addresses, ids and topics they share with the one that goes.

Main statement: `departure_run`.
-/

namespace BrokerTopology

/-! ## A topic that a client leaves -/

/-- A topic before and after a client has left it. The client is no longer a subscriber. If it had an
edge to the topic, there is one publisher less, and with the last one the topic begins to drain. -/
structure Topic.LeftBy (budget : Nat) (c : Client) (t t' : Topic) : Prop where
  name : t'.name = t.name
  retain : t'.retain = t.retain
  bytes : t'.bytes = t.bytes
  rate : t'.rate = t.rate
  subscribers : t'.subscribers = t.subscribers.filter (· != c.key)
  detached : c.published.contains t.name = true →
    t'.publishers + 1 = t.publishers ∧
      t'.state = if t'.publishers = 0 then .draining (if t.retain then budget else 0) else .active
  untouched : c.published.contains t.name = false →
    t'.publishers = t.publishers ∧ t'.state = t.state

/-- Taking out the subscriber and detaching its edge, if there is one, leaves the topic as it should
be. A topic with an edge has been active. -/
theorem Topic.leftBy {c : Client} (hc : c.WellFormed) (budget : Nat) {t : Topic}
    (hactive : t.state = .active ↔ 0 < t.publishers)
    (hpublisher : c.published.contains t.name = true → 0 < t.publishers) :
    LeftBy budget c t
      ((t.removeSubscriber c.key).detachTimes budget (c.publications.count t.name)) := by
  rw [hc.count_publications]
  cases hedge : c.published.contains t.name with
  | false =>
    refine ⟨rfl, rfl, rfl, rfl, rfl, fun h => ?_, fun _ => ⟨rfl, rfl⟩⟩
    exact absurd (hedge.symm.trans h) Bool.false_ne_true
  | true =>
    have hsome := hpublisher hedge
    refine ⟨rfl, rfl, rfl, rfl, rfl, fun _ => ⟨Nat.sub_add_cancel hsome, ?_⟩, fun h => ?_⟩
    · -- while publishers are left, the topic stays as active as it has been
      rw [← hactive.mpr hsome]
      rfl
    · exact absurd (h.symm.trans hedge) Bool.false_ne_true

namespace Topology

variable {s s' : Topology} {c : Client}

/-! ## Addresses with a client -/

/-- An address is listed if a client is connected from there. -/
theorem contains_hosts_iff (hs : s.WellFormed) {address : String} :
    s.hosts.contains address = true ↔ ∃ d ∈ s.clients, d.address = address := by
  rw [Dict.contains, Option.isSome_iff_ne_none, ne_eq, find?_hosts_eq_none_iff hs]
  push Not
  rfl

/-- The clients that stay are those with another key. -/
theorem mem_clients_of_removed (hs : s.WellFormed) (hperm : s.clients.Perm (c :: s'.clients))
    {d : Client} : d ∈ s'.clients ↔ d ∈ s.clients ∧ d.key ≠ c.key := by
  have hnodup := (hperm.map Client.key).nodup_iff.mp hs.keys_nodup
  rw [hperm.mem_iff, List.mem_cons]
  constructor
  · intro hd
    refine ⟨Or.inr hd, fun hkey => ?_⟩
    exact not_keyed_self (P := fun _ => True) hnodup ⟨d, hd, hkey, trivial⟩
  · rintro ⟨rfl | hd, hother⟩
    · exact absurd rfl hother
    · exact hd

/-! ## The topology that a client leaves -/

/-- A topology before and after a client has left it. -/
structure LeftBy (c : Client) (s s' : Topology) : Prop where
  /-- The client is gone. -/
  gone : s'.clientAt c.key = none
  /-- Every other client is found as before, with its bridge, filters, edges and latency. -/
  others : ∀ key, key ≠ c.key → s'.clientAt key = s.clientAt key
  /-- The addresses are those from which another client is connected. -/
  hosts : ∀ address, s'.hosts.contains address = true ↔
    ∃ d ∈ s.clients, d.address = address ∧ d.key ≠ c.key
  /-- The topics are the same ones, in the same order, and each is left by the client. -/
  topics : List.Forall₂ (Topic.LeftBy s.idleBudget c) s.topics.values s'.topics.values
  /-- No topic lists the client as a subscriber. -/
  unlisted : ∀ t ∈ s'.topics.values, c.key ∉ t.subscribers
  idleBudget : s'.idleBudget = s.idleBudget
  changed : s'.changed = true

/-- A client that is known may disconnect, and leaves the topology as it should. -/
theorem removeClient_leftBy (h : s.Sound) (hfind : s.clientAt c.key = some c) :
    ∃ s', s.removeClient c.id c.address = (.ok .applied, s') ∧ LeftBy c s s' := by
  have hs := h.wellFormed
  obtain ⟨hmem, -⟩ := (clientAt_eq_some_iff hs).mp hfind
  have hc := hs.client hmem
  obtain ⟨s', hanswer, hs', hclients, htopics, hbudget, hchanged⟩ := removeClient_spec hs hfind
  have hclientAt := clientAt_of_removed hs hs' hclients rfl
  refine ⟨s', hanswer, ?_, fun key hother => ?_, fun address => ?_, ?_, fun t' ht' => ?_, hbudget,
    hchanged⟩
  · rw [hclientAt, if_pos rfl]
  · rw [hclientAt, if_neg hother]
  · rw [contains_hosts_iff hs']
    refine exists_congr fun d => ?_
    rw [mem_clients_of_removed hs hclients, and_assoc, and_comm (a := d.key ≠ c.key)]
  · rw [htopics, List.forall₂_map_right_iff, List.forall₂_same]
    intro t ht
    exact Topic.leftBy hc s.idleBudget (h.counted.active_iff t ht)
      (publishers_pos hs h.counted hmem ht)
  · rw [htopics] at ht'
    obtain ⟨t, -, rfl⟩ := List.mem_map.mp ht'
    rw [Topic.subscribers_detachTimes, Topic.mem_removeSubscriber]
    exact fun hlisted => hlisted.2 rfl

/-- After every run, a client that is found may disconnect. It is gone then, and its address with it if
nobody else is connected from there; no topic lists it, and every topic to which it had an edge counts
one publisher less and drains if that was the last; all other counts and states, the other clients, and
what the topics keep by themselves stay as they were, and no topic comes or goes. -/
theorem departure_run {idleBudget : Nat} {ops : List Operation} {address id : String} {c : Client}
    (hfind : ((empty idleBudget).run ops).client? address id = some c) :
    ∃ s', ((empty idleBudget).run ops).removeClient id address = (.ok .applied, s') ∧
      c.key = ⟨address, id⟩ ∧ LeftBy c ((empty idleBudget).run ops) s' := by
  have h : ((empty idleBudget).run ops).Sound := (sound_empty idleBudget).run ops
  obtain ⟨-, hkey⟩ := (client?_eq_some_iff h.wellFormed).mp hfind
  obtain ⟨rfl, rfl⟩ := ClientKey.mk.inj hkey
  obtain ⟨s', hanswer, hleft⟩ := removeClient_leftBy h hfind
  exact ⟨s', hanswer, rfl, hleft⟩

/-- Three clients share an address, an id and retained topics, one of which only the first publishes to. -/
def sharing : List Operation :=
  [.addClient "10.0.0.1" "p" none, .addClient "10.0.0.1" "q" none, .addClient "10.0.0.2" "p" none,
    .addSubscription "p" "10.0.0.1" "#", .addSubscription "p" "10.0.0.2" "a/#",
    .addPublish "p" "10.0.0.1" "a/b" true 5, .addPublish "q" "10.0.0.1" "a/b" true 5,
    .addPublish "p" "10.0.0.1" "a/c" true 5]

/-- When the first one leaves, its address stays, the topic of its own drains with the whole budget, and
the other topic stays active for the sake of the second. -/
theorem departure_run_sharing :
    ∃ c s', ((empty 3).run sharing).client? "10.0.0.1" "p" = some c ∧
      ((empty 3).run sharing).removeClient "p" "10.0.0.1" = (.ok .applied, s') ∧
      LeftBy c ((empty 3).run sharing) s' ∧ s'.hosts.contains "10.0.0.1" = true ∧
      s'.topics.values.map (fun t => (t.name, t.publishers, t.state)) =
        [("a/c", 0, .draining 3), ("a/b", 1, .active)] := by
  have hknown : (((empty 3).run sharing).client? "10.0.0.1" "p").isSome = true := by decide +kernel
  obtain ⟨c, hfind⟩ := Option.isSome_iff_exists.mp hknown
  obtain ⟨s', hanswer, -, hleft⟩ := departure_run hfind
  have hs' : s' = (((empty 3).run sharing).removeClient "p" "10.0.0.1").2 := by rw [hanswer]
  refine ⟨c, s', hfind, hanswer, hleft, ?_, ?_⟩
  · rw [hs']
    decide +kernel
  · rw [hs']
    decide +kernel

end Topology

end BrokerTopology
