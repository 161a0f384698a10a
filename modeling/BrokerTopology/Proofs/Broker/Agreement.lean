import BrokerTopology.Proofs.Broker.Run
import BrokerTopology.Proofs.Graph.Members
import BrokerTopology.Proofs.Graph.Subscribers
/-!
# The graph agrees with the broker

The broker keeps its clients and their filters in tables, and reports every change to the graph,
which keeps them a second time. In a run in which no id connects twice at a time the two agree: the
graph has the connected clients with the filters of the tables, and the subscribers that it lists
with a topic are the clients to which the broker delivers a message on the topic.

The invariant `Agrees` relates a topology to the tables of a broker. An operation of the topology
and the change of the tables that goes with it may be looked at one after the other.
-/

namespace BrokerTopology

/-- The key under which the graph knows a connected client. -/
def Connection.key (c : Connection) : ClientKey :=
  ⟨c.address, c.id⟩

namespace Broker

open BrokerTopology.Topology

/-! ## The relation -/

/-- A topic to which a publication is accepted and recorded in the graph. -/
structure Publishable (settings : GraphSettings) (topic : String) : Prop where
  valid : TopicName.isValid topic = true
  ordinary : TopicName.isSystem topic = false
  ne_latency : topic ≠ settings.latencyTopic

/-- The members of a topology are the connected clients with their filters, and its topics are those
to which publications are accepted. -/
structure Agrees (s : Topology) (b : Broker) : Prop where
  wellFormed : s.WellFormed
  joined : Joined s.topics.values s.clients
  member_iff : ∀ key filters, s.Member key filters ↔
    b.addressOf key.id = some key.address ∧ b.filtersOf key.id = filters
  publishable : ∀ t ∈ s.topics.values, Publishable b.settings t.name

variable {s : Topology} {b b' : Broker} {id address topic filter : String}

namespace Agrees

/-- A connected client is found in the topology, with its filters. -/
theorem client? (h : Agrees s b) (haddress : b.addressOf id = some address) :
    ∃ c, s.client? address id = some c ∧ c.filters = b.filtersOf id := by
  obtain ⟨c, hc, hkey, hfilters⟩ := (h.member_iff ⟨address, id⟩ (b.filtersOf id)).mpr ⟨haddress, rfl⟩
  exact ⟨c, (client?_eq_some_iff h.wellFormed).mpr ⟨hc, hkey⟩, hfilters⟩

/-- A client that is not connected is not found in the topology. -/
theorem client?_eq_none (h : Agrees s b) (hnone : b.addressOf id = none) (address : String) :
    s.client? address id = none := by
  rw [client?_eq_none_iff h.wellFormed]
  intro c hc hkey
  have hmember := (h.member_iff c.key c.filters).mp ⟨c, hc, rfl, rfl⟩
  rw [hkey, hnone] at hmember
  cases hmember.1

/-- An operation keeps the agreement, if the members are those of the new tables after it and a
publication is one that the broker accepts. -/
theorem apply (h : Agrees s b) (op : Operation) (hsettings : b'.settings = b.settings)
    (hpublish : ∀ id address topic retain bytes, op = .addPublish id address topic retain bytes →
      Publishable b.settings topic)
    (hmember : ∀ key filters, (op.apply s).Member key filters ↔
      b'.addressOf key.id = some key.address ∧ b'.filtersOf key.id = filters) :
    Agrees (op.apply s) b' := by
  obtain ⟨hwf, heffect⟩ := apply_spec h.wellFormed op
  refine ⟨hwf, joined_of_effect h.wellFormed heffect h.joined, hmember, fun t' ht' => ?_⟩
  rw [hsettings]
  rcases heffect.listed h.wellFormed t' ht' with ⟨t, ht, hname⟩ | ⟨id, address, retain, bytes, hop⟩
  · rw [← hname]
    exact h.publishable t ht
  · exact hpublish id address t'.name retain bytes hop

/-- An operation that concerns neither connections nor subscriptions leaves the tables alone. -/
theorem apply_of_sameTables (h : Agrees s b) (op : Operation) (hop : op.keepsMembers = true)
    (hsame : SameTables b b')
    (hpublish : ∀ id address topic retain bytes, op = .addPublish id address topic retain bytes →
      Publishable b.settings topic) : Agrees (op.apply s) b' := by
  obtain ⟨-, heffect⟩ := apply_spec h.wellFormed op
  refine h.apply op hsame.settings hpublish fun key filters => ?_
  rw [heffect.member_iff hop, hsame.addressOf_eq, hsame.filtersOf_eq]
  exact h.member_iff key filters

/-- Changes of the broker outside of the tables do not matter. -/
theorem of_sameTables (h : Agrees s b) (hsame : SameTables b b') : Agrees s b' where
  wellFormed := h.wellFormed
  joined := h.joined
  member_iff := by
    intro key filters
    rw [hsame.addressOf_eq, hsame.filtersOf_eq]
    exact h.member_iff key filters
  publishable := by
    rw [hsame.settings]
    exact h.publishable

end Agrees

/-- A new broker agrees with its topology. -/
theorem agrees_new (settings : GraphSettings) (start : Nat) :
    Agrees (new settings start).topology (new settings start) where
  wellFormed := wellFormed_empty settings.idleBudget
  joined := .nil _
  member_iff := by
    intro key filters
    constructor
    · rintro ⟨c, hc, -⟩
      cases hc
    · rintro ⟨haddress, -⟩
      cases haddress
  publishable := fun t ht => by cases ht

/-! ## Connecting and disconnecting -/

/-- A client that is not connected has no filters. -/
theorem filtersOf_eq_nil (hb : b.WellFormed) (hnew : b.connections.contains id = false) :
    b.filtersOf id = [] := by
  cases hfilters : b.filtersOf id with
  | nil => rfl
  | cons f fs =>
    have hmem : f ∈ b.filtersOf id := by rw [hfilters]; exact List.mem_cons_self
    rw [hb.connected id (contains_subscriptions_of_mem hmem)] at hnew
    cases hnew

/-- A client that is not connected has no address. -/
theorem addressOf_eq_none (hnew : b.connections.contains id = false) : b.addressOf id = none := by
  cases haddress : b.addressOf id with
  | none => rfl
  | some address =>
    rw [contains_connections_iff.mpr ⟨address, haddress⟩] at hnew
    cases hnew

/-- A new client is connected and becomes a member, both without filters. -/
theorem agrees_register (hb : b.WellFormed) (h : Agrees s b)
    (hnew : b.connections.contains id = false) :
    Agrees (s.addClient address id).2 (b.register id address) := by
  have hnone := addressOf_eq_none hnew
  refine h.apply (.addClient address id none) rfl (fun _ _ _ _ _ hop => by cases hop) ?_
  intro key filters
  have hmember : ((Operation.addClient address id none).apply s).Member key filters ↔ _ :=
    member_addClient h.wellFormed (h.client?_eq_none hnone address) none
  have hfilters : (b.register id address).filtersOf key.id = b.filtersOf key.id := rfl
  rw [hmember, h.member_iff, addressOf_register, hfilters]
  by_cases hid : key.id = id
  · obtain ⟨keyAddress, keyId⟩ := key
    subst hid
    rw [if_pos rfl, hnone, filtersOf_eq_nil hb hnew]
    simp [eq_comm]
  · have hkey : key ≠ ⟨address, id⟩ := fun hkey => hid (congrArg ClientKey.id hkey)
    simp [hid, hkey]

/-- After a removal the tables hold the members with other ids. -/
theorem Agrees.member_iff_remove (h : Agrees s b) (id : String) (key : ClientKey)
    (filters : List String) :
    (key.id ≠ id ∧ s.Member key filters) ↔
      (b.remove id).2.addressOf key.id = some key.address ∧
        (b.remove id).2.filtersOf key.id = filters := by
  rw [h.member_iff, addressOf_remove, filtersOf_remove]
  by_cases hid : key.id = id
  · simp [hid]
  · simp [hid]

/-- A disconnection of an unknown client changes nothing in the graph, and one of a connected client
takes it out. -/
theorem topology_cleanup (b : Broker) (id : String) :
    (b.cleanup id).topology =
      match b.connections.find? id with
      | none => b.topology
      | some c => (Operation.removeClient c.id c.address).apply b.topology := by
  unfold cleanup remove
  cases hfind : b.connections.find? id with
  | none => rfl
  | some c => rfl

/-- A client that disconnects leaves the tables and the members. -/
theorem agrees_cleanup (hb : b.WellFormed) (h : Agrees b.topology b) (id : String) :
    Agrees (b.cleanup id).topology (b.cleanup id) := by
  refine Agrees.of_sameTables ?_ (sameTables_cleanup b id)
  rw [topology_cleanup]
  cases hfind : b.connections.find? id with
  | none =>
    have hnone : b.addressOf id = none := by
      rw [addressOf, hfind]
      rfl
    refine ⟨h.wellFormed, h.joined, fun key filters => ?_, h.publishable⟩
    rw [← h.member_iff_remove, iff_and_self]
    -- no member has the id of a client that is not connected
    rintro hmember rfl
    rw [h.member_iff, hnone] at hmember
    cases hmember.1
  | some c =>
    have hid := hb.filed id c hfind
    have haddress : b.addressOf id = some c.address := by
      rw [addressOf, hfind]
      rfl
    dsimp only
    rw [hid]
    refine h.apply (.removeClient id c.address) rfl (fun _ _ _ _ _ hop => by cases hop) ?_
    intro key filters
    obtain ⟨d, hclient, -⟩ := h.client? haddress
    have hmember : ((Operation.removeClient id c.address).apply b.topology).Member key filters ↔ _ :=
      member_removeClient h.wellFormed hclient
    rw [hmember, ← h.member_iff_remove, and_congr_left_iff]
    intro hbefore
    -- the id is connected from one address only
    refine not_congr ⟨fun hkey => congrArg ClientKey.id hkey, ?_⟩
    rintro rfl
    have hfound := ((h.member_iff key filters).mp hbefore).1
    rw [haddress] at hfound
    rw [Option.some.inj hfound]

/-! ## Subscribing -/

/-- Where the filters of a connected client change in the tables and in the topology, the members
are still those of the tables. -/
theorem member_iff_setFilters (h : Agrees s b) (haddress : b.addressOf id = some address)
    (changed : List String) (key : ClientKey) (filters : List String) :
    (if key = ⟨address, id⟩ then changed = filters else s.Member key filters) ↔
      b.addressOf key.id = some key.address ∧
        (if key.id = id then changed else b.filtersOf key.id) = filters := by
  by_cases hid : key.id = id
  · obtain ⟨keyAddress, keyId⟩ := key
    subst hid
    rw [if_pos rfl, haddress]
    by_cases hsame : keyAddress = address
    · simp [hsame]
    · -- no other address has a member with the id
      have hother : ¬ s.Member ⟨keyAddress, keyId⟩ filters := by
        rw [h.member_iff, haddress]
        rintro ⟨hfound, -⟩
        exact hsame (Option.some.inj hfound).symm
      simp [hother, eq_comm]
  · have hkey : key ≠ ⟨address, id⟩ := fun hkey => hid (congrArg ClientKey.id hkey)
    rw [if_neg hid, if_neg hkey]
    exact h.member_iff key filters

theorem filtersOf_setFilters (b : Broker) (id other : String) (filters : List String) :
    filtersOf { b with subscriptions := b.subscriptions.set id filters } other =
      if other = id then filters else b.filtersOf other := by
  show ((b.subscriptions.set id filters).find? other).getD [] = _
  rw [Table.find?_set]
  by_cases h : other = id
  · simp [h]
  · simp [h, filtersOf]

/-- A filter that is added to the tables is remembered in the topology. -/
theorem agrees_subscribe (h : Agrees b.topology b) (filter id : String) :
    Agrees (b.subscribe filter id).2.2.topology (b.subscribe filter id).2.2 := by
  unfold subscribe
  split
  · split
    · exact h
    · rename_i address haddress
      obtain ⟨c, hclient, hfilters⟩ := h.client? haddress
      refine Agrees.of_sameTables (b := { b with
        subscriptions := b.subscriptions.set id (withFilter (b.filtersOf id) filter) }) ?_
        ⟨rfl, rfl, rfl⟩
      refine h.apply (.addSubscription id address filter) rfl (fun _ _ _ _ _ hop => by cases hop) ?_
      intro key filters
      have hmember :
          ((Operation.addSubscription id address filter).apply b.topology).Member key filters ↔ _ :=
        member_addSubscription h.wellFormed hclient filter
      rw [hmember, hfilters, filtersOf_setFilters]
      exact member_iff_setFilters h haddress _ key filters
  · exact h

/-- A filter that is taken out of the tables is forgotten in the topology. -/
theorem agrees_unsubscribe (hb : b.WellFormed) (h : Agrees b.topology b) (filter id : String) :
    Agrees (b.unsubscribe filter id).topology (b.unsubscribe filter id) := by
  unfold unsubscribe
  split
  · rename_i hmem
    have hlisted := contains_subscriptions_of_mem (List.contains_iff_mem.mp hmem)
    obtain ⟨address, haddress⟩ := contains_connections_iff.mp (hb.connected id hlisted)
    obtain ⟨c, hclient, hfilters⟩ := h.client? haddress
    have hsame : addressOf { b with
        subscriptions := b.subscriptions.set id ((b.filtersOf id).filter (· != filter)) } id =
        some address := haddress
    dsimp only
    rw [haddress]
    refine Agrees.of_sameTables (b := { b with
      subscriptions := b.subscriptions.set id ((b.filtersOf id).filter (· != filter)) }) ?_
      ⟨rfl, rfl, rfl⟩
    refine h.apply (.removeSubscription id address filter) rfl (fun _ _ _ _ _ hop => by cases hop) ?_
    intro key filters
    have hmember :
        ((Operation.removeSubscription id address filter).apply b.topology).Member key filters ↔ _ :=
      member_removeSubscription h.wellFormed hclient filter
    rw [hmember, hfilters, filtersOf_setFilters]
    exact member_iff_setFilters h haddress _ key filters
  · exact h

/-! ## Publishing, probing and sampling -/

/-- The monitor records publications on ordinary topics only. -/
theorem topology_publish (m : Monitor) (id address topic : String) (retain : Bool) (bytes : Nat) :
    (m.publish id address topic retain bytes).topology =
      if TopicName.isSystem topic then m.topology
      else (Operation.addPublish id address topic retain bytes).apply m.topology := by
  unfold Monitor.publish
  split
  · rfl
  · rfl

/-- Publishing records a topic only if the broker accepts publications to it. -/
theorem agrees_publish (h : Agrees b.topology b) (id : String) (m : Message) (now : Nat) :
    Agrees (b.publish id m now).2.topology (b.publish id m now).2 := by
  have htables := sameTables_publish b id m now
  revert htables
  unfold publish
  split
  · exact fun _ => h
  · rename_i address haddress
    split
    · exact fun _ => h
    · rename_i hvalid
      split
      · -- the message starts a probe
        intro htables
        exact h.apply_of_sameTables (.startProbe id address now) rfl htables
          fun _ _ _ _ _ hop => by cases hop
      · rename_i hlatency
        intro htables
        show Agrees (b.monitor.publish id address m.topic m.retain
          m.payload.utf8ByteSize).topology _
        rw [topology_publish]
        split
        · exact h.of_sameTables htables
        · rename_i hordinary
          refine h.apply_of_sameTables _ rfl htables fun _ _ _ _ _ hop => ?_
          cases hop
          exact ⟨by simpa using hvalid, by simpa using hordinary, hlatency⟩

/-- The acknowledgement of a probe completes a measurement and changes nothing else. -/
theorem agrees_acknowledge (h : Agrees b.topology b) (id : String) (now : Nat) :
    Agrees (b.acknowledge id now).topology (b.acknowledge id now) := by
  unfold acknowledge
  split
  · exact h
  · rename_i address haddress
    exact h.apply_of_sameTables (.finishProbe id address now) rfl ⟨rfl, rfl, rfl⟩
      fun _ _ _ _ _ hop => by cases hop

/-- A tick of the graph samples the topology or leaves it alone. -/
theorem topology_tick (m : Monitor) (now : Nat) (reading : Memory.Usage) :
    (m.tick now reading).2.topology = m.topology ∨
      ∃ secs, (m.tick now reading).2.topology =
        Operation.takeChanged.apply ((Operation.sample secs).apply m.topology) := by
  unfold Monitor.tick Sampler.tick
  cases hdue : m.sampler.due? now with
  | none => exact Or.inl rfl
  | some elapsed => exact Or.inr ⟨seconds elapsed, rfl⟩

/-- A tick of the graph only measures. -/
theorem agrees_publishGraph (h : Agrees b.topology b) (now : Nat) (stamp : Int)
    (reading : Memory.Usage) (memoryStamp : Int) :
    Agrees (b.publishGraph now stamp reading memoryStamp).2.topology
      (b.publishGraph now stamp reading memoryStamp).2 := by
  obtain ⟨-, htables, hmonitor⟩ := publishGraph_spec b now stamp reading memoryStamp
  rw [topology, hmonitor]
  rcases topology_tick b.monitor now reading with hsame | ⟨secs, hsampled⟩
  · rw [hsame]
    exact h.of_sameTables htables
  · rw [hsampled]
    have hmeasured : Agrees ((Operation.sample secs).apply b.monitor.topology) b :=
      h.apply_of_sameTables (.sample secs) rfl (.refl b) fun _ _ _ _ _ hop => by cases hop
    exact hmeasured.apply_of_sameTables .takeChanged rfl htables fun _ _ _ _ _ hop => by cases hop

/-! ## Every orderly run -/

/-- An orderly event keeps the agreement. -/
theorem agrees_perform (hb : b.WellFormed) (h : Agrees b.topology b) {e : Event}
    (he : e.isOrderly b = true) : Agrees (b.perform e).2.topology (b.perform e).2 := by
  cases e with
  | register id address =>
    rw [Event.isOrderly, Bool.not_eq_true'] at he
    exact agrees_register hb h he
  | remove id => cases he
  | cleanup id => exact agrees_cleanup hb h id
  | subscribe filter id => exact agrees_subscribe h filter id
  | unsubscribe filter id => exact agrees_unsubscribe hb h filter id
  | publish id m now => exact agrees_publish h id m now
  | acknowledge id now => exact agrees_acknowledge h id now
  | publishGraph now stamp reading memoryStamp =>
    exact agrees_publishGraph h now stamp reading memoryStamp

/-- After an orderly run the graph agrees with the tables. -/
theorem agrees_run (hb : b.WellFormed) (h : Agrees b.topology b) {events : List Event}
    (horderly : b.isOrderly events = true) :
    Agrees (b.run events).topology (b.run events) := by
  induction events generalizing b with
  | nil => exact h
  | cons e es ih =>
    rw [isOrderly, Bool.and_eq_true] at horderly
    exact ih (hb.perform e) (agrees_perform hb h horderly.1) horderly.2

/-! ## What a message meets -/

/-- On ordinary topics the broker routes by the rule by which the graph lists subscribers. -/
theorem routes_eq_covers (h : TopicName.isSystem topic = false) (filter : String) :
    Filter.routes filter topic = Filter.covers filter topic := by
  have hhead : topic.toList.head? ≠ some '$' := by simpa [TopicName.isSystem] using h
  rw [Filter.routes, Filter.routesChars, if_neg hhead, Filter.covers]

/-- A client is connected when one of the connections has its key. -/
theorem exists_connection_iff (hb : b.WellFormed) {key : ClientKey} :
    (∃ c ∈ b.connections.values, c.key = key) ↔ b.addressOf key.id = some key.address := by
  constructor
  · rintro ⟨c, hc, rfl⟩
    obtain ⟨⟨id, c⟩, hentry, rfl⟩ := List.mem_map.mp hc
    have hfind := (Table.mem_toList_iff hb.connections_nodup).mp hentry
    have hid := hb.filed id c hfind
    show (b.connections.find? c.id).map Connection.address = some c.address
    rw [hid, hfind]
    rfl
  · intro haddress
    obtain ⟨c, hfind, hsame⟩ := Option.map_eq_some_iff.mp haddress
    have hentry := (Table.mem_toList_iff hb.connections_nodup).mpr hfind
    refine ⟨c, List.mem_map.mpr ⟨_, hentry, rfl⟩, ?_⟩
    rw [Connection.key, hsame, hb.filed _ c hfind]

/-- No two connections have one key. -/
theorem connections_keys_nodup (hb : b.WellFormed) :
    (b.connections.values.map Connection.key).Nodup := by
  have hids : (b.connections.values.map Connection.key).map ClientKey.id = b.connections.keys := by
    rw [Table.values, Table.keys, List.map_map, List.map_map]
    refine List.map_congr_left fun e he => ?_
    exact hb.filed e.1 e.2 ((Table.mem_toList_iff hb.connections_nodup).mp he)
  refine List.Nodup.of_map ClientKey.id ?_
  rw [hids]
  exact hb.connections_nodup

/-- A subscriber of a listed topic is a client to which the broker delivers. -/
theorem Agrees.mem_subscribers_iff (hb : b.WellFormed) (h : Agrees s b) {t : Topic}
    (ht : t ∈ s.topics.values) {key : ClientKey} :
    key ∈ t.subscribers ↔
      b.addressOf key.id = some key.address ∧ key.id ∈ b.recipients t.name := by
  have hordinary := (h.publishable t ht).ordinary
  have hwants : ∀ c : Client, c.filters = b.filtersOf key.id →
      (c.subscribesTo t.name = true ↔ wants (b.filtersOf key.id) t.name = true) := by
    intro c hfilters
    rw [Client.subscribesTo, hfilters, wants]
    simp only [routes_eq_covers hordinary]
  rw [h.joined.mem_iff t ht, mem_recipients_iff hb]
  constructor
  · rintro ⟨c, hc, hkey, hsubscribes⟩
    obtain ⟨haddress, hfilters⟩ := (h.member_iff key c.filters).mp ⟨c, hc, hkey, rfl⟩
    refine ⟨haddress, contains_connections_iff.mpr ⟨_, haddress⟩, ?_⟩
    exact (hwants c hfilters.symm).mp hsubscribes
  · rintro ⟨haddress, -, hwanted⟩
    obtain ⟨c, hc, hkey, hfilters⟩ := (h.member_iff key _).mpr ⟨haddress, rfl⟩
    exact ⟨c, hc, hkey, (hwants c hfilters).mpr hwanted⟩

/-! ## What agrees -/

/-- The graph of a broker mirrors its tables. -/
structure Mirrored (b : Broker) : Prop where
  /-- The graph has the connected clients. -/
  clients : (b.topology.clients.map Client.key).Perm (b.connections.values.map Connection.key)
  /-- Only connected clients have subscriptions. -/
  subscribed : ∀ id ∈ b.subscriptions.keys, b.connections.contains id = true
  /-- A connected client has the same filters in the graph as in the tables. -/
  filters : ∀ c ∈ b.connections.values, ∃ d,
    b.topology.client? c.address c.id = some d ∧ d.filters = b.filtersOf c.id
  /-- The subscribers of a topic in the graph are the clients to which a message is delivered. -/
  subscribers : ∀ t ∈ b.topology.topics.values, ∀ m : Message, m.topic = t.name →
    ∀ key, key ∈ t.subscribers ↔
      ∃ c ∈ b.connections.values, c.key = key ∧ ⟨c.id, .message m⟩ ∈ (b.route m).1
  /-- Whoever publishes to a topic in the graph, the message is routed to them. -/
  routed : ∀ t ∈ b.topology.topics.values, ∀ m : Message, m.topic = t.name →
    ∀ id now, b.connections.contains id = true → (b.publish id m now).1 = (b.route m).1

theorem Agrees.mirrored (hb : b.WellFormed) (h : Agrees b.topology b) : Mirrored b where
  clients := by
    refine (List.perm_ext_iff_of_nodup h.wellFormed.keys_nodup (connections_keys_nodup hb)).mpr
      fun key => ?_
    rw [List.mem_map, List.mem_map, exists_connection_iff hb]
    constructor
    · rintro ⟨c, hc, hkey⟩
      exact ((h.member_iff key c.filters).mp ⟨c, hc, hkey, rfl⟩).1
    · intro haddress
      obtain ⟨c, hc, hkey, -⟩ := (h.member_iff key _).mpr ⟨haddress, rfl⟩
      exact ⟨c, hc, hkey⟩
  subscribed := fun id hid => hb.connected id (Table.mem_keys_iff.mp hid)
  filters := by
    intro c hc
    exact h.client? ((exists_connection_iff hb).mp ⟨c, hc, rfl⟩)
  subscribers := by
    intro t ht m htopic key
    have hdelivered : ∀ id, ⟨id, .message m⟩ ∈ (b.route m).1 ↔ id ∈ b.recipients t.name := by
      intro id
      simp [route, htopic]
    rw [h.mem_subscribers_iff hb ht, ← exists_connection_iff hb]
    constructor
    · rintro ⟨⟨c, hc, rfl⟩, hrecipient⟩
      exact ⟨c, hc, rfl, (hdelivered c.id).mpr hrecipient⟩
    · rintro ⟨c, hc, rfl, hmem⟩
      exact ⟨⟨c, hc, rfl⟩, (hdelivered c.id).mp hmem⟩
  routed := by
    intro t ht m htopic id now hconnected
    obtain ⟨hvalid, -, hlatency⟩ := h.publishable t ht
    obtain ⟨address, haddress⟩ := contains_connections_iff.mp hconnected
    rw [← htopic] at hvalid hlatency
    rw [publish, haddress]
    dsimp only
    rw [hvalid, if_neg (by simp), if_neg hlatency]
    rfl

/-- After every run in which no id connects twice at a time the graph mirrors the tables. -/
theorem mirrored_run (settings : GraphSettings) (start : Nat) {events : List Event}
    (horderly : (new settings start).isOrderly events = true) :
    Mirrored ((new settings start).run events) :=
  (agrees_run (wellFormed_new settings start) (agrees_new settings start) horderly).mirrored
    ((wellFormed_new settings start).run events)

/-- A visitor publishes to a topic to which a client has subscribed twice, and leaves again. -/
def visit : List Event :=
  [.register "a" "10.0.0.1", .register "b" "10.0.0.2", .subscribe "x/#" "b", .subscribe "+/y" "b",
    .publish "a" ⟨"x/y", "hello", 0, false⟩ 0, .unsubscribe "x/#" "b", .cleanup "a"]

/-- After the visit the topic is still delivered to the client that stays. -/
theorem mirrored_run_visit :
    (new {}).isOrderly visit = true ∧
      ∃ t ∈ ((new {}).run visit).topology.topics.values,
        t.subscribers = [⟨"10.0.0.2", "b"⟩] ∧
        ∃ c ∈ ((new {}).run visit).connections.values, c.key = ⟨"10.0.0.2", "b"⟩ ∧
          ⟨c.id, .message ⟨t.name, "again", 1, false⟩⟩ ∈
            (((new {}).run visit).route ⟨t.name, "again", 1, false⟩).1 := by
  have horderly : (new {}).isOrderly visit = true := by decide +kernel
  have hlisted : ∃ t ∈ ((new {}).run visit).topology.topics.values,
      t.subscribers = [⟨"10.0.0.2", "b"⟩] := by decide +kernel
  obtain ⟨t, ht, hsubscribers⟩ := hlisted
  have hmirrored := mirrored_run {} 0 horderly
  refine ⟨horderly, t, ht, hsubscribers, ?_⟩
  refine (hmirrored.subscribers t ht ⟨t.name, "again", 1, false⟩ rfl _).mp ?_
  rw [hsubscribers]
  exact List.mem_singleton_self _

end Broker

end BrokerTopology
