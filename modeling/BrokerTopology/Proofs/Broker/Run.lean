import BrokerTopology.Broker.Basic
import BrokerTopology.Proofs.Table
/-!
# Runs of the broker

A broker comes about by a run of events from a new one. In every run the tables keep a simple shape:
each client is filed under its own id, no id is filed twice, and only connected clients have
subscriptions. From it follows who receives a message: each connected client with a filter that
routes the topic to it, once.
-/

namespace BrokerTopology

namespace Broker

/-! ## Events -/

/-- What happens to a broker. -/
inductive Event where
  | register (id address : String)
  /-- A client is taken out of the tables, but not out of the graph. -/
  | remove (id : String)
  | cleanup (id : String)
  | subscribe (filter id : String)
  | unsubscribe (filter id : String)
  | publish (id : String) (m : Message) (now : Nat)
  | acknowledge (id : String) (now : Nat)
  | publishGraph (now : Nat) (stamp : Int) (reading : Memory.Usage) (memoryStamp : Int := stamp)

/-- The replies to an event and the broker after it. -/
def perform (b : Broker) : Event → List Delivery × Broker
  | .register id address => ([], b.register id address)
  | .remove id => ([], (b.remove id).2)
  | .cleanup id => ([], b.cleanup id)
  | .subscribe filter id => (b.subscribe filter id).2
  | .unsubscribe filter id => ([], b.unsubscribe filter id)
  | .publish id m now => b.publish id m now
  | .acknowledge id now => ([], b.acknowledge id now)
  | .publishGraph now stamp reading memoryStamp => b.publishGraph now stamp reading memoryStamp

/-- The broker after several events, the first of the list first. -/
def run (b : Broker) (events : List Event) : Broker :=
  events.foldl (fun b e => (b.perform e).2) b

/-- An event keeps the graph informed: no id connects twice at a time, and no client is taken out of
the tables only. -/
def Event.isOrderly (b : Broker) : Event → Bool
  | .register id _ => !b.connections.contains id
  | .remove _ => false
  | _ => true

/-- Whether every event of a run is orderly when it happens. -/
def isOrderly : Broker → List Event → Bool
  | _, [] => true
  | b, e :: es => e.isOrderly b && isOrderly (b.perform e).2 es

/-! ## Addresses and filters after a change of the tables -/

variable {b b' : Broker} {id other address topic filter : String}

theorem addressOf_register (b : Broker) (id address other : String) :
    (b.register id address).addressOf other = if other = id then some address else b.addressOf other := by
  show ((b.connections.set id ⟨id, address⟩).find? other).map Connection.address = _
  rw [Table.find?_set]
  by_cases h : other = id
  · simp [h]
  · simp [h, addressOf]

theorem addressOf_remove (b : Broker) (id other : String) :
    (b.remove id).2.addressOf other = if other = id then none else b.addressOf other := by
  show ((b.connections.erase id).find? other).map Connection.address = _
  rw [Table.find?_erase]
  by_cases h : other = id
  · simp [h]
  · simp [h, addressOf]

theorem filtersOf_remove (b : Broker) (id other : String) :
    (b.remove id).2.filtersOf other = if other = id then [] else b.filtersOf other := by
  show ((b.subscriptions.erase id).find? other).getD [] = _
  rw [Table.find?_erase]
  by_cases h : other = id
  · simp [h]
  · simp [h, filtersOf]

/-- A client is connected when it has an address. -/
theorem contains_connections_iff :
    b.connections.contains id = true ↔ ∃ address, b.addressOf id = some address := by
  rw [addressOf, Table.contains, Option.isSome_iff_exists]
  simp

/-- A client without an address is not connected. -/
theorem contains_connections_eq_false (h : b.addressOf id = none) :
    b.connections.contains id = false := by
  rw [← Bool.not_eq_true, contains_connections_iff, h]
  simp

/-- A client without an entry has no filter. -/
theorem contains_subscriptions_of_mem (h : filter ∈ b.filtersOf id) :
    b.subscriptions.contains id = true := by
  rw [filtersOf] at h
  rw [Table.contains]
  cases hfind : b.subscriptions.find? id with
  | none =>
    rw [hfind] at h
    cases h
  | some filters => rfl

/-! ## Events that leave the tables alone -/

/-- Two brokers have the same clients with the same filters, and the same settings. -/
structure SameTables (b b' : Broker) : Prop where
  connections : b'.connections = b.connections
  subscriptions : b'.subscriptions = b.subscriptions
  settings : b'.settings = b.settings

theorem SameTables.refl (b : Broker) : SameTables b b :=
  ⟨rfl, rfl, rfl⟩

theorem SameTables.addressOf_eq (h : SameTables b b') (id : String) :
    b'.addressOf id = b.addressOf id := by
  rw [addressOf, h.connections, addressOf]

theorem SameTables.filtersOf_eq (h : SameTables b b') (id : String) :
    b'.filtersOf id = b.filtersOf id := by
  rw [filtersOf, h.subscriptions, filtersOf]

theorem sameTables_publish (b : Broker) (id : String) (m : Message) (now : Nat) :
    SameTables b (b.publish id m now).2 := by
  unfold publish
  split
  · exact .refl b
  · split
    · exact .refl b
    · split
      · exact ⟨rfl, rfl, rfl⟩
      · exact ⟨rfl, rfl, rfl⟩

theorem sameTables_acknowledge (b : Broker) (id : String) (now : Nat) :
    SameTables b (b.acknowledge id now) := by
  unfold acknowledge
  split
  · exact .refl b
  · exact ⟨rfl, rfl, rfl⟩

/-- A subscription changes no connection. -/
theorem connections_subscribe (b : Broker) (filter id : String) :
    (b.subscribe filter id).2.2.connections = b.connections := by
  unfold subscribe
  split
  · split
    · rfl
    · rfl
  · rfl

/-- The end of a subscription changes no connection. -/
theorem connections_unsubscribe (b : Broker) (filter id : String) :
    (b.unsubscribe filter id).connections = b.connections := by
  unfold unsubscribe
  split
  · dsimp only
    split
    · rfl
    · rfl
  · rfl

/-! ## Documents -/

/-- What a document is routed as, if there is one. -/
def documentMessage (topic : String) (document : Option String) (stamp : Int) : List Message :=
  (document.map fun text => ⟨topic, text, stamp, true⟩).toList

/-- The messages that a tick of the graph produces. -/
def documents (b : Broker) (now : Nat) (stamp : Int) (reading : Memory.Usage)
    (memoryStamp : Int) : List Message :=
  documentMessage b.settings.topic (b.monitor.tick now reading).1.graph stamp ++
    documentMessage b.settings.memoryTopic (b.monitor.tick now reading).1.memory memoryStamp

/-- The deliveries of a message. -/
def deliveries (b : Broker) (m : Message) : List Delivery :=
  (b.recipients m.topic).map fun id => ⟨id, .message m⟩

/-- Who receives a message depends on the tables only. -/
theorem SameTables.deliveries_eq (h : SameTables b b') (m : Message) :
    b'.deliveries m = b.deliveries m := by
  rw [deliveries, deliveries, recipients, recipients, h.connections, h.subscriptions]

/-- Routing a document leaves the tables and the monitor alone. -/
theorem routeDocument_spec (h : SameTables b b') (topic : String) (document : Option String)
    (stamp : Int) :
    (b'.routeDocument topic document stamp).1 =
        (documentMessage topic document stamp).flatMap b.deliveries ∧
      SameTables b (b'.routeDocument topic document stamp).2 ∧
      (b'.routeDocument topic document stamp).2.monitor = b'.monitor := by
  cases document with
  | none => exact ⟨rfl, h, rfl⟩
  | some text =>
    refine ⟨?_, ⟨h.connections, h.subscriptions, h.settings⟩, rfl⟩
    show b'.deliveries _ = b.deliveries _ ++ []
    rw [h.deliveries_eq, List.append_nil]

/-- A tick of the graph routes the documents that it produces, one after the other. -/
theorem publishGraph_spec (b : Broker) (now : Nat) (stamp : Int) (reading : Memory.Usage)
    (memoryStamp : Int) :
    (b.publishGraph now stamp reading memoryStamp).1 =
        (b.documents now stamp reading memoryStamp).flatMap b.deliveries ∧
      SameTables b (b.publishGraph now stamp reading memoryStamp).2 ∧
      (b.publishGraph now stamp reading memoryStamp).2.monitor = (b.monitor.tick now reading).2 := by
  have hticked : SameTables b { b with monitor := (b.monitor.tick now reading).2 } := ⟨rfl, rfl, rfl⟩
  have hgraph := routeDocument_spec hticked b.settings.topic (b.monitor.tick now reading).1.graph stamp
  rcases hroute : routeDocument { b with monitor := (b.monitor.tick now reading).2 } b.settings.topic
    (b.monitor.tick now reading).1.graph stamp with ⟨graph, b₁⟩
  rw [hroute] at hgraph
  obtain ⟨hsent, htables, hmonitor⟩ := hgraph
  have hanswer : b.publishGraph now stamp reading memoryStamp =
      (graph ++
          (b₁.routeDocument b₁.settings.memoryTopic (b.monitor.tick now reading).1.memory memoryStamp).1,
        (b₁.routeDocument b₁.settings.memoryTopic (b.monitor.tick now reading).1.memory memoryStamp).2) := by
    unfold publishGraph
    dsimp only
    rw [hroute]
  -- the first document leaves the tables to the second
  obtain ⟨hsent', htables', hmonitor'⟩ := routeDocument_spec htables b.settings.memoryTopic
    (b.monitor.tick now reading).1.memory memoryStamp
  rw [hanswer, show b₁.settings = b.settings from htables.settings]
  refine ⟨?_, htables', hmonitor'.trans hmonitor⟩
  rw [documents, List.flatMap_append]
  exact congrArg₂ _ hsent hsent'

/-! ## Well-formed tables -/

/-- Every client is filed once, under its own id, and only connected clients have subscriptions, each
of them one entry. -/
structure WellFormed (b : Broker) : Prop where
  connections_nodup : b.connections.keys.Nodup
  subscriptions_nodup : b.subscriptions.keys.Nodup
  filed : ∀ id c, b.connections.find? id = some c → c.id = id
  connected : ∀ id, b.subscriptions.contains id = true → b.connections.contains id = true

theorem wellFormed_new (settings : GraphSettings) (start : Nat) : (new settings start).WellFormed where
  connections_nodup := List.nodup_nil
  subscriptions_nodup := List.nodup_nil
  filed := fun _ _ h => by cases h
  connected := fun _ h => by cases h

theorem WellFormed.of_sameTables (h : b.WellFormed) (hsame : SameTables b b') : b'.WellFormed := by
  obtain ⟨hconnections, hsubscriptions, -⟩ := hsame
  refine ⟨?_, ?_, ?_, ?_⟩
  · rw [hconnections]
    exact h.connections_nodup
  · rw [hsubscriptions]
    exact h.subscriptions_nodup
  · rw [hconnections]
    exact h.filed
  · rw [hconnections, hsubscriptions]
    exact h.connected

theorem WellFormed.register (h : b.WellFormed) (id address : String) : (b.register id address).WellFormed where
  connections_nodup := Table.keys_nodup_set h.connections_nodup _ _
  subscriptions_nodup := h.subscriptions_nodup
  filed := by
    intro other c hfind
    rw [Broker.register, Table.find?_set] at hfind
    split at hfind
    · rename_i hsame
      cases hfind
      exact hsame.symm
    · exact h.filed other c hfind
  connected := by
    intro other hother
    exact Table.contains_set.mpr (Or.inr (h.connected other hother))

theorem WellFormed.remove (h : b.WellFormed) (id : String) : (b.remove id).2.WellFormed where
  connections_nodup := Table.keys_nodup_erase h.connections_nodup _
  subscriptions_nodup := Table.keys_nodup_erase h.subscriptions_nodup _
  filed := by
    intro other c hfind
    rw [Broker.remove, Table.find?_erase] at hfind
    split at hfind
    · cases hfind
    · exact h.filed other c hfind
  connected := by
    intro other hother
    obtain ⟨hne, hother⟩ := Table.contains_erase.mp hother
    exact Table.contains_erase.mpr ⟨hne, h.connected other hother⟩

/-- A disconnection leaves the tables as a removal does. -/
theorem sameTables_cleanup (b : Broker) (id : String) : SameTables (b.remove id).2 (b.cleanup id) := by
  unfold cleanup Broker.remove
  cases hfind : b.connections.find? id with
  | none => exact ⟨rfl, rfl, rfl⟩
  | some c => exact ⟨rfl, rfl, rfl⟩

/-- The filters of a connected client may be replaced. -/
theorem WellFormed.setFilters (h : b.WellFormed) (hconnected : b.connections.contains id = true)
    (filters : List String) :
    WellFormed { b with subscriptions := b.subscriptions.set id filters } where
  connections_nodup := h.connections_nodup
  subscriptions_nodup := Table.keys_nodup_set h.subscriptions_nodup _ _
  filed := h.filed
  connected := by
    intro other hother
    rcases Table.contains_set.mp hother with rfl | hother
    · exact hconnected
    · exact h.connected other hother

theorem WellFormed.subscribe (h : b.WellFormed) (filter id : String) :
    (b.subscribe filter id).2.2.WellFormed := by
  unfold Broker.subscribe
  split
  · split
    · exact h
    · rename_i address haddress
      exact (h.setFilters (contains_connections_iff.mpr ⟨address, haddress⟩) _).of_sameTables
        ⟨rfl, rfl, rfl⟩
  · exact h

theorem WellFormed.unsubscribe (h : b.WellFormed) (filter id : String) :
    (b.unsubscribe filter id).WellFormed := by
  unfold Broker.unsubscribe
  split
  · rename_i hmem
    have hconnected := h.connected id (contains_subscriptions_of_mem (List.contains_iff_mem.mp hmem))
    have hwf := h.setFilters hconnected ((b.filtersOf id).filter (· != filter))
    dsimp only
    split
    · exact hwf
    · exact hwf.of_sameTables ⟨rfl, rfl, rfl⟩
  · exact h

/-- Every event keeps the tables well formed. -/
theorem WellFormed.perform (h : b.WellFormed) (e : Event) : (b.perform e).2.WellFormed := by
  cases e with
  | register id address => exact h.register id address
  | remove id => exact h.remove id
  | cleanup id => exact (h.remove id).of_sameTables (sameTables_cleanup b id)
  | subscribe filter id => exact h.subscribe filter id
  | unsubscribe filter id => exact h.unsubscribe filter id
  | publish id m now => exact h.of_sameTables (sameTables_publish b id m now)
  | acknowledge id now => exact h.of_sameTables (sameTables_acknowledge b id now)
  | publishGraph now stamp reading memoryStamp =>
    exact h.of_sameTables (publishGraph_spec b now stamp reading memoryStamp).2.1

/-- The tables are well formed after every run. -/
theorem WellFormed.run (h : b.WellFormed) (events : List Event) : (b.run events).WellFormed := by
  induction events generalizing b with
  | nil => exact h
  | cons e es ih => exact ih (h.perform e)

/-- Only a registration connects a client. -/
theorem contains_connections_of_perform {e : Event} (he : ∀ address, e ≠ .register id address)
    (h : (b.perform e).2.connections.contains id = true) : b.connections.contains id = true := by
  cases e with
  | register other address =>
    rcases Table.contains_set.mp h with rfl | h
    · exact absurd rfl (he address)
    · exact h
  | remove other => exact (Table.contains_erase.mp h).2
  | cleanup other =>
    rw [Broker.perform, (sameTables_cleanup b other).connections] at h
    exact (Table.contains_erase.mp h).2
  | subscribe filter other => rwa [Broker.perform, connections_subscribe] at h
  | unsubscribe filter other => rwa [Broker.perform, connections_unsubscribe] at h
  | publish other m now =>
    rwa [Broker.perform, (sameTables_publish b other m now).connections] at h
  | acknowledge other now =>
    rwa [Broker.perform, (sameTables_acknowledge b other now).connections] at h
  | publishGraph now stamp reading memoryStamp =>
    rwa [Broker.perform, (publishGraph_spec b now stamp reading memoryStamp).2.1.connections] at h

/-! ## Recipients -/

/-- A message is delivered to the connected clients with a filter that routes its topic. -/
theorem mem_recipients_iff (h : b.WellFormed) :
    id ∈ b.recipients topic ↔
      b.connections.contains id = true ∧ wants (b.filtersOf id) topic = true := by
  rw [recipients, List.mem_map]
  constructor
  · rintro ⟨⟨id', filters⟩, hmem, rfl⟩
    -- no key is repeated, so the listed filters are those that a look-up finds
    obtain ⟨hlisted, hwants⟩ := List.mem_filter.mp hmem
    rw [Table.mem_toList_iff h.subscriptions_nodup] at hlisted
    rw [Bool.and_eq_true] at hwants
    rw [filtersOf, hlisted]
    exact hwants.symm
  · rintro ⟨hconnected, hwants⟩
    cases hfind : b.subscriptions.find? id with
    | none =>
      rw [filtersOf, hfind] at hwants
      cases hwants
    | some filters =>
      rw [filtersOf, hfind] at hwants
      refine ⟨(id, filters), List.mem_filter.mpr ⟨?_, ?_⟩, rfl⟩
      · exact (Table.mem_toList_iff h.subscriptions_nodup).mpr hfind
      · rw [Bool.and_eq_true]
        exact ⟨hwants, hconnected⟩

/-- No client receives a message twice. -/
theorem recipients_nodup (h : b.WellFormed) (topic : String) : (b.recipients topic).Nodup :=
  h.subscriptions_nodup.sublist (List.filter_sublist.map Prod.fst)

end Broker

end BrokerTopology
