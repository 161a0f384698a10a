import BrokerTopology.Proofs.Broker.Agreement
import BrokerTopology.Proofs.Broker.Delivery
/-!
# Requests

What an event does to the tables of a broker depends on the tables alone: the connections after it on
the connections before, and the filters of a client on its own filters and on whether it is connected.

A request of a client does what one event of the broker does; a subscription that is refused because
its filter is not well formed is answered with an error besides. So whatever requests and other events
reach a broker, its state is that after a run of events, and only the replies tell the two apart.
-/

namespace BrokerTopology

namespace Broker

/-! ## The tables after an event -/

/-- The connections after an event. -/
def Event.connections (e : Event) (t : Table Connection) : Table Connection :=
  match e with
  | .register id address => t.set id ⟨id, address⟩
  | .remove id => t.erase id
  | .cleanup id => t.erase id
  | _ => t

/-- The filters of a client after an event. A subscription is accepted if the client is connected and
the filter is well formed. -/
def Event.filters (e : Event) (id : String) (connected : Bool) (filters : List String) :
    List String :=
  match e with
  | .remove other => if id = other then [] else filters
  | .cleanup other => if id = other then [] else filters
  | .subscribe filter other =>
    if id = other ∧ connected = true ∧ Filter.isValid filter = true then withFilter filters filter
    else filters
  | .unsubscribe filter other => if id = other then filters.filter (· != filter) else filters
  | _ => filters

section Tables

variable (b : Broker)

theorem connections_perform (e : Event) :
    (b.perform e).2.connections = e.connections b.connections := by
  cases e with
  | register id address => rfl
  | remove id => rfl
  | cleanup id => exact (sameTables_cleanup b id).connections
  | subscribe filter id => exact b.connections_subscribe filter id
  | unsubscribe filter id => exact b.connections_unsubscribe filter id
  | publish id m now => exact (sameTables_publish b id m now).connections
  | acknowledge id now => exact (sameTables_acknowledge b id now).connections
  | publishGraph now stamp reading memoryStamp =>
    exact (b.publishGraph_spec now stamp reading memoryStamp).2.1.connections

/-- No event changes the settings. -/
theorem settings_perform (e : Event) : (b.perform e).2.settings = b.settings := by
  cases e with
  | register id address => rfl
  | remove id => rfl
  | cleanup id => exact (sameTables_cleanup b id).settings
  | subscribe filter id =>
    rw [perform, subscribe]
    split
    · split
      · rfl
      · rfl
    · rfl
  | unsubscribe filter id =>
    rw [perform, unsubscribe]
    split
    · dsimp only
      split
      · rfl
      · rfl
    · rfl
  | publish id m now => exact (sameTables_publish b id m now).settings
  | acknowledge id now => exact (sameTables_acknowledge b id now).settings
  | publishGraph now stamp reading memoryStamp =>
    exact (b.publishGraph_spec now stamp reading memoryStamp).2.1.settings

/-- A subscription adds the filter to those of the client, if it is accepted. -/
theorem filtersOf_subscribe (filter id other : String) :
    (b.subscribe filter id).2.2.filtersOf other =
      if other = id ∧ b.connections.contains other = true ∧ Filter.isValid filter = true then
        withFilter (b.filtersOf other) filter
      else b.filtersOf other := by
  unfold subscribe
  split
  · rename_i hvalid
    split
    · rename_i hnone
      refine (if_neg ?_).symm
      rintro ⟨rfl, hconnected, -⟩
      rw [contains_connections_eq_false hnone] at hconnected
      cases hconnected
    · rename_i address haddress
      have hconnected := contains_connections_iff.mpr ⟨address, haddress⟩
      refine (b.filtersOf_setFilters id other _).trans ?_
      by_cases h : other = id
      · subst h
        rw [if_pos rfl, if_pos ⟨rfl, hconnected, hvalid⟩]
      · rw [if_neg h, if_neg fun haccepted => h haccepted.1]
  · rename_i hinvalid
    exact (if_neg fun haccepted => hinvalid haccepted.2.2).symm

/-- The end of a subscription takes the filter from those of the client. -/
theorem filtersOf_unsubscribe (filter id other : String) :
    (b.unsubscribe filter id).filtersOf other =
      if other = id then (b.filtersOf other).filter (· != filter) else b.filtersOf other := by
  by_cases hmem : (b.filtersOf id).contains filter = true
  · have hset : (b.unsubscribe filter id).filtersOf other = filtersOf { b with
        subscriptions := b.subscriptions.set id ((b.filtersOf id).filter (· != filter)) } other := by
      rw [unsubscribe, if_pos hmem]
      dsimp only
      split
      · rfl
      · rfl
    rw [hset, filtersOf_setFilters]
    by_cases h : other = id
    · rw [h]
    · rw [if_neg h, if_neg h]
  · -- a filter that the client does not have is not missed
    rw [unsubscribe, if_neg hmem]
    have hothers : ∀ f ∈ b.filtersOf id, (f != filter) = true := by
      intro f hf
      rw [bne_iff_ne]
      rintro rfl
      exact hmem (List.contains_iff_mem.mpr hf)
    by_cases h : other = id
    · subst h
      rw [if_pos rfl, List.filter_eq_self.mpr hothers]
    · rw [if_neg h]

theorem filtersOf_perform (e : Event) (id : String) :
    (b.perform e).2.filtersOf id = e.filters id (b.connections.contains id) (b.filtersOf id) := by
  cases e with
  | register other address => rfl
  | remove other => exact b.filtersOf_remove other id
  | cleanup other =>
    exact ((sameTables_cleanup b other).filtersOf_eq id).trans (b.filtersOf_remove other id)
  | subscribe filter other => exact b.filtersOf_subscribe filter other id
  | unsubscribe filter other => exact b.filtersOf_unsubscribe filter other id
  | publish other m now => exact (sameTables_publish b other m now).filtersOf_eq id
  | acknowledge other now => exact (sameTables_acknowledge b other now).filtersOf_eq id
  | publishGraph now stamp reading memoryStamp =>
    exact (b.publishGraph_spec now stamp reading memoryStamp).2.1.filtersOf_eq id

end Tables

end Broker

/-! ## What a request asks for -/

/-- What a request of a client asks of the broker, as an event. -/
def Request.event (id : String) (r : Request) (now : Nat) (stamp : Int) : Broker.Event :=
  match r with
  | .subscribe filter => .subscribe filter id
  | .unsubscribe filter => .unsubscribe filter id
  | .publish topic payload retain => .publish id ⟨topic, payload, stamp, retain⟩ now
  | .probeAck => .acknowledge id now

namespace Broker

variable {b : Broker}

/-- The reply that only a request gets: a connected client is told that its filter is not well formed. -/
def complaint (b : Broker) (id : String) : Request → List Delivery
  | .subscribe filter =>
    if b.connections.contains id && !Filter.isValid filter then [⟨id, invalidFilter filter⟩] else []
  | _ => []

/-- A request does what its event does, and may be answered with a complaint. -/
theorem dispatch_eq (b : Broker) (id : String) (r : Request) (now : Nat) (stamp : Int) :
    b.dispatch id r now stamp =
      ((b.perform (r.event id now stamp)).1 ++ b.complaint id r,
        (b.perform (r.event id now stamp)).2) := by
  cases r with
  | subscribe filter =>
    rw [dispatch, Request.event, perform, complaint, subscribe]
    cases hvalid : Filter.isValid filter with
    | false => cases hconnected : b.connections.contains id <;> simp [hconnected]
    | true =>
      -- then only a client that is not connected is refused, and it is not told
      cases haddress : b.addressOf id with
      | none =>
        simp [contains_connections_eq_false haddress]
      | some address => simp
  | unsubscribe filter => rfl
  | publish topic payload retain => simp [dispatch, Request.event, perform, complaint]
  | probeAck => rfl

/-! ## Everything that reaches a broker -/

/-- What reaches a broker: an event, or a request of a client. -/
inductive Input where
  | event (e : Event)
  | request (id : String) (r : Request) (now : Nat) (stamp : Int)

/-- The event that an input is, but for a complaint. -/
def Input.toEvent : Input → Event
  | .event e => e
  | .request id r now stamp => r.event id now stamp

/-- The replies to an input and the broker after it. -/
def serve (b : Broker) : Input → List Delivery × Broker
  | .event e => b.perform e
  | .request id r now stamp => b.dispatch id r now stamp

/-- The complaint with which an input is answered, if it is a request that gets one. -/
def complaintTo (b : Broker) : Input → List Delivery
  | .event _ => []
  | .request id r _ _ => b.complaint id r

/-- An input does what its event does, and may be answered with a complaint. -/
theorem serve_eq (b : Broker) (i : Input) :
    b.serve i = ((b.perform i.toEvent).1 ++ b.complaintTo i, (b.perform i.toEvent).2) := by
  cases i with
  | event e => rw [complaintTo, List.append_nil, serve, Input.toEvent]
  | request id r now stamp => exact b.dispatch_eq id r now stamp

/-- The broker after several inputs, the first of the list first. -/
def serveAll (b : Broker) (inputs : List Input) : Broker :=
  inputs.foldl (fun b i => (b.serve i).2) b

/-- Whatever reaches a broker, its state is that after a run of events. -/
theorem serveAll_eq_run (b : Broker) (inputs : List Input) :
    b.serveAll inputs = b.run (inputs.map Input.toEvent) := by
  induction inputs generalizing b with
  | nil => rfl
  | cons i is ih =>
    have hhere : (b.serve i).2 = (b.perform i.toEvent).2 := by rw [b.serve_eq i]
    show (b.serve i).2.serveAll is = (b.perform i.toEvent).2.run (is.map Input.toEvent)
    rw [hhere, ih]

end Broker

end BrokerTopology
