import BrokerTopology.Proofs.Broker.Requests
/-!
# Rejected requests

Two requests are rejected: a subscription whose filter is not well formed, which the dispatch answers,
and a publication whose topic is no name, which the broker answers itself. Either way the client is told
so once, and that is all that happens. No other request is answered with an error, whoever the replies
go to, and a request of a client that is not connected does nothing.

Main statement: `answers_run`.
-/

namespace BrokerTopology

/-! ## What is rejected -/

/-- Whether a reply is an error. -/
def Reply.isError : Reply → Bool
  | .error _ => true
  | _ => false

/-- The error with which a request of a connected client is rejected, if it is. -/
def Request.rejection? : Request → Option Reply
  | .subscribe filter =>
    if Filter.isValid filter then none else some (Broker.invalidFilter filter)
  | .publish topic _ _ =>
    if TopicName.isValid topic then none else some (Broker.invalidTopic topic)
  | .unsubscribe _ => none
  | .probeAck => none

/-- A rejection is an error. -/
theorem Request.isError_of_rejection? {r : Request} {reply : Reply} (h : r.rejection? = some reply) :
    reply.isError = true := by
  cases r with
  | subscribe filter =>
    obtain ⟨-, hreply⟩ := Option.ite_none_left_eq_some.mp h
    rw [← Option.some.inj hreply]
    rfl
  | publish topic payload retain =>
    obtain ⟨-, hreply⟩ := Option.ite_none_left_eq_some.mp h
    rw [← Option.some.inj hreply]
    rfl
  | unsubscribe filter => cases h
  | probeAck => cases h

namespace Broker

variable {b : Broker} {id : String} {r : Request} {reply : Reply}

/-! ## Requests that are rejected -/

/-- A rejected request of a connected client is answered with the error, and nothing else happens. -/
theorem dispatch_of_rejected (hconnected : b.connections.contains id = true)
    (h : r.rejection? = some reply) (now : Nat) (stamp : Int) :
    b.dispatch id r now stamp = ([⟨id, reply⟩], b) := by
  cases r with
  | subscribe filter =>
    obtain ⟨hinvalid, hreply⟩ := Option.ite_none_left_eq_some.mp h
    have hrefused : b.subscribe filter id = (false, [], b) := if_neg hinvalid
    rw [dispatch, hrefused]
    dsimp only
    rw [if_pos hconnected, List.nil_append, Option.some.inj hreply]
  | publish topic payload retain =>
    obtain ⟨hinvalid, hreply⟩ := Option.ite_none_left_eq_some.mp h
    obtain ⟨address, haddress⟩ := contains_connections_iff.mp hconnected
    have hrefused : (!TopicName.isValid topic) = true := by
      simpa using hinvalid
    rw [dispatch, publish, haddress]
    dsimp only
    rw [if_pos hrefused, Option.some.inj hreply]
  | unsubscribe filter => cases h
  | probeAck => cases h

/-! ## Requests that are not -/

/-- What a subscription replays is no error. -/
theorem not_isError_subscribe (b : Broker) (filter id : String) :
    ∀ d ∈ (b.subscribe filter id).2.1, d.reply.isError = false := by
  intro d hd
  unfold subscribe at hd
  split at hd
  · split at hd
    · exact absurd hd List.not_mem_nil
    · obtain ⟨m, -, rfl⟩ := List.mem_map.mp hd
      rfl
  · exact absurd hd List.not_mem_nil

/-- What is routed is no error. -/
theorem not_isError_route (b : Broker) (m : Message) :
    ∀ d ∈ (b.route m).1, d.reply.isError = false := by
  intro d hd
  obtain ⟨other, -, rfl⟩ := List.mem_map.mp hd
  rfl

/-- A publication whose topic is a name brings no error about, whether it is routed or starts a
probe. -/
theorem not_isError_publish (b : Broker) (id : String) (m : Message) (now : Nat)
    (hvalid : TopicName.isValid m.topic = true) :
    ∀ d ∈ (b.publish id m now).1, d.reply.isError = false := by
  intro d hd
  unfold publish at hd
  split at hd
  · exact absurd hd List.not_mem_nil
  · rw [hvalid, Bool.not_true, if_neg Bool.false_ne_true] at hd
    split at hd
    · rw [List.mem_singleton.mp hd]
      rfl
    · exact not_isError_route _ m d hd

/-- No reply to a request that is not rejected is an error. -/
theorem not_isError_dispatch (h : r.rejection? = none) (b : Broker) (id : String) (now : Nat)
    (stamp : Int) : ∀ d ∈ (b.dispatch id r now stamp).1, d.reply.isError = false := by
  intro d hd
  cases r with
  | subscribe filter =>
    have hvalid : Filter.isValid filter = true := by simpa [Request.rejection?] using h
    rw [dispatch_eq] at hd
    have hcomplaint : b.complaint id (.subscribe filter) = [] := by
      rw [complaint, hvalid, Bool.not_true, Bool.and_false, if_neg Bool.false_ne_true]
    rw [hcomplaint, List.append_nil] at hd
    exact b.not_isError_subscribe filter id d hd
  | publish topic payload retain =>
    have hvalid : TopicName.isValid topic = true := by simpa [Request.rejection?] using h
    exact b.not_isError_publish id ⟨topic, payload, stamp, retain⟩ now hvalid d hd
  | unsubscribe filter => exact absurd hd List.not_mem_nil
  | probeAck => exact absurd hd List.not_mem_nil

/-! ## Clients that are not connected -/

/-- A request of a client that is not connected does nothing, and is not answered. A client without a
connection has no filters, so that there is nothing to unsubscribe from. -/
theorem dispatch_of_not_connected (h : b.WellFormed) (hid : b.connections.contains id = false)
    (r : Request) (now : Nat) (stamp : Int) : b.dispatch id r now stamp = ([], b) := by
  have haddress : b.addressOf id = none := by
    cases haddress : b.addressOf id with
    | none => rfl
    | some address =>
      rw [contains_connections_iff.mpr ⟨address, haddress⟩] at hid
      cases hid
  cases r with
  | subscribe filter =>
    have hrefused : b.subscribe filter id = (false, [], b) := by
      rw [subscribe, haddress]
      exact ite_self _
    rw [dispatch, hrefused]
    dsimp only
    rw [hid, if_neg Bool.false_ne_true]
  | unsubscribe filter =>
    have hnone : ¬ (b.filtersOf id).contains filter = true := by
      intro hmem
      have hsubscribed := contains_subscriptions_of_mem (List.contains_iff_mem.mp hmem)
      rw [h.connected id hsubscribed] at hid
      cases hid
    rw [dispatch, unsubscribe, if_neg hnone]
  | publish topic payload retain => rw [dispatch, publish, haddress]
  | probeAck => rw [dispatch, acknowledge, haddress]

end Broker

namespace Exchange

/-! ## What the clients see -/

/-- How the requests of clients are answered in an exchange. -/
structure Answers (x : Exchange) : Prop where
  /-- A rejected request of a connected client is answered with one error, which goes into the inbox of
  that client and no other; the broker is left as it was. -/
  rejected : ∀ id r now stamp reply, x.broker.connections.contains id = true →
    r.rejection? = some reply →
    reply.isError = true ∧ x.broker.dispatch id r now stamp = ([⟨id, reply⟩], x.broker) ∧
    ∀ other, (x.after (x.broker.dispatch id r now stamp)).inboxes.find? other =
      (x.inboxes.find? other).map fun old => if other = id then old ++ [reply] else old
  /-- Any other request of a connected client puts no error into any inbox. -/
  accepted : ∀ id r now stamp, x.broker.connections.contains id = true → r.rejection? = none →
    ∀ other, ∃ replies : List Reply, (∀ reply ∈ replies, reply.isError = false) ∧
      (x.after (x.broker.dispatch id r now stamp)).inboxes.find? other =
        (x.inboxes.find? other).map fun old => old ++ replies
  /-- A request of a client that is not connected changes nothing. -/
  unknown : ∀ id r now stamp, x.broker.connections.contains id = false →
    x.after (x.broker.dispatch id r now stamp) = x

theorem answers {x : Exchange} (h : x.broker.WellFormed) : Answers x where
  rejected := by
    intro id r now stamp reply hconnected hrejected
    have hdispatch := Broker.dispatch_of_rejected hconnected hrejected now stamp
    refine ⟨Request.isError_of_rejection? hrejected, hdispatch, fun other => ?_⟩
    rw [hdispatch, after, find?_foldl_deliver, repliesTo_singleton]
    split
    · rfl
    · simp
  accepted := by
    intro id r now stamp _ haccepted other
    refine ⟨repliesTo other (x.broker.dispatch id r now stamp).1, ?_, find?_foldl_deliver _ _ other⟩
    intro reply hreply
    obtain ⟨d, hd, rfl⟩ := List.mem_map.mp hreply
    exact Broker.not_isError_dispatch haccepted x.broker id now stamp d (List.mem_of_mem_filter hd)
  unknown := by
    intro id r now stamp hid
    rw [Broker.dispatch_of_not_connected h hid]
    rfl

/-- Whatever has reached a broker and whatever its inboxes hold: a subscription on a filter that is not
well formed and a publication on a topic that is no name put one error into the inbox of the client and
change nothing else; no other request puts an error into an inbox; and a request of a client that is not
connected changes nothing at all. -/
theorem answers_run (settings : GraphSettings) (start : Nat) (inputs : List Broker.Input)
    (inboxes : Table (List Reply)) :
    Answers ⟨(Broker.new settings start).serveAll inputs, inboxes⟩ := by
  refine answers ?_
  rw [Broker.serveAll_eq_run]
  exact (Broker.wellFormed_new settings start).run _

/-- Of two clients that subscribe to everything, one publishes on a topic that is no name: it is told, and
the other hears nothing. -/
example :
    let x := (new {}).run [.broker (.register "a" "10.0.0.1"), .broker (.register "b" "10.0.0.2"),
      .broker (.subscribe "#" "a"), .broker (.subscribe "#" "b")]
    let x' := x.after (x.broker.dispatch "a" (.publish "x/+" "payload" true) 0 0)
    x'.inbox "a" = [.error "invalid topic name: x/+"] ∧ x'.inbox "b" = [] ∧ x'.broker = x.broker := by
  decide +kernel

end Exchange

end BrokerTopology
