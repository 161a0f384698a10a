import BrokerTopology.Broker.Exchange
import BrokerTopology.Proofs.Broker.Run
/-!
# What arrives in the inboxes

A publication that is accepted arrives once in the inbox of every connected client with a filter
that routes its topic, and nowhere else; a publication on the latency topic arrives as a probe with
the publisher. Over a run it follows that the messages routed into the inbox of a client are those
that were published while the client had a matching filter, in the order of publication.

Replies that answer the client itself (replayed messages, probes, errors) go into the same inbox.
They are told from the routed messages by the event that puts them there.
-/

namespace BrokerTopology

/-! ## Replies to one client -/

/-- The message that a reply carries, if it carries one. -/
def Reply.message? : Reply → Option Message
  | .message m => some m
  | .probe => none
  | .error _ => none

/-- The replies to one client among some deliveries, in the order of sending. -/
def repliesTo (id : String) (ds : List Delivery) : List Reply :=
  (ds.filter fun d => d.recipient = id).map Delivery.reply

section Replies

variable {id other : String} {m : Message} {ds ds' : List Delivery}

@[simp] theorem repliesTo_nil : repliesTo id [] = [] := rfl

theorem repliesTo_append : repliesTo id (ds ++ ds') = repliesTo id ds ++ repliesTo id ds' := by
  simp [repliesTo]

@[simp] theorem repliesTo_singleton (reply : Reply) :
    repliesTo id [⟨other, reply⟩] = if id = other then [reply] else [] := by
  by_cases h : other = id
  · simp [repliesTo, h]
  · simp [repliesTo, h, Ne.symm h]

theorem repliesTo_cons (d : Delivery) (ds : List Delivery) :
    repliesTo id (d :: ds) = repliesTo id [d] ++ repliesTo id ds := by
  show repliesTo id ([d] ++ ds) = _
  exact repliesTo_append

/-- A reply that is sent to distinct clients reaches each of them once. -/
theorem repliesTo_map {ids : List String} (hnodup : ids.Nodup) (reply : Reply) :
    repliesTo id (ids.map fun other => ⟨other, reply⟩) = if id ∈ ids then [reply] else [] := by
  induction ids with
  | nil => simp
  | cons other ids ih =>
    obtain ⟨hnew, hnodup⟩ := List.nodup_cons.mp hnodup
    rw [List.map_cons, repliesTo_cons, repliesTo_singleton, ih hnodup]
    by_cases h : id = other
    · subst h
      simp [hnew]
    · simp [h]

end Replies

namespace Broker

variable {b : Broker} {id other : String}

/-- Whether a message on a topic is delivered to a client: it is connected and has a filter that
routes the topic to it. -/
def receives (b : Broker) (id topic : String) : Bool :=
  b.connections.contains id && wants (b.filtersOf id) topic

/-- Whether a publication is accepted and routed. -/
def accepts (b : Broker) (id : String) (m : Message) : Bool :=
  b.connections.contains id && TopicName.isValid m.topic && m.topic != b.settings.latencyTopic

/-- A message is delivered once to every client that receives its topic. -/
theorem repliesTo_deliveries (h : b.WellFormed) (id : String) (m : Message) :
    repliesTo id (b.deliveries m) = if b.receives id m.topic then [.message m] else [] := by
  rw [deliveries, repliesTo_map (recipients_nodup h m.topic)]
  refine if_congr ?_ rfl rfl
  rw [mem_recipients_iff h, receives, Bool.and_eq_true]

/-- Of several messages a client is delivered those whose topic it receives. -/
theorem repliesTo_flatMap_deliveries (h : b.WellFormed) (id : String) (ms : List Message) :
    repliesTo id (ms.flatMap b.deliveries) =
      (ms.filter fun m => b.receives id m.topic).map Reply.message := by
  induction ms with
  | nil => rfl
  | cons m ms ih =>
    rw [List.flatMap_cons, repliesTo_append, repliesTo_deliveries h, ih, List.filter_cons]
    split
    · rfl
    · rfl

/-- A publication that is accepted is routed. -/
theorem publish_of_accepts {m : Message} (h : b.accepts id m = true) (now : Nat) :
    (b.publish id m now).1 = b.deliveries m := by
  simp only [accepts, Bool.and_eq_true, bne_iff_ne] at h
  obtain ⟨⟨hconnected, hvalid⟩, hlatency⟩ := h
  obtain ⟨address, haddress⟩ := contains_connections_iff.mp hconnected
  unfold publish
  rw [haddress]
  simp only [hvalid, hlatency, Bool.not_true, Bool.false_eq_true, if_false]
  rfl

/-- A publication on the latency topic is answered with a probe. -/
theorem publish_latency {m : Message} (hconnected : b.connections.contains id = true)
    (hvalid : TopicName.isValid m.topic = true) (hlatency : m.topic = b.settings.latencyTopic)
    (now : Nat) : (b.publish id m now).1 = [⟨id, .probe⟩] := by
  obtain ⟨address, haddress⟩ := contains_connections_iff.mp hconnected
  rw [hlatency] at hvalid
  unfold publish
  rw [haddress]
  simp [hvalid, hlatency]

/-- A publication that is not accepted delivers no message. -/
theorem publish_of_not_accepts {m : Message} (h : b.accepts id m = false) (now : Nat) :
    (repliesTo other (b.publish id m now).1).filterMap Reply.message? = [] := by
  unfold publish
  split
  · rfl
  · rename_i address haddress
    have hconnected := contains_connections_iff.mpr ⟨address, haddress⟩
    split
    · rw [repliesTo_singleton]
      split
      · rfl
      · rfl
    · rename_i hvalid
      split
      · rw [repliesTo_singleton]
        split
        · rfl
        · rfl
      · rename_i hlatency
        -- then it would have been accepted
        simp [accepts, hconnected, hlatency] at h
        simp [h] at hvalid

end Broker

namespace Exchange

variable {x : Exchange} {id other address : String}

/-! ## Inboxes after deliveries -/

/-- A reply is put at the end of the inbox of its recipient. -/
theorem find?_deliver (inboxes : Table (List Reply)) (d : Delivery) (id : String) :
    (deliver inboxes d).find? id =
      (inboxes.find? id).map fun old => old ++ repliesTo id [d] := by
  obtain ⟨recipient, reply⟩ := d
  rw [repliesTo_singleton, deliver]
  cases hfind : inboxes.find? recipient with
  | none =>
    -- a closed inbox stays closed
    by_cases h : id = recipient
    · subst h
      rw [hfind]
      rfl
    · simp [h]
  | some replies =>
    dsimp only
    rw [Table.find?_set]
    by_cases h : id = recipient
    · subst h
      simp [hfind]
    · simp [h]

/-- Deliveries append to every inbox the replies to its client. -/
theorem find?_foldl_deliver (ds : List Delivery) (inboxes : Table (List Reply)) (id : String) :
    (ds.foldl deliver inboxes).find? id =
      (inboxes.find? id).map fun old => old ++ repliesTo id ds := by
  induction ds generalizing inboxes with
  | nil => simp
  | cons d ds ih =>
    rw [List.foldl_cons, ih, find?_deliver, Option.map_map]
    refine congrArg (Option.map · _) (funext fun old => ?_)
    show old ++ repliesTo id [d] ++ repliesTo id ds = old ++ repliesTo id (d :: ds)
    rw [repliesTo_cons d ds, List.append_assoc]

/-! ## Events -/

/-- What happens to an exchange: an event of the broker, or the end of an inbox. -/
inductive Event where
  | broker (e : Broker.Event)
  | close (id : String)

/-- The exchange after an event. -/
def step (x : Exchange) : Event → Exchange
  | .broker (.register id address) => x.register id address
  | .broker e => x.after (x.broker.perform e)
  | .close id => (x.close id).2

/-- The exchange after several events, the first of the list first. -/
def run (x : Exchange) (events : List Event) : Exchange :=
  events.foldl step x

/-- What the inbox of a client holds. -/
def inbox (x : Exchange) (id : String) : List Reply :=
  (x.inboxes.find? id).getD []

/-- What an event adds to the inbox of a client. -/
def gained (x : Exchange) (id : String) (e : Event) : List Reply :=
  ((x.step e).inbox id).drop (x.inbox id).length

/-- The events at which messages are routed; others at most answer a client. -/
def Event.isRouting : Event → Bool
  | .broker (.publish ..) => true
  | .broker (.publishGraph ..) => true
  | _ => false

/-- The messages that an event routes: an accepted publication, or the documents of a tick. -/
def Event.routed (b : Broker) : Event → List Message
  | .broker (.publish id m _) => if b.accepts id m then [m] else []
  | .broker (.publishGraph now stamp reading memoryStamp) => b.documents now stamp reading memoryStamp
  | _ => []

/-- All replies that a run puts into the inbox of a client. -/
def allGained (id : String) : Exchange → List Event → List Reply
  | _, [] => []
  | x, e :: es => x.gained id e ++ allGained id (x.step e) es

/-- The messages that are routed into the inbox of a client in a run. -/
def routedTo (id : String) : Exchange → List Event → List Message
  | _, [] => []
  | x, e :: es =>
    (if e.isRouting then (x.gained id e).filterMap Reply.message? else []) ++
      routedTo id (x.step e) es

/-- The messages that are routed in a run while a client receives their topic. -/
def wantedBy (id : String) : Exchange → List Event → List Message
  | _, [] => []
  | x, e :: es =>
    ((e.routed x.broker).filter fun m => x.broker.receives id m.topic) ++
      wantedBy id (x.step e) es

/-! ## One event -/

/-- The broker of an exchange sees the events of the broker. -/
theorem broker_step (x : Exchange) (e : Broker.Event) :
    (x.step (.broker e)).broker = (x.broker.perform e).2 := by
  cases e <;> rfl

/-- An event that opens no inbox appends to every inbox the replies to its client. -/
theorem find?_step (x : Exchange) {e : Broker.Event}
    (he : ∀ address, e ≠ .register id address) :
    (x.step (.broker e)).inboxes.find? id =
      (x.inboxes.find? id).map fun old => old ++ repliesTo id (x.broker.perform e).1 := by
  cases e with
  | register other address =>
    have hother : id ≠ other := by
      rintro rfl
      exact he address rfl
    show (x.inboxes.set other []).find? id = _
    rw [Table.find?_set_of_ne _ hother]
    simp [Broker.perform]
  | _ => exact find?_foldl_deliver _ _ _

/-- Closing an inbox leaves the others alone. -/
theorem find?_close (x : Exchange) (h : id ≠ other) :
    (x.step (.close other)).inboxes.find? id = x.inboxes.find? id :=
  Table.find?_erase_of_ne _ h

/-- What an event of the broker adds to an open inbox are the replies to its client. -/
theorem gained_eq (x : Exchange) {e : Broker.Event} (he : ∀ address, e ≠ .register id address) :
    x.gained id (.broker e) =
      if (x.inboxes.find? id).isSome then repliesTo id (x.broker.perform e).1 else [] := by
  rw [gained, inbox, inbox, find?_step x he]
  cases x.inboxes.find? id with
  | none => rfl
  | some old => simp

/-- The messages that an event routes into an open inbox are those that its client receives. -/
theorem gained_of_isRouting (hb : x.broker.WellFormed) (hopen : (x.inboxes.find? id).isSome = true)
    {e : Event} (he : e.isRouting = true) :
    (x.gained id e).filterMap Reply.message? =
      (e.routed x.broker).filter fun m => x.broker.receives id m.topic := by
  have hmessages : ∀ ms : List Message, (ms.map Reply.message).filterMap Reply.message? = ms := by
    intro ms
    rw [List.filterMap_map]
    exact List.filterMap_some
  rcases e with (_ | _ | _ | _ | _ | ⟨sender, m, now⟩ | _ | ⟨now, stamp, reading, memoryStamp⟩) | _
  case broker.publish =>
    rw [gained_eq x (fun _ h => by cases h), if_pos hopen, Event.routed, Broker.perform]
    split
    · -- the message is delivered to the client, or not
      rename_i haccepts
      rw [Broker.publish_of_accepts haccepts, Broker.repliesTo_deliveries hb, List.filter_cons]
      split
      · rfl
      · rfl
    · -- a probe or an error carries no message
      rename_i hrefused
      rw [Broker.publish_of_not_accepts (by simpa using hrefused)]
      rfl
  case broker.publishGraph =>
    rw [gained_eq x (fun _ h => by cases h), if_pos hopen, Event.routed, Broker.perform,
      (Broker.publishGraph_spec x.broker now stamp reading memoryStamp).1,
      Broker.repliesTo_flatMap_deliveries hb, hmessages]
  all_goals cases he

/-- An event at which nothing is routed routes no message. -/
theorem routed_of_not_isRouting {e : Event} (he : e.isRouting = false) (b : Broker) :
    e.routed b = [] := by
  rcases e with (_ | _ | _ | _ | _ | _ | _ | _) | _
  case broker.publish => cases he
  case broker.publishGraph => cases he
  all_goals rfl

/-! ## Open inboxes -/

/-- A client that is connected has an inbox that is open. -/
def IsOpen (x : Exchange) (id : String) : Prop :=
  x.broker.connections.contains id = true → (x.inboxes.find? id).isSome = true

/-- Every event keeps the tables of the broker well formed. -/
theorem wellFormed_step (hb : x.broker.WellFormed) (e : Event) : (x.step e).broker.WellFormed := by
  cases e with
  | broker e =>
    rw [broker_step]
    exact hb.perform e
  | close id => exact hb

/-- An inbox that is not closed stays open while its client is connected. -/
theorem isOpen_step (h : x.IsOpen id) {e : Event} (he : e ≠ .close id) : (x.step e).IsOpen id := by
  cases e with
  | close other =>
    have hother : id ≠ other := fun hsame => he (by rw [hsame])
    intro hconnected
    rw [find?_close x hother]
    exact h hconnected
  | broker e =>
    by_cases hregister : ∃ address, e = .register id address
    · -- a client that connects has a new inbox
      obtain ⟨address, rfl⟩ := hregister
      intro _
      show ((x.inboxes.set id []).find? id).isSome = true
      rw [Table.find?_set_self]
      rfl
    · have hother : ∀ address, e ≠ .register id address := fun address hsame =>
        hregister ⟨address, hsame⟩
      intro hconnected
      rw [broker_step] at hconnected
      rw [find?_step x hother, Option.isSome_map]
      exact h (Broker.contains_connections_of_perform hother hconnected)

/-! ## Runs -/

/-- At every event the messages routed into the inbox of a client are those that it receives. -/
theorem routed_step (hb : x.broker.WellFormed) (hopen : x.IsOpen id) (e : Event) :
    (if e.isRouting then (x.gained id e).filterMap Reply.message? else []) =
      (e.routed x.broker).filter fun m => x.broker.receives id m.topic := by
  split
  · rename_i he
    cases hfind : (x.inboxes.find? id).isSome with
    | true => exact gained_of_isRouting hb hfind he
    | false =>
      -- without an inbox the client is not connected
      have hconnected : x.broker.connections.contains id = false := by
        rw [← Bool.not_eq_true]
        intro hconnected
        rw [hopen hconnected] at hfind
        cases hfind
      have hnever : ∀ m : Message, x.broker.receives id m.topic = false := by
        intro m
        rw [Broker.receives, hconnected]
        rfl
      rcases e with e | other
      · have hother : ∀ address, e ≠ .register id address := by
          rintro address rfl
          cases he
        rw [gained_eq x hother, hfind]
        simp [hnever]
      · cases he
  · rename_i he
    rw [routed_of_not_isRouting (by simpa using he)]
    rfl

/-- While its inbox is not closed, the messages routed into it are those routed while its client
receives their topic, in the same order. -/
theorem routedTo_eq_wantedBy (hb : x.broker.WellFormed) (hopen : x.IsOpen id) {events : List Event}
    (hclose : Event.close id ∉ events) : routedTo id x events = wantedBy id x events := by
  induction events generalizing x with
  | nil => rfl
  | cons e es ih =>
    obtain ⟨hhere, hlater⟩ := List.ne_and_not_mem_of_not_mem_cons hclose
    rw [routedTo, wantedBy, routed_step hb hopen,
      ih (wellFormed_step hb e) (isOpen_step hopen (Ne.symm hhere)) hlater]

/-- After every run an inbox that is not closed is open while its client is connected. -/
theorem isOpen_run (hb : x.broker.WellFormed) (hopen : x.IsOpen id) {events : List Event}
    (hclose : Event.close id ∉ events) : (x.run events).IsOpen id := by
  induction events generalizing x with
  | nil => exact hopen
  | cons e es ih =>
    obtain ⟨hhere, hlater⟩ := List.ne_and_not_mem_of_not_mem_cons hclose
    exact ih (wellFormed_step hb e) (isOpen_step hopen (Ne.symm hhere)) hlater

/-- The tables of the broker are well formed after every run. -/
theorem wellFormed_run (hb : x.broker.WellFormed) (events : List Event) :
    (x.run events).broker.WellFormed := by
  induction events generalizing x with
  | nil => exact hb
  | cons e es ih => exact ih (wellFormed_step hb e)

/-- Nothing is lost from an inbox that is neither closed nor opened anew. -/
theorem inbox_step {e : Event} (hregister : ∀ address, e ≠ .broker (.register id address))
    (hclose : e ≠ .close id) : (x.step e).inbox id = x.inbox id ++ x.gained id e := by
  have hprefix : ∃ added, (x.step e).inbox id = x.inbox id ++ added := by
    rcases e with e | other
    · have hother : ∀ address, e ≠ .register id address := fun address hsame =>
        hregister address (by rw [hsame])
      rw [inbox, inbox, find?_step x hother]
      cases x.inboxes.find? id with
      | none => exact ⟨[], rfl⟩
      | some old => exact ⟨_, rfl⟩
    · have hother : id ≠ other := fun hsame => hclose (by rw [hsame])
      refine ⟨[], ?_⟩
      rw [inbox, find?_close x hother, List.append_nil, inbox]
  obtain ⟨added, hadded⟩ := hprefix
  rw [gained, hadded, List.drop_left]

/-- An inbox that is neither closed nor opened anew collects all that is put into it. -/
theorem inbox_run {events : List Event}
    (hregister : ∀ address, Event.broker (.register id address) ∉ events)
    (hclose : Event.close id ∉ events) :
    (x.run events).inbox id = x.inbox id ++ allGained id x events := by
  induction events generalizing x with
  | nil => exact (List.append_nil _).symm
  | cons e es ih =>
    have hhere : ∀ address, e ≠ .broker (.register id address) := by
      rintro address rfl
      exact hregister address List.mem_cons_self
    have hlater : ∀ address, Event.broker (.register id address) ∉ es := fun address hmem =>
      hregister address (List.mem_cons_of_mem e hmem)
    obtain ⟨hopen, hopen'⟩ := List.ne_and_not_mem_of_not_mem_cons hclose
    rw [allGained, ← List.append_assoc, ← inbox_step hhere (Ne.symm hopen)]
    exact ih hlater hopen'

/-! ## What arrives -/

/-- What a publication puts into the inboxes. -/
structure Delivers (x : Exchange) : Prop where
  /-- A publication that is accepted arrives once with every client that receives its topic. -/
  published : ∀ id m now, x.broker.accepts id m = true → ∀ other,
    (x.step (.broker (.publish id m now))).inboxes.find? other =
      (x.inboxes.find? other).map fun old =>
        if x.broker.receives other m.topic then old ++ [.message m] else old
  /-- A publication on the latency topic arrives as a probe with the publisher. -/
  probed : ∀ id m now, x.broker.connections.contains id = true →
    TopicName.isValid m.topic = true → m.topic = x.broker.settings.latencyTopic → ∀ other,
    (x.step (.broker (.publish id m now))).inboxes.find? other =
      (x.inboxes.find? other).map fun old => if other = id then old ++ [.probe] else old

theorem delivers (hb : x.broker.WellFormed) : Delivers x where
  published := by
    intro id m now haccepts other
    rw [find?_step x (fun _ h => by cases h), Broker.perform, Broker.publish_of_accepts haccepts,
      Broker.repliesTo_deliveries hb]
    split
    · rfl
    · simp
  probed := by
    intro id m now hconnected hvalid hlatency other
    rw [find?_step x (fun _ h => by cases h), Broker.perform,
      Broker.publish_latency hconnected hvalid hlatency, repliesTo_singleton]
    split
    · rfl
    · simp

/-- In every run a publication arrives as it should, and for a client whose inbox is never closed:
it has an inbox while it is connected; the messages routed into the inbox are those that were routed
while the client was connected with a matching filter, in the same order; and since the client last
connected nothing is lost from the inbox. -/
theorem delivers_run (settings : GraphSettings) (start : Nat) (events : List Event) :
    Delivers ((new settings start).run events) ∧
      ∀ id, Event.close id ∉ events →
        ((new settings start).run events).IsOpen id ∧
        routedTo id (new settings start) events = wantedBy id (new settings start) events ∧
        ∀ before address later, events = before ++ .broker (.register id address) :: later →
          (∀ other, Event.broker (.register id other) ∉ later) →
          ((new settings start).run events).inbox id =
            allGained id (((new settings start).run before).register id address) later := by
  have hb : (new settings start).broker.WellFormed := Broker.wellFormed_new settings start
  have hopen : ∀ id, (new settings start).IsOpen id := fun id hconnected => by cases hconnected
  refine ⟨delivers (wellFormed_run hb events), fun id hclose => ⟨isOpen_run hb (hopen id) hclose,
    routedTo_eq_wantedBy hb (hopen id) hclose, fun before address later hevents hregister => ?_⟩⟩
  -- since the registration the inbox has only been added to
  subst hevents
  have hlater : Event.close id ∉ later := fun hmem =>
    hclose (List.mem_append_right before (List.mem_cons_of_mem _ hmem))
  have hrun : (new settings start).run (before ++ .broker (.register id address) :: later) =
      (((new settings start).run before).register id address).run later :=
    List.foldl_append
  have hempty : (((new settings start).run before).register id address).inbox id = [] := by
    rw [inbox, register, Table.find?_set_self]
    rfl
  rw [hrun, inbox_run hregister hlater, hempty, List.nil_append]

/-- A client with two filters that route one topic is sent the message once; what was published
before it subscribed is not sent. -/
example : routedTo "b" (new {})
    [.broker (.register "a" "10.0.0.1"), .broker (.register "b" "10.0.0.2"),
      .broker (.publish "a" ⟨"x/y", "early", 0, false⟩ 0), .broker (.subscribe "x/#" "b"),
      .broker (.subscribe "+/y" "b"), .broker (.publish "a" ⟨"x/y", "late", 1, false⟩ 0)] =
    [⟨"x/y", "late", 1, false⟩] := by
  decide +kernel

end Exchange

end BrokerTopology
