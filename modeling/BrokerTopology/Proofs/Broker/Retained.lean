import Mathlib.Data.List.Induction
import BrokerTopology.Proofs.Broker.Delivery
/-!
# What is retained

The broker keeps one message for each topic: the last one on the topic that was to be retained, unless
that one has no payload. What it keeps depends on the messages that a run routes and on nothing else,
so it is a fold over them. A client that subscribes is sent what is kept on the topics that the filter
routes to it, each message once.
-/

namespace BrokerTopology

/-! ## Filing one message after the other -/

/-- Files a message under its topic if it is to be retained, or clears the topic if the message has no
payload. -/
def retainIn (t : Table Message) (m : Message) : Table Message :=
  if m.retain then if m.payload.isEmpty then t.erase m.topic else t.set m.topic m else t

/-- What some messages leave on a topic: the last one on the topic that is to be retained, unless that
one has no payload. -/
def lastRetained (topic : String) (ms : List Message) : Option Message :=
  ((ms.filter fun m => m.retain && m.topic == topic).getLast?).filter fun m => !m.payload.isEmpty

section Retained

variable {t : Table Message} {m : Message} {ms : List Message} {topic : String}

/-- A message that is not to be retained is not filed. -/
theorem retainIn_of_not_retain (t : Table Message) (h : m.retain = false) : retainIn t m = t := by
  rw [retainIn, h]
  rfl

/-- A retained message changes what is found under its own topic. -/
theorem find?_retainIn (t : Table Message) (m : Message) (topic : String) :
    (retainIn t m).find? topic =
      if m.retain && m.topic == topic then (some m).filter fun m => !m.payload.isEmpty
      else t.find? topic := by
  rw [retainIn]
  cases hretain : m.retain with
  | false => rfl
  | true =>
    cases hempty : m.payload.isEmpty with
    | true =>
      rw [if_pos rfl, if_pos rfl, Table.find?_erase]
      by_cases h : m.topic = topic
      · simp [h, hempty, Option.filter]
      · simp [h, Ne.symm h]
    | false =>
      rw [if_pos rfl, if_neg Bool.false_ne_true, Table.find?_set]
      by_cases h : m.topic = topic
      · simp [h, hempty, Option.filter]
      · simp [h, Ne.symm h]

/-- One more message decides about its own topic. -/
theorem lastRetained_append_singleton (topic : String) (ms : List Message) (m : Message) :
    lastRetained topic (ms ++ [m]) =
      if m.retain && m.topic == topic then (some m).filter fun m => !m.payload.isEmpty
      else lastRetained topic ms := by
  rw [lastRetained, List.filter_append]
  cases hhere : m.retain && m.topic == topic with
  | true =>
    have hone : [m].filter (fun m => m.retain && m.topic == topic) = [m] := by simp [hhere]
    rw [hone, List.getLast?_concat, if_pos rfl]
  | false =>
    have hnone : [m].filter (fun m => m.retain && m.topic == topic) = [] := by simp [hhere]
    rw [hnone, List.append_nil, if_neg Bool.false_ne_true]
    rfl

/-- Filing messages one after the other leaves the last on each topic. -/
theorem find?_foldl_retainIn (ms : List Message) (topic : String) :
    (ms.foldl retainIn .empty).find? topic = lastRetained topic ms := by
  induction ms using List.reverseRecOn with
  | nil => rfl
  | append_singleton ms m ih =>
    rw [List.foldl_append, List.foldl_cons, List.foldl_nil, find?_retainIn,
      lastRetained_append_singleton, ih]

/-- What is left on a topic is a message on the topic. -/
theorem topic_eq_of_lastRetained (h : lastRetained topic ms = some m) : m.topic = topic := by
  obtain ⟨hlast, -⟩ := Option.filter_eq_some_iff.mp h
  have hmem := List.mem_filter.mp (List.mem_of_getLast? hlast)
  simpa using (Bool.and_eq_true_iff.mp hmem.2).2

/-- Filing repeats no topic. -/
theorem keys_nodup_foldl_retainIn (ms : List Message) (h : t.keys.Nodup) :
    (ms.foldl retainIn t).keys.Nodup := by
  induction ms generalizing t with
  | nil => exact h
  | cons m ms ih =>
    refine ih ?_
    unfold retainIn
    split
    · split
      · exact Table.keys_nodup_erase h _
      · exact Table.keys_nodup_set h _ _
    · exact h

/-- Messages that are not to be retained leave the table alone. -/
theorem foldl_retainIn_of_forall_not_retain (t : Table Message)
    (h : ∀ m ∈ ms, m.retain = false) : ms.foldl retainIn t = t := by
  induction ms generalizing t with
  | nil => rfl
  | cons m ms ih =>
    obtain ⟨hm, hms⟩ := List.forall_mem_cons.mp h
    rw [List.foldl_cons, retainIn_of_not_retain t hm, ih t hms]

/-- The messages that a table keeps, each under its own topic, and that a filter routes. -/
theorem mem_replayed_iff (hkeys : t.keys.Nodup)
    (hfiled : ∀ topic m, t.find? topic = some m → m.topic = topic) (filter : String) (m : Message) :
    m ∈ t.values.filter (fun m => Filter.routes filter m.topic) ↔
      t.find? m.topic = some m ∧ Filter.routes filter m.topic = true := by
  rw [List.mem_filter, Table.values, List.mem_map]
  refine and_congr_left' ⟨?_, fun h => ⟨(m.topic, m), (Table.mem_toList_iff hkeys).mpr h, rfl⟩⟩
  rintro ⟨⟨topic, m'⟩, hmem, rfl⟩
  have hfind := (Table.mem_toList_iff hkeys).mp hmem
  rw [hfiled topic m' hfind]
  exact hfind

/-- No topic is replayed twice. -/
theorem topics_replayed_nodup (hkeys : t.keys.Nodup)
    (hfiled : ∀ topic m, t.find? topic = some m → m.topic = topic) (filter : String) :
    ((t.values.filter fun m => Filter.routes filter m.topic).map Message.topic).Nodup := by
  have hkeys' : t.values.map Message.topic = t.keys := by
    rw [Table.values, Table.keys, List.map_map]
    refine List.map_congr_left fun e he => ?_
    exact hfiled e.1 e.2 ((Table.mem_toList_iff hkeys).mp he)
  refine List.Nodup.sublist (List.filter_sublist.map Message.topic) ?_
  rw [hkeys']
  exact hkeys

end Retained

/-! ## One event -/

/-- Several messages that are sent to one client reach it, and no other. -/
theorem repliesTo_map_message (id other : String) (ms : List Message) :
    repliesTo other (ms.map fun m => ⟨id, .message m⟩) =
      if other = id then ms.map Reply.message else [] := by
  induction ms with
  | nil => simp
  | cons m ms ih =>
    rw [List.map_cons, repliesTo_cons, repliesTo_singleton, ih]
    by_cases h : other = id
    · simp [h]
    · simp [h]

namespace Broker

variable (b : Broker)

/-- An accepted publication is filed, and no other. -/
theorem retained_publish (id : String) (m : Message) (now : Nat) :
    (b.publish id m now).2.retained = if b.accepts id m then retainIn b.retained m else b.retained := by
  unfold publish
  cases haddress : b.addressOf id with
  | none =>
    simp [accepts, contains_connections_eq_false haddress]
  | some address =>
    have hconnected := contains_connections_iff.mpr ⟨address, haddress⟩
    dsimp only
    split
    · rename_i hinvalid
      have hunnamed : TopicName.isValid m.topic = false := by simpa using hinvalid
      have hrefused : b.accepts id m = false := by simp [accepts, hunnamed]
      rw [hrefused]
      rfl
    · rename_i hvalid
      split
      · rename_i hlatency
        have hprobe : b.accepts id m = false := by simp [accepts, hlatency]
        rw [hprobe]
        rfl
      · rename_i hlatency
        have haccepted : b.accepts id m = true := by
          simpa [accepts, hconnected, hlatency] using hvalid
        rw [haccepted]
        rfl

/-- A document that is routed is filed. -/
theorem retained_routeDocument (topic : String) (document : Option String) (stamp : Int) :
    (b.routeDocument topic document stamp).2.retained =
      (documentMessage topic document stamp).foldl retainIn b.retained := by
  cases document with
  | none => rfl
  | some text => rfl

/-- The documents of a tick are filed, one after the other. -/
theorem retained_publishGraph (now : Nat) (stamp : Int) (reading : Memory.Usage)
    (memoryStamp : Int) :
    (b.publishGraph now stamp reading memoryStamp).2.retained =
      (b.documents now stamp reading memoryStamp).foldl retainIn b.retained := by
  let ticked : Broker := { b with monitor := (b.monitor.tick now reading).2 }
  let update := (b.monitor.tick now reading).1
  have hgraph := ticked.retained_routeDocument b.settings.topic update.graph stamp
  have hsettings := (routeDocument_spec (.refl ticked) b.settings.topic update.graph stamp).2.1.settings
  show ((ticked.routeDocument b.settings.topic update.graph stamp).2.routeDocument
    (ticked.routeDocument b.settings.topic update.graph stamp).2.settings.memoryTopic
    update.memory memoryStamp).2.retained = _
  rw [retained_routeDocument, hgraph, hsettings, documents, List.foldl_append]

/-- A subscription changes nothing that is retained. -/
theorem retained_subscribe (filter id : String) :
    (b.subscribe filter id).2.2.retained = b.retained := by
  unfold subscribe
  split
  · split
    · rfl
    · rfl
  · rfl

/-- The end of a subscription changes nothing that is retained. -/
theorem retained_unsubscribe (filter id : String) :
    (b.unsubscribe filter id).retained = b.retained := by
  unfold unsubscribe
  split
  · dsimp only
    split
    · rfl
    · rfl
  · rfl

/-- A disconnection changes nothing that is retained. -/
theorem retained_cleanup (id : String) : (b.cleanup id).retained = b.retained := by
  unfold cleanup remove
  cases b.connections.find? id with
  | none => rfl
  | some c => rfl

/-- An acknowledgement changes nothing that is retained. -/
theorem retained_acknowledge (id : String) (now : Nat) :
    (b.acknowledge id now).retained = b.retained := by
  unfold acknowledge
  split
  · rfl
  · rfl

/-- A subscription that is accepted is answered with the retained messages that the filter routes to
the client. -/
theorem subscribe_of_accepted {filter id : String} (h : (b.subscribe filter id).1 = true) :
    b.connections.contains id = true ∧
      (b.subscribe filter id).2.1 =
        (b.retained.values.filter fun m => Filter.routes filter m.topic).map fun m =>
          ⟨id, .message m⟩ := by
  unfold subscribe at h ⊢
  by_cases hvalid : Filter.isValid filter = true
  · rw [if_pos hvalid] at h ⊢
    cases haddress : b.addressOf id with
    | none =>
      rw [haddress] at h
      cases h
    | some address => exact ⟨contains_connections_iff.mpr ⟨address, haddress⟩, rfl⟩
  · rw [if_neg hvalid] at h
    cases h

end Broker

namespace Exchange

variable {x : Exchange}

/-- An event files the messages that it routes. -/
theorem retained_step (x : Exchange) (e : Event) :
    (x.step e).broker.retained = (e.routed x.broker).foldl retainIn x.broker.retained := by
  rcases e with (_ | _ | id | ⟨filter, id⟩ | ⟨filter, id⟩ | ⟨id, m, now⟩ | ⟨id, now⟩ |
    ⟨now, stamp, reading, memoryStamp⟩) | _
  case broker.register => rfl
  case broker.remove => rfl
  case broker.cleanup => exact x.broker.retained_cleanup id
  case broker.subscribe => exact x.broker.retained_subscribe filter id
  case broker.unsubscribe => exact x.broker.retained_unsubscribe filter id
  case broker.publish =>
    rw [broker_step, Event.routed]
    refine (x.broker.retained_publish id m now).trans ?_
    split
    · rfl
    · rfl
  case broker.acknowledge => exact x.broker.retained_acknowledge id now
  case broker.publishGraph => exact x.broker.retained_publishGraph now stamp reading memoryStamp
  case close => rfl

/-! ## Runs -/

/-- The messages that a run routes, in the order of routing. -/
def routedIn : Exchange → List Event → List Message
  | _, [] => []
  | x, e :: es => e.routed x.broker ++ routedIn (x.step e) es

/-- A run files the messages that it routes. -/
theorem retained_foldl (x : Exchange) (events : List Event) :
    (x.run events).broker.retained = (routedIn x events).foldl retainIn x.broker.retained := by
  induction events generalizing x with
  | nil => rfl
  | cons e es ih =>
    rw [routedIn, List.foldl_append, ← retained_step]
    exact ih (x.step e)

/-- After every run the broker keeps on a topic what the messages routed in the run leave on it; an
event that routes no message to be retained changes nothing that is kept; and a subscription that is
accepted puts into the inbox of the client, which is open if it has not been closed, one message for
each that is kept on a topic that the filter routes, and nothing into another inbox. -/
theorem retained_run (settings : GraphSettings) (start : Nat) (events : List Event) :
    (∀ topic, ((new settings start).run events).broker.retained.find? topic =
      lastRetained topic (routedIn (new settings start) events)) ∧
    (∀ e : Event, (∀ m ∈ e.routed ((new settings start).run events).broker, m.retain = false) →
      (((new settings start).run events).step e).broker.retained =
        ((new settings start).run events).broker.retained) ∧
    ∀ filter id, (((new settings start).run events).broker.subscribe filter id).1 = true →
      (Event.close id ∉ events →
        (((new settings start).run events).inboxes.find? id).isSome = true) ∧
      ∃ ms : List Message, (ms.map Message.topic).Nodup ∧
        (∀ m, m ∈ ms ↔
          ((new settings start).run events).broker.retained.find? m.topic = some m ∧
            Filter.routes filter m.topic = true) ∧
        ∀ other, (((new settings start).run events).step
            (.broker (.subscribe filter id))).inboxes.find? other =
          (((new settings start).run events).inboxes.find? other).map fun old =>
            if other = id then old ++ ms.map Reply.message else old := by
  have hfold := retained_foldl (new settings start) events
  have hfind : ∀ topic, ((new settings start).run events).broker.retained.find? topic =
      lastRetained topic (routedIn (new settings start) events) := by
    intro topic
    rw [hfold]
    exact find?_foldl_retainIn _ topic
  have hkeys : ((new settings start).run events).broker.retained.keys.Nodup := by
    rw [hfold]
    exact keys_nodup_foldl_retainIn _ List.nodup_nil
  have hfiled : ∀ topic m,
      ((new settings start).run events).broker.retained.find? topic = some m → m.topic = topic := by
    intro topic m hm
    rw [hfind] at hm
    exact topic_eq_of_lastRetained hm
  refine ⟨hfind, fun e he => ?_, fun filter id haccepted => ?_⟩
  · rw [retained_step, foldl_retainIn_of_forall_not_retain _ he]
  · obtain ⟨hconnected, hreplayed⟩ := Broker.subscribe_of_accepted _ haccepted
    have hopen : Event.close id ∉ events → ((new settings start).run events).IsOpen id :=
      isOpen_run (Broker.wellFormed_new settings start) fun h => by cases h
    refine ⟨fun hclose => hopen hclose hconnected, _, topics_replayed_nodup hkeys hfiled filter,
      mem_replayed_iff hkeys hfiled filter, fun other => ?_⟩
    rw [find?_step _ (fun _ h => by cases h), Broker.perform, hreplayed]
    refine congrArg (Option.map · _) (funext fun old => ?_)
    rw [repliesTo_map_message]
    split
    · rfl
    · exact List.append_nil old

/-- A publisher retains messages on two topics, replaces the one, clears the other, and leaves. -/
def legacy : List Event :=
  [.broker (.register "a" "10.0.0.1"), .broker (.register "b" "10.0.0.2"),
    .broker (.publish "a" ⟨"x/y", "old", 0, true⟩ 0), .broker (.publish "a" ⟨"x/z", "gone", 1, true⟩ 0),
    .broker (.publish "a" ⟨"x/y", "new", 2, true⟩ 0), .broker (.publish "a" ⟨"x/z", "", 3, true⟩ 0),
    .broker (.cleanup "a")]

/-- Who subscribes then is sent the message that is left, and no other. -/
theorem retained_run_legacy :
    (((new {}).run legacy).broker.subscribe "x/#" "b").1 = true ∧
      ∃ ms : List Message, (∀ m, m ∈ ms ↔
          ((new {}).run legacy).broker.retained.find? m.topic = some m ∧
            Filter.routes "x/#" m.topic = true) ∧
        ⟨"x/y", "new", 2, true⟩ ∈ ms ∧
        (((new {}).run legacy).step (.broker (.subscribe "x/#" "b"))).inboxes.find? "b" =
          (((new {}).run legacy).inboxes.find? "b").map fun old => old ++ ms.map Reply.message := by
  have haccepted : (((new {}).run legacy).broker.subscribe "x/#" "b").1 = true := by decide +kernel
  obtain ⟨-, -, hreplay⟩ := retained_run {} 0 legacy
  obtain ⟨-, ms, -, hmem, hinboxes⟩ := hreplay "x/#" "b" haccepted
  refine ⟨haccepted, ms, hmem, (hmem _).mpr (by decide +kernel), ?_⟩
  rw [hinboxes]
  rfl

example : (((new {}).run legacy).step (.broker (.subscribe "x/#" "b"))).inbox "b" =
    [.message ⟨"x/y", "new", 2, true⟩] := by
  decide +kernel

end Exchange

end BrokerTopology
