import BrokerTopology.Proofs.Broker.Requests
import BrokerTopology.Proofs.Broker.Retained
/-!
# Brokers that are alike but for one client

Two brokers are alike but for one client (`AlikeBut`) when they differ in the filters of that client, in
what their graphs have recorded and in the documents that are retained. What reaches both of them leaves
them so and sends the other clients the same replies (`AlikeBut.serve`). A client that subscribes,
unsubscribes, acknowledges a probe or publishes on the latency topic does so in private: if it does so
with one of the two, they stay alike, and the other clients are sent nothing (`AlikeBut.serve_private`).

Messages on the topics of the documents are left aside throughout. They tell what the graph has
recorded, and so they tell what a client does in private.
-/

namespace BrokerTopology

/-! ## Leaving the documents aside -/

namespace GraphSettings

variable (settings : GraphSettings)

/-- Whether a topic is none of the two on which the broker publishes its documents. -/
def isOutside (topic : String) : Bool :=
  topic != settings.topic && topic != settings.memoryTopic

/-- Some replies without the messages on the topics of the documents. -/
def outside (replies : List Reply) : List Reply :=
  replies.filter fun r => r.message?.all fun m => settings.isOutside m.topic

@[simp] theorem outside_nil : settings.outside [] = [] := rfl

theorem outside_append (rs rs' : List Reply) :
    settings.outside (rs ++ rs') = settings.outside rs ++ settings.outside rs' :=
  List.filter_append rs rs'

/-- Of some messages those outside of the documents are left. -/
theorem outside_map_message (ms : List Message) :
    settings.outside (ms.map Reply.message) =
      (ms.filter fun m => settings.isOutside m.topic).map Reply.message := by
  rw [outside, List.filter_map]
  rfl

end GraphSettings

/-! ## Retained messages -/

/-- Every message is retained once, under its own topic. -/
structure Filed (t : Table Message) : Prop where
  keys_nodup : t.keys.Nodup
  topic_eq : ∀ topic m, t.find? topic = some m → m.topic = topic

theorem filed_empty : Filed .empty where
  keys_nodup := List.nodup_nil
  topic_eq := fun _ _ h => by cases h

section Filing

variable {t : Table Message}

theorem filed_retainIn (h : Filed t) (m : Message) : Filed (retainIn t m) where
  keys_nodup := keys_nodup_foldl_retainIn [m] h.keys_nodup
  topic_eq := by
    intro topic m' hfind
    rw [find?_retainIn] at hfind
    split at hfind
    · rename_i hhere
      rw [Bool.and_eq_true, beq_iff_eq] at hhere
      obtain ⟨hsame, -⟩ := Option.filter_eq_some_iff.mp hfind
      cases hsame
      exact hhere.2
    · exact h.topic_eq topic m' hfind

theorem filed_foldl_retainIn (h : Filed t) (ms : List Message) : Filed (ms.foldl retainIn t) := by
  induction ms generalizing t with
  | nil => exact h
  | cons m ms ih => exact ih (filed_retainIn h m)

/-- The messages under some topics are the messages on these topics. -/
theorem Filed.values_restrict (h : Filed t) (p : String → Bool) :
    (t.restrict p).values = t.values.filter fun m => p m.topic := by
  rw [Table.values, Table.values, List.filter_map]
  refine congrArg (List.map Prod.snd) (List.filter_congr fun e he => ?_)
  have hfind := (Table.mem_toList_iff h.keys_nodup).mp he
  exact congrArg p (h.topic_eq e.1 e.2 hfind).symm

/-- A message on another topic changes nothing under the topics that are selected. -/
theorem restrict_retainIn (t : Table Message) (p : String → Bool) (m : Message) :
    (retainIn t m).restrict p = if p m.topic then retainIn (t.restrict p) m else t.restrict p := by
  unfold retainIn
  split
  · split
    · exact t.restrict_erase p m.topic
    · exact t.restrict_set p m.topic m
  · simp

/-- What is filed under the topics that are selected depends on the messages on them. -/
theorem restrict_foldl_retainIn (t : Table Message) (p : String → Bool) (ms : List Message) :
    (ms.foldl retainIn t).restrict p =
      (ms.filter fun m => p m.topic).foldl retainIn (t.restrict p) := by
  induction ms generalizing t with
  | nil => rfl
  | cons m ms ih =>
    rw [List.foldl_cons, ih, restrict_retainIn, List.filter_cons]
    split
    · rfl
    · rfl

end Filing

namespace Broker

variable {b b' : Broker} {id other : String} {e : Event}

/-! ## What an event routes and replies -/

/-- The messages that an event routes. -/
def Event.routed (b : Broker) (e : Event) : List Message :=
  (Exchange.Event.broker e).routed b

/-- An event files the messages that it routes. -/
theorem retained_perform (b : Broker) (e : Event) :
    (b.perform e).2.retained = (e.routed b).foldl retainIn b.retained := by
  have hstep := Exchange.retained_step ⟨b, .empty⟩ (.broker e)
  rw [Exchange.broker_step] at hstep
  exact hstep

/-- The documents of a tick are on the topics of the documents. -/
theorem filter_documents (b : Broker) (now : Nat) (stamp : Int) (reading : Memory.Usage)
    (memoryStamp : Int) :
    (b.documents now stamp reading memoryStamp).filter (fun m => b.settings.isOutside m.topic) = [] := by
  rw [List.filter_eq_nil_iff]
  have htopic : ∀ topic document stamp, ∀ m ∈ documentMessage topic document stamp, m.topic = topic := by
    intro topic document stamp m hm
    obtain ⟨text, -, rfl⟩ := Option.map_eq_some_iff.mp (Option.mem_toList.mp hm)
    rfl
  intro m hm
  rcases List.mem_append.mp hm with hm | hm
  · simp [GraphSettings.isOutside, htopic _ _ _ m hm]
  · simp [GraphSettings.isOutside, htopic _ _ _ m hm]

/-- The replies to a subscription are the retained messages that the filter routes to the client, if
the subscription is accepted. -/
theorem replies_subscribe (b : Broker) (filter id : String) :
    (b.subscribe filter id).2.1 =
      if b.connections.contains id = true ∧ Filter.isValid filter = true then
        (b.retained.values.filter fun m => Filter.routes filter m.topic).map fun m =>
          ⟨id, .message m⟩
      else [] := by
  unfold subscribe
  split
  · rename_i hvalid
    split
    · rename_i hnone
      rw [contains_connections_eq_false hnone]
      simp
    · rename_i address haddress
      rw [if_pos ⟨contains_connections_iff.mpr ⟨address, haddress⟩, hvalid⟩]
  · rename_i hinvalid
    rw [if_neg fun haccepted => hinvalid haccepted.2]

/-! ## Brokers that are alike but for one client -/

/-- Two brokers differ in the filters of one client, in the documents that are retained and in what
has been recorded. -/
structure AlikeBut (id : String) (b b' : Broker) : Prop where
  settings : b'.settings = b.settings
  connections : b'.connections = b.connections
  filters : ∀ other, other ≠ id → b'.filtersOf other = b.filtersOf other
  retained : b'.retained.restrict b.settings.isOutside = b.retained.restrict b.settings.isOutside
  wellFormed : b.WellFormed ∧ b'.WellFormed
  filed : Filed b.retained ∧ Filed b'.retained

namespace AlikeBut

variable (h : AlikeBut id b b')

include h

theorem addressOf_eq (other : String) : b'.addressOf other = b.addressOf other := by
  rw [addressOf, h.connections, addressOf]

/-- The same messages are delivered to the other clients. -/
theorem receives_eq (hother : other ≠ id) (topic : String) :
    b'.receives other topic = b.receives other topic := by
  rw [receives, h.connections, h.filters other hother, receives]

/-- The same publications are accepted. -/
theorem accepts_eq (other : String) (m : Message) : b'.accepts other m = b.accepts other m := by
  rw [accepts, h.connections, h.settings, accepts]

/-- The same messages are routed, leaving the documents aside. -/
theorem routed_eq (e : Event) :
    (e.routed b').filter (fun m => b.settings.isOutside m.topic) =
      (e.routed b).filter fun m => b.settings.isOutside m.topic := by
  cases e with
  | publish other m now =>
    rw [Event.routed, Event.routed, Exchange.Event.routed, Exchange.Event.routed, h.accepts_eq]
  | publishGraph now stamp reading memoryStamp =>
    have hdocuments := b'.filter_documents now stamp reading memoryStamp
    rw [h.settings] at hdocuments
    exact hdocuments.trans (b.filter_documents now stamp reading memoryStamp).symm
  | _ => rfl

/-- The same messages are replayed to a client that subscribes, leaving the documents aside. -/
theorem replayed_eq (filter : String) :
    (b'.retained.values.filter fun m => Filter.routes filter m.topic).filter
        (fun m => b.settings.isOutside m.topic) =
      (b.retained.values.filter fun m => Filter.routes filter m.topic).filter
        fun m => b.settings.isOutside m.topic := by
  obtain ⟨hfiled, hfiled'⟩ := h.filed
  -- the two tables list the rest in the same order, so even the order of the replies is the same
  rw [List.filter_comm, ← hfiled'.values_restrict, h.retained, hfiled.values_restrict,
    List.filter_comm]

/-- What happens to both leaves them alike. -/
theorem perform (e : Event) : AlikeBut id (b.perform e).2 (b'.perform e).2 where
  settings := by rw [settings_perform, settings_perform, h.settings]
  connections := by rw [connections_perform, connections_perform, h.connections]
  filters := by
    intro other hother
    rw [filtersOf_perform, filtersOf_perform, h.connections, h.filters other hother]
  retained := by
    rw [settings_perform, retained_perform, retained_perform, restrict_foldl_retainIn,
      restrict_foldl_retainIn, h.retained, h.routed_eq]
  wellFormed := ⟨h.wellFormed.1.perform e, h.wellFormed.2.perform e⟩
  filed := by
    rw [retained_perform, retained_perform]
    exact ⟨filed_foldl_retainIn h.filed.1 _, filed_foldl_retainIn h.filed.2 _⟩

/-- A publication is answered alike. -/
theorem replies_publish (hother : other ≠ id) (sender : String) (m : Message) (now : Nat) :
    repliesTo other (b'.publish sender m now).1 = repliesTo other (b.publish sender m now).1 := by
  have hdeliveries : repliesTo other (b'.deliveries m) = repliesTo other (b.deliveries m) := by
    rw [repliesTo_deliveries h.wellFormed.1, repliesTo_deliveries h.wellFormed.2,
      h.receives_eq hother]
  -- the address and the settings decide how the publication is answered, and both are the same
  unfold publish
  rw [h.addressOf_eq, h.settings]
  split
  · rfl
  · split
    · rfl
    · split
      · rfl
      · exact hdeliveries

/-- What happens to both sends the other clients the same replies, leaving the documents aside. -/
theorem replies_perform (hother : other ≠ id) (e : Event) :
    b.settings.outside (repliesTo other (b'.perform e).1) =
      b.settings.outside (repliesTo other (b.perform e).1) := by
  cases e with
  | subscribe filter subscriber =>
    rw [Broker.perform, Broker.perform, replies_subscribe, replies_subscribe, h.connections]
    split
    · rw [repliesTo_map_message, repliesTo_map_message]
      split
      · rw [GraphSettings.outside_map_message, GraphSettings.outside_map_message, h.replayed_eq]
      · rfl
    · rfl
  | publish sender m now =>
    exact congrArg b.settings.outside (h.replies_publish hother sender m now)
  | publishGraph now stamp reading memoryStamp =>
    -- only documents are sent
    have hnone : ∀ {b₁ : Broker}, b₁.WellFormed →
        b₁.settings.outside (repliesTo other (b₁.publishGraph now stamp reading memoryStamp).1) = [] := by
      intro b₁ hb₁
      rw [(b₁.publishGraph_spec now stamp reading memoryStamp).1, repliesTo_flatMap_deliveries hb₁,
        GraphSettings.outside_map_message, List.filter_comm, filter_documents]
      rfl
    have hnone' := hnone h.wellFormed.2
    rw [h.settings] at hnone'
    exact hnone'.trans (hnone h.wellFormed.1).symm
  | _ => rfl

/-- Complaints are the same. -/
theorem complaintTo_eq (i : Input) : b'.complaintTo i = b.complaintTo i := by
  rcases i with e | ⟨sender, r, now, stamp⟩
  · rfl
  · cases r with
    | subscribe filter =>
      rw [complaintTo, complaintTo, complaint, complaint, h.connections]
    | _ => rfl

/-- What reaches both leaves them alike, and sends the other clients the same replies, leaving the
documents aside. -/
theorem serve (i : Input) :
    AlikeBut id (b.serve i).2 (b'.serve i).2 ∧
      ∀ other, other ≠ id → b.settings.outside (repliesTo other (b'.serve i).1) =
        b.settings.outside (repliesTo other (b.serve i).1) := by
  rw [serve_eq, serve_eq]
  refine ⟨h.perform i.toEvent, fun other hother => ?_⟩
  rw [repliesTo_append, repliesTo_append, GraphSettings.outside_append,
    GraphSettings.outside_append, h.replies_perform hother, h.complaintTo_eq]

end AlikeBut

theorem AlikeBut.refl (hb : b.WellFormed) (hfiled : Filed b.retained) (id : String) :
    AlikeBut id b b where
  settings := rfl
  connections := rfl
  filters := fun _ _ => rfl
  retained := rfl
  wellFormed := ⟨hb, hb⟩
  filed := ⟨hfiled, hfiled⟩

/-! ## Private requests -/

/-- What a client does in private: it subscribes, unsubscribes, acknowledges a probe, or publishes on
the latency topic. -/
def Event.IsPrivate (settings : GraphSettings) (id : String) : Event → Prop
  | .subscribe _ other => other = id
  | .unsubscribe _ other => other = id
  | .acknowledge other _ => other = id
  | .publish other m _ => other = id ∧ m.topic = settings.latencyTopic
  | _ => False

/-- An input is private if its event is. -/
def Input.IsPrivate (settings : GraphSettings) (id : String) (i : Input) : Prop :=
  i.toEvent.IsPrivate settings id

section Private

variable (he : e.IsPrivate b.settings id)

include he

/-- In private nobody is connected or disconnected. -/
theorem connections_of_isPrivate (t : Table Connection) : e.connections t = t := by
  cases e with
  | subscribe filter other => rfl
  | unsubscribe filter other => rfl
  | publish other m now => rfl
  | acknowledge other now => rfl
  | _ => exact he.elim

/-- A client changes no filters but its own. -/
theorem filters_of_isPrivate (hother : other ≠ id) (connected : Bool) (filters : List String) :
    e.filters other connected filters = filters := by
  cases e with
  | subscribe filter subscriber =>
    obtain rfl : subscriber = id := he
    exact if_neg fun haccepted => hother haccepted.1
  | unsubscribe filter subscriber =>
    obtain rfl : subscriber = id := he
    exact if_neg hother
  | publish other m now => rfl
  | acknowledge other now => rfl
  | _ => exact he.elim

/-- In private nothing is routed. -/
theorem routed_of_isPrivate : e.routed b = [] := by
  cases e with
  | publish sender m now =>
    -- what is published on the latency topic is not accepted as a message
    have hprobe : b.accepts sender m = false := by simp [accepts, he.2]
    rw [Event.routed, Exchange.Event.routed, hprobe]
    rfl
  | subscribe filter other => rfl
  | unsubscribe filter other => rfl
  | acknowledge other now => rfl
  | _ => exact he.elim

/-- Who acts in private gets all the replies. -/
theorem replies_of_isPrivate (hother : other ≠ id) : repliesTo other (b.perform e).1 = [] := by
  cases e with
  | subscribe filter subscriber =>
    obtain rfl : subscriber = id := he
    rw [Broker.perform, replies_subscribe]
    split
    · rw [repliesTo_map_message, if_neg hother]
    · rfl
  | publish sender m now =>
    obtain ⟨rfl, hlatency⟩ := he
    have hown : ∀ reply, repliesTo other [⟨sender, reply⟩] = [] := by
      intro reply
      rw [repliesTo_singleton, if_neg hother]
    rw [Broker.perform, publish]
    split
    · rfl
    · split
      · exact hown _
      · exact hown _
  | unsubscribe filter other => rfl
  | acknowledge other now => rfl
  | _ => exact he.elim

/-- What a client does in private with one of two brokers leaves them alike. -/
theorem AlikeBut.perform_private (h : AlikeBut id b b') : AlikeBut id (b.perform e).2 b' where
  settings := by rw [settings_perform, h.settings]
  connections := by rw [connections_perform, connections_of_isPrivate he, h.connections]
  filters := by
    intro other hother
    rw [filtersOf_perform, filters_of_isPrivate he hother, h.filters other hother]
  retained := by rw [settings_perform, retained_perform, routed_of_isPrivate he, List.foldl_nil, h.retained]
  wellFormed := ⟨h.wellFormed.1.perform e, h.wellFormed.2⟩
  filed := by
    rw [retained_perform]
    exact ⟨filed_foldl_retainIn h.filed.1 _, h.filed.2⟩

end Private

/-- Complaints about a private request go to the client. -/
theorem complaintTo_of_isPrivate {i : Input} (hi : i.IsPrivate b.settings id) (hother : other ≠ id) :
    repliesTo other (b.complaintTo i) = [] := by
  rcases i with e | ⟨sender, r, now, stamp⟩
  · rfl
  · cases r with
    | subscribe filter =>
      obtain rfl : sender = id := hi
      rw [complaintTo, complaint]
      split
      · rw [repliesTo_singleton, if_neg hother]
      · rfl
    | _ => rfl

/-- What a client asks one of two brokers in private leaves them alike, and sends the other clients
nothing. -/
theorem AlikeBut.serve_private (h : AlikeBut id b b') {i : Input} (hi : i.IsPrivate b.settings id) :
    AlikeBut id (b.serve i).2 b' ∧ ∀ other, other ≠ id → repliesTo other (b.serve i).1 = [] := by
  rw [serve_eq]
  refine ⟨h.perform_private hi, fun other hother => ?_⟩
  rw [repliesTo_append, replies_of_isPrivate hi hother, complaintTo_of_isPrivate hi hother,
    List.append_nil]

end Broker

end BrokerTopology
