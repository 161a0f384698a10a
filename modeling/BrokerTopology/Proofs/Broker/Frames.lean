import BrokerTopology.CommandLine.Watch
import BrokerTopology.Proofs.Broker.Alike
import BrokerTopology.Proofs.Json.Tagged
/-!
# Frames read back

Requests, replies and messages are read back from the texts that are written for them, whatever
characters their fields hold. Only a timestamp has to fit a signed word of 64 bits: a larger one would
be written with all its digits and then refused.

The broker stamps messages with the wall time and sends again what it has retained. So what a run sends
reads back if the wall times in the run fit.
-/

namespace BrokerTopology

open Json (Value Reads)

/-! ## Requests -/

namespace Request

theorem reads_reader (r : Request) : Reads reader r.toValue.render r := by
  cases r with
  | subscribe filter =>
    have htagged : Reads (Json.asTagged "type" variants) (subscribe filter).toValue.render
        ⟨"subscribe", .object [("topic", .text filter)]⟩ :=
      Json.reads_asTagged (by decide) (by simp [Value.Readable.text])
    exact htagged.map rfl
  | unsubscribe filter =>
    have htagged : Reads (Json.asTagged "type" variants) (unsubscribe filter).toValue.render
        ⟨"unsubscribe", .object [("topic", .text filter)]⟩ :=
      Json.reads_asTagged (by decide) (by simp [Value.Readable.text])
    exact htagged.map rfl
  | publish topic payload retain =>
    have htagged : Reads (Json.asTagged "type" variants) (publish topic payload retain).toValue.render
        ⟨"publish", .object [("topic", .text topic), ("payload", .text payload),
          ("retain", .bool retain)]⟩ :=
      Json.reads_asTagged (by decide) (by simp [Value.Readable.text, Value.Readable.bool])
    exact htagged.map rfl
  | probeAck =>
    have htagged : Reads (Json.asTagged "type" variants) probeAck.toValue.render
        ⟨"probe_ack", .object []⟩ :=
      Json.reads_asTagged (by decide) (List.forall_mem_nil _)
    exact htagged.map rfl

/-- A request is read back from its text. -/
theorem read_write (r : Request) : read r.write = .ok r :=
  r.reads_reader.document

end Request

/-! ## Messages and replies -/

/-- A message whose timestamp fits a signed word. -/
def Message.Timely (m : Message) : Prop :=
  Word.fitsSigned m.timestamp = true

/-- A reply that carries no other than a timely message. -/
def Reply.Timely (r : Reply) : Prop :=
  ∀ m ∈ r.message?, m.Timely

namespace Message

theorem reads_asRecord {m : Message} (h : m.Timely) :
    Reads (Json.asRecord fields) m.toValue.render m.toValue := by
  have hnames : ["topic", "payload", "timestamp", "retain"].Nodup := by decide
  exact Json.reads_asRecord (.cons (Json.takes rfl (Json.reads_asText m.topic))
    (.cons (Json.takes rfl (Json.reads_asText m.payload))
    (.cons (Json.takes rfl (Json.reads_asInt h))
    (.cons (Json.takes rfl (Json.reads_asBool m.retain)) .nil)))) hnames rfl

/-- A message is read back from its text. -/
theorem read_write {m : Message} (h : m.Timely) : read m.write = .ok m := by
  have hread : Json.document (Json.asRecord fields) m.write = .ok m.toValue :=
    (reads_asRecord h).document
  rw [read, Json.bind_of_eq_ok hread]
  rfl

end Message

namespace Reply

theorem reads_reader {r : Reply} (h : r.Timely) : Reads reader r.toValue.render r := by
  cases r with
  | message m =>
    let ms : List (String × Value) := [("topic", .text m.topic), ("payload", .text m.payload),
      ("timestamp", .int m.timestamp), ("retain", .bool m.retain)]
    have htagged : Reads (Json.asTagged "type" variants) (message m).toValue.render
        ⟨"message", .object ms⟩ := by
      have htimestamp := Json.readsBack_of_fitsSigned (h m rfl)
      refine Json.reads_asTagged (by decide) ?_
      simp [Value.Readable.text, Value.Readable.bool, Value.int, Value.Readable.number htimestamp]
    have hfields : Json.variantFields (variantFields "message") (.object ms) = .ok ms := by
      have hnames : ["topic", "payload", "timestamp", "retain"].Nodup := by decide
      exact Json.variantFields_object
        (.cons ⟨rfl, rfl⟩ (.cons ⟨rfl, rfl⟩ (.cons ⟨rfl, h m rfl⟩ (.cons ⟨rfl, rfl⟩ .nil)))) hnames
    refine htagged.map ?_
    rw [ofTagged, Json.bind_of_eq_ok hfields]
    rfl
  | probe =>
    have htagged : Reads (Json.asTagged "type" variants) probe.toValue.render
        ⟨"probe", .object []⟩ :=
      Json.reads_asTagged (by decide) (List.forall_mem_nil _)
    exact htagged.map rfl
  | error text =>
    have htagged : Reads (Json.asTagged "type" variants) (error text).toValue.render
        ⟨"error", .object [("message", .text text)]⟩ :=
      Json.reads_asTagged (by decide) (by simp [Value.Readable.text])
    exact htagged.map rfl

/-- A reply is read back from its text. -/
theorem read_write {r : Reply} (h : r.Timely) : read r.write = .ok r :=
  (reads_reader h).document

end Reply

/-! ## What the broker sends -/

namespace Broker

/-- The wall times at which an event stamps messages. -/
def Event.stamps : Event → List Int
  | .publish _ m _ => [m.timestamp]
  | .publishGraph _ stamp _ memoryStamp => [stamp, memoryStamp]
  | _ => []

/-- An input whose wall times, if it has any, fit a signed word. -/
def Input.Timely (i : Input) : Prop :=
  ∀ t ∈ i.toEvent.stamps, Word.fitsSigned t = true

instance (i : Input) : Decidable i.Timely :=
  inferInstanceAs (Decidable (∀ t ∈ i.toEvent.stamps, Word.fitsSigned t = true))

/-- Everything that a broker sends while it is served several inputs, in the order of sending. -/
def sentAll : Broker → List Input → List Delivery
  | _, [] => []
  | b, i :: is => (b.serve i).1 ++ sentAll (b.serve i).2 is

/-- All messages that are retained are timely. -/
def RetainsTimely (b : Broker) : Prop :=
  ∀ m ∈ b.retained.values, m.Timely

section Run

variable {b : Broker} {i : Input} {m : Message}

/-- What is filed is one more message. -/
theorem mem_values_retainIn {t : Table Message} {m' : Message} (h : m' ∈ (retainIn t m).values) :
    m' = m ∨ m' ∈ t.values := by
  rw [retainIn] at h
  split at h
  · split at h
    · exact .inr (Table.mem_values_of_erase h)
    · exact Table.mem_values_of_set h
  · exact .inr h

theorem mem_values_foldl_retainIn {t : Table Message} {ms : List Message}
    (h : m ∈ (ms.foldl retainIn t).values) : m ∈ ms ∨ m ∈ t.values := by
  induction ms generalizing t with
  | nil => exact .inr h
  | cons m' ms ih =>
    rcases ih h with hmem | hmem
    · exact .inl (List.mem_cons_of_mem m' hmem)
    · rcases mem_values_retainIn hmem with rfl | hmem
      · exact .inl List.mem_cons_self
      · exact .inr hmem

/-- An event routes messages with its own wall times. -/
theorem timestamp_of_routed (e : Event) (h : m ∈ e.routed b) : m.timestamp ∈ e.stamps := by
  cases e with
  | publish id m' now =>
    have hmem : m ∈ if b.accepts id m' then [m'] else [] := h
    split at hmem
    · rw [List.mem_singleton.mp hmem]
      exact List.mem_singleton_self m'.timestamp
    · cases hmem
  | publishGraph now stamp reading memoryStamp =>
    have hdocument : ∀ topic document stamp, m ∈ documentMessage topic document stamp →
        m.timestamp = stamp := by
      intro topic document stamp hm
      obtain ⟨text, -, rfl⟩ := Option.map_eq_some_iff.mp (Option.mem_toList.mp hm)
      rfl
    rcases List.mem_append.mp h with hm | hm
    · exact List.mem_cons.mpr (.inl (hdocument _ _ _ hm))
    · exact List.mem_cons_of_mem _ (List.mem_singleton.mpr (hdocument _ _ _ hm))
  | _ => cases h

/-- A delivery of a message carries that message. -/
theorem eq_of_mem_deliveries {m' : Message} {d : Delivery} (hd : d ∈ b.deliveries m')
    (hm : m ∈ d.reply.message?) : m = m' := by
  obtain ⟨id, -, rfl⟩ := List.mem_map.mp hd
  exact (Option.some.inj hm).symm

/-- Every message that an event sends is one that it routes or one that is retained. -/
theorem message_of_perform (e : Event) {d : Delivery} (hd : d ∈ (b.perform e).1)
    (hm : m ∈ d.reply.message?) : m ∈ e.routed b ∨ m ∈ b.retained.values := by
  cases e with
  | subscribe filter id =>
    rw [perform, replies_subscribe] at hd
    split at hd
    · obtain ⟨m', hm', rfl⟩ := List.mem_map.mp hd
      obtain rfl : m' = m := Option.some.inj hm
      exact .inr (List.mem_filter.mp hm').1
    · cases hd
  | publish id m' now =>
    rw [perform] at hd
    cases haccepts : b.accepts id m' with
    | true =>
      rw [publish_of_accepts haccepts] at hd
      have hrouted : m' ∈ if b.accepts id m' then [m'] else [] := by simp [haccepts]
      exact .inl (eq_of_mem_deliveries hd hm ▸ hrouted)
    | false =>
      -- a probe or an error carries no message
      have hnone : (repliesTo d.recipient (b.publish id m' now).1).filterMap Reply.message? = [] :=
        publish_of_not_accepts haccepts now
      have hreply : d.reply ∈ repliesTo d.recipient (b.publish id m' now).1 :=
        List.mem_map_of_mem (List.mem_filter.mpr ⟨hd, by simp⟩)
      have hmem := List.mem_filterMap.mpr ⟨d.reply, hreply, hm⟩
      rw [hnone] at hmem
      cases hmem
  | publishGraph now stamp reading memoryStamp =>
    rw [perform, (b.publishGraph_spec now stamp reading memoryStamp).1] at hd
    obtain ⟨m', hm', hd⟩ := List.mem_flatMap.mp hd
    exact .inl (eq_of_mem_deliveries hd hm ▸ hm')
  | _ => cases hd

/-- A complaint carries no message. -/
theorem message?_of_complaintTo {d : Delivery} (hd : d ∈ b.complaintTo i) :
    d.reply.message? = none := by
  rcases i with e | ⟨id, r, now, stamp⟩
  · cases hd
  · cases r with
    | subscribe filter =>
      rw [complaintTo, complaint] at hd
      split at hd
      · rw [List.mem_singleton.mp hd]
        rfl
      · cases hd
    | _ => cases hd

/-- An input with a timely stamp sends timely replies, and leaves timely messages behind. -/
theorem RetainsTimely.serve (h : b.RetainsTimely) (hi : i.Timely) :
    (∀ d ∈ (b.serve i).1, d.reply.Timely) ∧ (b.serve i).2.RetainsTimely := by
  have hrouted : ∀ m ∈ i.toEvent.routed b, m.Timely := fun m hm =>
    hi m.timestamp (timestamp_of_routed i.toEvent hm)
  rw [serve_eq]
  constructor
  · intro d hd m hm
    rcases List.mem_append.mp hd with hd | hd
    · rcases message_of_perform i.toEvent hd hm with hmem | hmem
      · exact hrouted m hmem
      · exact h m hmem
    · rw [message?_of_complaintTo hd] at hm
      cases hm
  · intro m hm
    rw [retained_perform] at hm
    rcases mem_values_foldl_retainIn hm with hmem | hmem
    · exact hrouted m hmem
    · exact h m hmem

/-- A run with timely stamps sends timely replies. -/
theorem RetainsTimely.sentAll {inputs : List Input} (h : b.RetainsTimely)
    (hinputs : ∀ i ∈ inputs, i.Timely) : ∀ d ∈ b.sentAll inputs, d.reply.Timely := by
  induction inputs generalizing b with
  | nil => exact List.forall_mem_nil _
  | cons i is ih =>
    obtain ⟨hi, his⟩ := List.forall_mem_cons.mp hinputs
    obtain ⟨hsent, hretains⟩ := h.serve hi
    exact List.forall_mem_append.mpr ⟨hsent, ih hretains his⟩

end Run

theorem retainsTimely_new (settings : GraphSettings) (start : Nat) :
    (new settings start).RetainsTimely :=
  List.forall_mem_nil _

end Broker

/-! ## Both ends of a connection -/

/-- A request that is received as its text is applied. -/
theorem Exchange.receive_write (x : Exchange) (id : String) (r : Request) (now : Nat) (stamp : Int) :
    x.receive id r.write now stamp = (.ok (), x.after (x.broker.dispatch id r now stamp)) := by
  rw [receive, Request.read_write]

/-- A reply that is received as its text is answered. -/
theorem CommandLine.followFrames_write (topic : String) {r : Reply} (h : r.Timely)
    (rest : List ServerFrame) :
    followFrames topic (.text r.write :: rest) =
      (replyTranscript topic r).append (followFrames topic rest) := by
  rw [followFrames, Reply.read_write h]

namespace Broker

/-- Every request, every reply and every message is read back from its text, whatever its fields hold,
if the timestamp in it fits a signed word. In particular each frame that the broker sends in a run with
such wall times is read as the reply that it stands for, and answered as such by a watch session; and
each request that a session sends is read as that request, and applied as such by the broker. -/
theorem frames_read_back (settings : GraphSettings) (start : Nat) (inputs : List Input)
    (hinputs : ∀ i ∈ inputs, i.Timely) :
    (∀ r : Request, Request.read r.write = .ok r) ∧
    (∀ r : Reply, r.Timely → Reply.read r.write = .ok r) ∧
    (∀ m : Message, m.Timely → Message.read m.write = .ok m) ∧
    (∀ d ∈ (new settings start).sentAll inputs, Reply.read d.reply.write = .ok d.reply ∧
      ∀ topic frames, CommandLine.followFrames topic (.text d.reply.write :: frames) =
        (CommandLine.replyTranscript topic d.reply).append (CommandLine.followFrames topic frames)) ∧
    ∀ o graphTopic latencyTopic frames,
      ∀ r ∈ (CommandLine.watch o graphTopic latencyTopic frames).sent, Request.read r.write = .ok r ∧
        ∀ (x : Exchange) (id : String) (now : Nat) (stamp : Int),
          x.receive id r.write now stamp = (.ok (), x.after (x.broker.dispatch id r now stamp)) := by
  have hsent := (retainsTimely_new settings start).sentAll hinputs
  refine ⟨Request.read_write, fun r hr => Reply.read_write hr, fun m hm => Message.read_write hm,
    fun d hd => ⟨Reply.read_write (hsent d hd), fun topic frames => ?_⟩,
    fun _ _ _ _ r _ => ⟨r.read_write, fun x id now stamp => x.receive_write id r now stamp⟩⟩
  exact CommandLine.followFrames_write topic (hsent d hd) frames

/-- A message at either end of the wall time is retained, sent to a client that subscribes later, and
followed by a probe and by two refusals. -/
def correspondence : List Input :=
  [.event (.register "p" "10.0.0.1"), .event (.register "q" "10.0.0.2"),
    .request "p" (.publish "x/\"y\"" "\\ \u0001 \u6e29" true) 0 (-9223372036854775808),
    .request "q" (.subscribe "#") 1 0,
    .request "p" (.publish "z" "" false) 2 9223372036854775807,
    .request "q" (.publish "$latency" "" false) 3 0, .request "q" (.subscribe "a/#/b") 4 0,
    .request "p" (.publish "\n+" "" false) 5 0]

/-- What is sent in it reads back, and this is everything that is sent. -/
theorem frames_read_back_correspondence :
    (∀ i ∈ correspondence, i.Timely) ∧
      (new { latencyTopic := "$latency" }).sentAll correspondence =
        [⟨"q", .message ⟨"x/\"y\"", "\\ \u0001 \u6e29", -9223372036854775808, true⟩⟩,
          ⟨"q", .message ⟨"z", "", 9223372036854775807, false⟩⟩, ⟨"q", .probe⟩,
          ⟨"q", .error "invalid filter: a/#/b"⟩, ⟨"p", .error "invalid topic name: \n+"⟩] ∧
      ∀ d ∈ (new { latencyTopic := "$latency" }).sentAll correspondence,
        Reply.read d.reply.write = .ok d.reply := by
  have htimely : ∀ i ∈ correspondence, i.Timely := by decide +kernel
  refine ⟨htimely, by decide +kernel, fun d hd => ?_⟩
  obtain ⟨-, -, -, hsent, -⟩ := frames_read_back { latencyTopic := "$latency" } 0 correspondence htimely
  exact (hsent d hd).1

end Broker

end BrokerTopology
