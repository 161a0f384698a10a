import BrokerTopology.Proofs.Graph.EdgeAt
/-!
# What a publication does

One publication may list a topic and subscribe the interested clients to it, add an edge, bring a
draining topic back, and rebuild the dictionaries of the topics and of the edges. Whatever it has to do,
its topic and its edge are there afterwards and have counted the bytes, and all other topics, edges and
clients are as before. The counters are words: they show as many bytes more while the sum fits.

Main statement: `publishedBy_run`.
-/

namespace BrokerTopology

/-! ## The topic and the client -/

/-- A topic, if it was listed, before and after it has received a message. `wanted` are the keys of the
clients that are interested in it. -/
structure Topic.ReceivedBy (retain : Bool) (bytes : Nat) (isNew : Bool) (wanted : ClientKey → Prop)
    (before : Option Topic) (t : Topic) : Prop where
  active : t.state = .active
  retain : t.retain = retain
  /-- The counter shows the bytes in addition, in the arithmetic of words. -/
  bytes : Word.Counts (before.elim 0 Topic.bytes) bytes t.bytes
  rate : t.rate = before.elim 0 Topic.rate
  /-- There is one publisher more exactly if the edge is new. -/
  publishers : t.publishers = before.elim 0 Topic.publishers + if isNew then 1 else 0
  /-- A topic that was listed keeps its subscribers. -/
  kept : ∀ old ∈ before, t.subscribers = old.subscribers
  /-- A new one lists every interested client once. -/
  listed : before = none → t.subscribers.Nodup ∧ ∀ key, key ∈ t.subscribers ↔ wanted key

/-- A client before and after it has sent bytes to a topic. -/
structure Client.SentTo (topic : String) (ttl : Int) (bytes : Nat) (c c' : Client) : Prop where
  key : c'.key = c.key
  bridge : c'.bridge = c.bridge
  filters : c'.filters = c.filters
  latency : c'.latency = c.latency
  /-- There is one edge to the topic, which has sent the bytes and may be idle for the whole budget. -/
  edge : ∃ e, (c'.published.values.filter fun e => e.topic = topic) = [e] ∧ e.ttl = ttl ∧
    Word.Counts ((c.published.find? topic).elim 0 Edge.bytes) bytes e.bytes ∧
    e.rate = (c.published.find? topic).elim 0 Edge.rate
  edges : ∀ name, name ≠ topic → c'.published.find? name = c.published.find? name

namespace Topology

variable {s s' : Topology} {c : Client} {address id : String}

/-- A client that sends to a topic has sent. -/
theorem sentTo_sent (hc : c.WellFormed) {topic : String} {ttl : Int} {bytes : Nat}
    (hsent : (sent c topic ttl bytes).WellFormed) :
    Client.SentTo topic ttl bytes c (sent c topic ttl bytes) := by
  obtain ⟨published, hsend, -⟩ := sendAlong_spec hc topic ttl bytes
  have hclient : sent c topic ttl bytes = { c with published := published } := by rw [sent, hsend]
  have hedge := find?_published_sent hc topic ttl bytes topic
  rw [if_pos rfl] at hedge
  refine ⟨by rw [hclient]; rfl, by rw [hclient], by rw [hclient], by rw [hclient],
    ⟨_, hsent.published.filter_name_eq hedge, rfl, ?_, ?_⟩, fun name hother => ?_⟩
  · cases c.published.find? topic with
    | none => exact Word.counts_count 0 bytes
    | some e => exact Word.counts_count e.counter bytes
  · cases c.published.find? topic <;> rfl
  · rw [find?_published_sent hc, if_neg hother]

/-- A topic that receives a message of a client with an edge to it, be the edge new or known, is active
and has received the message. -/
theorem receivedBy_of_listed (h : s.Sound) (hc : c ∈ s.clients) {topic : String} {t : Topic}
    (hfind : s.topics.find? topic = some t) (retain : Bool) (bytes : Nat) (wanted : ClientKey → Prop) :
    Topic.ReceivedBy retain bytes (!c.published.contains topic) wanted (some t)
      (received retain bytes (!c.published.contains topic) t) := by
  obtain ⟨ht, rfl⟩ := h.wellFormed.topics.find?_eq_some_iff.mp hfind
  have hkept : ∀ isNew, ∀ old ∈ some t, (received retain bytes isNew t).subscribers = old.subscribers := by
    intro isNew old hold
    rw [subscribers_received, Option.mem_some.mp hold]
  have hbytes : Word.Counts t.bytes bytes (Word.count t.counter bytes).toNat :=
    Word.counts_count t.counter bytes
  cases hedge : c.published.contains t.name with
  | false =>
    exact ⟨rfl, rfl, hbytes, rfl, rfl, hkept true, fun hnone => absurd hnone (Option.some_ne_none t)⟩
  | true =>
    -- the edge that is known keeps the topic active
    have hactive := (h.counted.active_iff t ht).mpr (publishers_pos h.wellFormed h.counted hc ht hedge)
    exact ⟨hactive, rfl, hbytes, rfl, rfl, hkept false,
      fun hnone => absurd hnone (Option.some_ne_none t)⟩

/-- A topic that is listed with its first message has received that message and nothing else. -/
theorem receivedBy_of_new (h : s.Sound) (hc : c ∈ s.clients) {topic : String}
    (hfind : s.topics.find? topic = none) (retain : Bool) (bytes : Nat) :
    Topic.ReceivedBy retain bytes (!c.published.contains topic)
      (fun key => ∃ d, s.clientAt key = some d ∧ d.subscribesTo topic = true) none
      (received retain bytes (!c.published.contains topic) (s.newTopic topic retain)) := by
  have hnew : s.topics.contains topic = false := by rw [Dict.contains, hfind]; rfl
  rw [contains_published_eq_false h.wellFormed h.counted hc hnew, newTopic_eq h.wellFormed]
  refine ⟨rfl, rfl, Word.counts_count 0 bytes, rfl, rfl, fun old hold => absurd hold (Option.not_mem_none old),
    fun _ => ⟨h.wellFormed.interested_nodup topic, fun key => ?_⟩⟩
  show key ∈ s.interested topic ↔ _
  rw [mem_interested_iff, wanted_clients_iff h.wellFormed]
  exact exists_congr fun d => and_congr_right' Client.subscribesTo_iff.symm

/-! ## The topology -/

/-- A topology before and after a client has published to a topic. -/
structure PublishedBy (c : Client) (topic : String) (retain : Bool) (bytes : Nat) (s s' : Topology) :
    Prop where
  /-- The topic is listed and has received the message, along an edge that is new or known. -/
  received : ∃ t, s'.topics.find? topic = some t ∧
    Topic.ReceivedBy retain bytes (!c.published.contains topic)
      (fun key => ∃ d, s.clientAt key = some d ∧ d.subscribesTo topic = true)
      (s.topics.find? topic) t
  /-- Every other topic is as before, or is still not listed. -/
  others : ∀ name, name ≠ topic → s'.topics.find? name = s.topics.find? name
  /-- The client has sent the message. -/
  sent : ∃ c', s'.clientAt c.key = some c' ∧ Client.SentTo topic s.idleBudget bytes c c'
  /-- Every other client is as before, with all its edges. -/
  clients : ∀ key, key ≠ c.key → s'.clientAt key = s.clientAt key
  idleBudget : s'.idleBudget = s.idleBudget

/-- A client that is known may publish, and the message is sent and received as it should be. -/
theorem addPublish_publishedBy (h : s.Sound) (hfind : s.clientAt c.key = some c) (topic : String)
    (retain : Bool) (bytes : Nat) :
    ∃ s', s.addPublish c.id c.address topic retain bytes = (.ok .applied, s') ∧
      PublishedBy c topic retain bytes s s' := by
  obtain ⟨hmem, -⟩ := (clientAt_eq_some_iff h.wellFormed).mp hfind
  have htopics := find?_topics_addPublish h.wellFormed
    (show s.client? c.address c.id = some c from hfind) topic retain bytes
  have hperformed := h.perform (.publish topic retain bytes) c.key
  obtain ⟨m, s', after, hanswer, o⟩ := publish_succeeds h hfind topic retain bytes
  have hrespond := o.respond
  rw [hfind] at hrespond
  obtain ⟨rfl, rfl⟩ := Prod.mk.inj (Option.some.inj hrespond)
  rw [hanswer] at hperformed
  have hpublished : s.addPublish c.id c.address topic retain bytes = (.ok .applied, s') := hanswer
  rw [hpublished] at htopics
  have hsent : s'.clientAt c.key = some (sent c topic s.idleBudget bytes) := by
    rw [o.clientAt, if_pos rfl]
  have hwf := hperformed.wellFormed.client ((clientAt_eq_some_iff hperformed.wellFormed).mp hsent).1
  refine ⟨s', hpublished, ⟨⟨_, (htopics topic).trans (if_pos rfl), ?_⟩, fun name hother => ?_,
    ⟨_, hsent, sentTo_sent (h.wellFormed.client hmem) hwf⟩, fun key hother => ?_, o.idleBudget⟩⟩
  · -- either the message lists its topic or the topic was there
    cases hlisted : s.topics.find? topic with
    | none => exact receivedBy_of_new h hmem hlisted retain bytes
    | some t => exact receivedBy_of_listed h hmem hlisted retain bytes _
  · rw [htopics, if_neg hother]
  · rw [o.clientAt, if_neg hother]

/-- After every run, a client that is found may publish to any topic. Afterwards the topic is listed and
active, has the retain flag of the message and its bytes in addition to those it had, and counts one
publisher more exactly if the client had no edge to it; it keeps its subscribers, or lists every
interested client once if it is new. The client has one edge to the topic, with the bytes in addition and
the whole budget. Both counters are words: the bytes are added modulo their size, and just added while the
sum fits. All other topics, edges and clients, and all else about the client, are as before. -/
theorem publishedBy_run {idleBudget : Nat} {ops : List Operation}
    (hfind : ((empty idleBudget).run ops).client? address id = some c) (topic : String) (retain : Bool)
    (bytes : Nat) :
    ∃ s', ((empty idleBudget).run ops).addPublish id address topic retain bytes = (.ok .applied, s') ∧
      c.key = ⟨address, id⟩ ∧ PublishedBy c topic retain bytes ((empty idleBudget).run ops) s' := by
  have h : ((empty idleBudget).run ops).Sound := (sound_empty idleBudget).run ops
  obtain ⟨-, hkey⟩ := (client?_eq_some_iff h.wellFormed).mp hfind
  obtain ⟨rfl, rfl⟩ := ClientKey.mk.inj hkey
  obtain ⟨s', hanswer, hpublished⟩ := addPublish_publishedBy h hfind topic retain bytes
  exact ⟨s', hanswer, rfl, hpublished⟩

/-- A retained topic has lost its only publisher and drains, while another client subscribes to it. -/
def forsaken : List Operation :=
  [.addClient "10.0.0.1" "p" none, .addClient "10.0.0.2" "q" (some "10.0.0.9"),
    .addPublish "p" "10.0.0.1" "a/b" true 5, .addSubscription "q" "10.0.0.2" "a/#",
    .removeClient "p" "10.0.0.1"]

/-- The other client publishes to it: the topic is active again, its bytes add up, and it still lists the
client once. A topic that is new lists the client too, and the first one stays as it drains. -/
theorem publishedBy_run_forsaken :
    ∃ c s₁ s₂, ((empty 3).run forsaken).client? "10.0.0.2" "q" = some c ∧
      ((empty 3).run forsaken).addPublish "q" "10.0.0.2" "a/b" false 7 = (.ok .applied, s₁) ∧
      PublishedBy c "a/b" false 7 ((empty 3).run forsaken) s₁ ∧
      s₁.topics.values.map (fun t => (t.name, t.state, t.bytes, t.subscribers)) =
        [("a/b", .active, 12, [⟨"10.0.0.2", "q"⟩])] ∧
      ((empty 3).run forsaken).addPublish "q" "10.0.0.2" "a/c" false 7 = (.ok .applied, s₂) ∧
      PublishedBy c "a/c" false 7 ((empty 3).run forsaken) s₂ ∧
      s₂.topics.values.map (fun t => (t.name, t.state, t.bytes, t.subscribers)) =
        [("a/c", .active, 7, [⟨"10.0.0.2", "q"⟩]),
          ("a/b", .draining 3, 5, [⟨"10.0.0.2", "q"⟩])] := by
  have hknown : (((empty 3).run forsaken).client? "10.0.0.2" "q").isSome = true := by decide +kernel
  obtain ⟨c, hfind⟩ := Option.isSome_iff_exists.mp hknown
  obtain ⟨s₁, hrevived, -, hfirst⟩ := publishedBy_run hfind "a/b" false 7
  obtain ⟨s₂, hlisted, -, hsecond⟩ := publishedBy_run hfind "a/c" false 7
  refine ⟨c, s₁, s₂, hfind, hrevived, hfirst, ?_, hlisted, hsecond, ?_⟩
  · rw [show s₁ = (((empty 3).run forsaken).addPublish "q" "10.0.0.2" "a/b" false 7).2 by rw [hrevived]]
    decide +kernel
  · rw [show s₂ = (((empty 3).run forsaken).addPublish "q" "10.0.0.2" "a/c" false 7).2 by rw [hlisted]]
    decide +kernel

end Topology

end BrokerTopology
