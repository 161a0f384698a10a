import BrokerTopology.Proofs.Graph.Clients
import BrokerTopology.Proofs.Graph.Edges
/-!
# What the operations do

For each operation on a well-formed topology this file says what it answers, that the topology after
it is well formed, which clients it has, up to their order, and which topics. Everything that is
shown of runs of operations rests on these statements and not on the definitions.
-/

namespace BrokerTopology

/-! ## What the subscriptions and the drain leave alone -/

namespace Topic

variable {t : Topic} {key : ClientKey}

/-- Adding a subscriber leaves the publishers alone. -/
@[simp] theorem publishers_addSubscriber : (t.addSubscriber key).publishers = t.publishers := by
  rw [addSubscriber]
  split <;> rfl

/-- Adding a subscriber leaves the state alone. -/
@[simp] theorem state_addSubscriber : (t.addSubscriber key).state = t.state := by
  rw [addSubscriber]
  split <;> rfl

/-- A tick of the drain keeps the name of a topic. -/
@[simp] theorem name_drain : t.drain.name = t.name := by
  rw [drain]
  split <;> rfl

/-- A tick of the drain leaves the publishers alone. -/
@[simp] theorem publishers_drain : t.drain.publishers = t.publishers := by
  rw [drain]
  split <;> rfl

/-- A tick of the drain leaves the subscribers alone. -/
@[simp] theorem subscribers_drain : t.drain.subscribers = t.subscribers := by
  rw [drain]
  split <;> rfl

/-- A tick of the drain leaves the counter alone. -/
@[simp] theorem bytes_drain : t.drain.bytes = t.bytes := by
  rw [drain]
  split <;> rfl

/-- A tick of the drain leaves the rate alone. -/
@[simp] theorem rate_drain : t.drain.rate = t.rate := by
  rw [drain]
  split <;> rfl

/-- A drain goes on as a drain. -/
theorem active_iff_drain : t.drain.state = .active ↔ t.state = .active := by
  rw [drain]
  split
  · exact Iff.rfl
  · rename_i hdraining
    rw [hdraining]
    exact iff_of_false TopicState.noConfusion TopicState.noConfusion

end Topic

/-! ## Subscribers of a new topic -/

/-- Adding subscribers that are new and distinct appends them. -/
theorem Topic.foldl_addSubscriber (keys : List ClientKey) (t : Topic)
    (hnodup : (t.subscribers ++ keys).Nodup) :
    keys.foldl Topic.addSubscriber t = { t with subscribers := t.subscribers ++ keys } := by
  induction keys generalizing t with
  | nil => rw [List.foldl_nil, List.append_nil]
  | cons key keys ih =>
    have hnew : t.hasSubscriber key = false := by
      rw [hasSubscriber, List.contains_eq_mem, decide_eq_false_iff_not]
      intro hmem
      exact (List.nodup_append'.mp hnodup).2.2 hmem List.mem_cons_self
    have hadd : t.addSubscriber key = { t with subscribers := t.subscribers ++ [key] } := by
      rw [addSubscriber, hnew]
      rfl
    rw [List.foldl_cons, hadd, ih]
    · rw [List.append_assoc, List.singleton_append]
    · rw [List.append_assoc, List.singleton_append]
      exact hnodup

namespace Topology

variable {s : Topology} {address id topic filter : String} {c : Client}

/-- No client is interested in a topic twice. -/
theorem WellFormed.interested_nodup (hs : s.WellFormed) (topic : String) :
    (s.interested topic).Nodup :=
  hs.keys_nodup.sublist (List.filter_sublist.map Client.key)

/-- A new topic has no publisher and is delivered to the interested clients. -/
theorem newTopic_eq (hs : s.WellFormed) (name : String) (retain : Bool) :
    s.newTopic name retain = { Topic.fresh name retain with subscribers := s.interested name } :=
  Topic.foldl_addSubscriber _ _ (hs.interested_nodup name)

/-! ## Disconnecting -/

/-- A known client is taken out, with its subscriptions, and its edges are detached. -/
theorem removeClient_spec (hs : s.WellFormed) (hfind : s.client? address id = some c) :
    ∃ s', s.removeClient id address = (.ok .applied, s') ∧ s'.WellFormed ∧
      s.clients.Perm (c :: s'.clients) ∧
      s'.topics.values = s.topics.values.map (fun t =>
        (t.removeSubscriber c.key).detachTimes s.idleBudget (c.publications.count t.name)) ∧
      s'.idleBudget = s.idleBudget ∧ s'.changed = true := by
  obtain ⟨host, hhost, hclient⟩ := client?_eq_some_iff_exists.mp hfind
  obtain ⟨hnamed, hwf, hperm⟩ := hostsWithout_spec hs hhost hclient
  -- the topics lose the subscriber before the edges are detached
  have htopics : (s.topics.map fun t => t.removeSubscriber c.key).NamedBy Topic.name :=
    hs.topics.map fun t _ => rfl
  obtain ⟨hdetached, hvalues⟩ := detachAll_spec s.idleBudget htopics c.publications
  have hanswer : s.removeClient id address = (.ok .applied,
      { s with
        hosts := s.hostsWithout host address id
        topics := detachAll s.idleBudget (s.topics.map fun t => t.removeSubscriber c.key)
          c.publications
        changed := true }) := by
    rw [removeClient, hhost]
    dsimp only
    rw [hclient]
    rfl
  refine ⟨_, hanswer, ⟨hnamed, hdetached, hwf⟩, hperm, hvalues.trans ?_, rfl, rfl⟩
  rw [Dict.values_map, List.map_map]
  rfl

/-- Without the client nothing is taken out. -/
theorem removeClient_of_client?_eq_none (h : s.client? address id = none) :
    ∃ e, s.removeClient id address = (.error e, s) := by
  rw [removeClient]
  cases hhost : s.hosts.find? address with
  | none => exact ⟨_, rfl⟩
  | some host =>
    cases hclient : host.clients.find? id with
    | none => exact ⟨_, by dsimp only; rw [hclient]⟩
    | some c =>
      rw [client?_eq_some_iff_exists.mpr ⟨host, hhost, hclient⟩] at h
      cases h

/-! ## Publishing -/

/-- After a topic has been listed it is the only new one. -/
theorem ensureTopic_spec (hs : s.WellFormed) (name : String) (retain : Bool) :
    ∃ topics, s.ensureTopic name retain = .ok { s with topics := topics } ∧
      topics.NamedBy Topic.name ∧ topics.contains name = true ∧
      (s.topics.contains name = true ∧ topics = s.topics ∨
        s.topics.contains name = false ∧
          topics.values.Perm (s.newTopic name retain :: s.topics.values)) := by
  cases hknown : s.topics.contains name with
  | true =>
    refine ⟨s.topics, ?_, hs.topics, hknown, Or.inl ⟨rfl, rfl⟩⟩
    rw [ensureTopic, hknown]
    rfl
  | false =>
    have hname : (s.newTopic name retain).name = name := by rw [newTopic_eq hs]; rfl
    obtain ⟨topics, hinsert, hnamed, hperm⟩ :=
      hs.topics.insert_spec (s.newTopic name retain) (by rwa [hname])
    rw [hname] at hinsert
    refine ⟨topics, ?_, hnamed, ?_, Or.inr ⟨rfl, hperm⟩⟩
    · rw [ensureTopic, hknown, if_neg Bool.false_ne_true, hinsert]
    · exact hnamed.contains_iff.mpr ⟨_, hperm.mem_iff.mpr List.mem_cons_self, hname⟩

/-- A topic after it has received bytes, along a new edge or a known one. -/
def received (retain : Bool) (bytes : Nat) (isNew : Bool) (t : Topic) : Topic :=
  if isNew then (t.receive retain bytes).attach else t.receive retain bytes

/-- Receiving bytes keeps the name of a topic. -/
@[simp] theorem name_received (retain : Bool) (bytes : Nat) (isNew : Bool) (t : Topic) :
    (received retain bytes isNew t).name = t.name := by
  rw [received]
  split <;> rfl

/-- A listed topic receives what is delivered. -/
theorem deliver_of_contains (h : s.topics.contains topic = true) (retain : Bool) (bytes : Nat)
    (isNew : Bool) :
    s.deliver topic retain bytes isNew = (.ok .applied,
      { s with
        topics := s.topics.modify topic (received retain bytes isNew)
        changed := s.changed || isNew }) := by
  rw [deliver, if_pos h]
  rfl

/-- Bytes that are sent along a known edge to a listed topic change the edge and the topic only. -/
theorem addPublish_of_known (hfind : s.client? address id = some c)
    (hedge : c.published.contains topic = true) (htopic : s.topics.contains topic = true)
    (retain : Bool) (bytes : Nat) :
    s.addPublish id address topic retain bytes = (.ok .applied,
      { s with
        hosts := (s.modifyClient address id fun _ =>
          { c with published := c.published.modify topic fun e => e.send s.idleBudget bytes }).hosts
        topics := s.topics.modify topic (received retain bytes false)
        changed := s.changed || false }) := by
  have hensure : s.ensureTopic topic retain = .ok s := by
    rw [ensureTopic, if_pos htopic]
  have hsend : sendAlong c topic s.idleBudget bytes = .ok
      ({ c with published := c.published.modify topic fun e => e.send s.idleBudget bytes }, false) := by
    rw [sendAlong, if_pos hedge]
  rw [addPublish, findClient_of_client? hfind]
  dsimp only
  rw [hensure]
  dsimp only
  rw [hsend]
  exact deliver_of_contains (s := s.modifyClient address id fun _ => _) htopic retain bytes false

/-- A publication of a known client is sent along its edge, which is added if there was none, and
received by the topic, which is listed if it was not known. -/
theorem addPublish_spec (hs : s.WellFormed) (hfind : s.client? address id = some c)
    (topic : String) (retain : Bool) (bytes : Nat) :
    ∃ s' published topics,
      s.addPublish id address topic retain bytes = (.ok .applied, s') ∧ s'.WellFormed ∧
      Replaces s s' c { c with published := published } ∧
      (c.published.contains topic = true ∧ published.values =
          c.published.values.map (fun e =>
            if e.topic = topic then e.send s.idleBudget bytes else e) ∨
        c.published.contains topic = false ∧
          published.values.Perm (Edge.fresh topic s.idleBudget bytes :: c.published.values)) ∧
      (s.topics.contains topic = true ∧ topics = s.topics.values ∨
        s.topics.contains topic = false ∧
          topics.Perm (s.newTopic topic retain :: s.topics.values)) ∧
      s'.topics.values = topics.map (fun t =>
        if t.name = topic then received retain bytes (!c.published.contains topic) t else t) ∧
      s'.idleBudget = s.idleBudget ∧
      s'.changed = (s.changed || !c.published.contains topic) ∧
      sendAlong c topic s.idleBudget bytes =
        .ok ({ c with published := published }, !c.published.contains topic) := by
  have hc : c.WellFormed := hs.client ((client?_eq_some_iff hs).mp hfind).1
  obtain ⟨topics, hensure, htopics, hlisted, hcases⟩ := ensureTopic_spec hs topic retain
  obtain ⟨published, hsend, hpublished, hedges⟩ :=
    sendAlong_spec hc topic s.idleBudget bytes
  -- the topic is listed before the client is changed
  have hs₁ : WellFormed { s with topics := topics } := ⟨hs.hosts, htopics, hs.host⟩
  obtain ⟨hwf, hreplaces⟩ :=
    modifyClient_spec (f := fun _ => { c with published := published }) hs₁ hfind rfl
      ⟨hpublished, hc.filters_nodup⟩
  have hanswer : s.addPublish id address topic retain bytes = (.ok .applied,
      { s with
        hosts := (s.modifyClient address id fun _ => { c with published := published }).hosts
        topics := topics.modify topic (received retain bytes (!c.published.contains topic))
        changed := s.changed || !c.published.contains topic }) := by
    rw [addPublish, findClient_of_client? hfind]
    dsimp only
    rw [hensure]
    dsimp only
    rw [hsend]
    exact deliver_of_contains hlisted retain bytes _
  refine ⟨_, published, topics.values, hanswer, ⟨hwf.hosts, ?_, hwf.host⟩, hreplaces, hedges, ?_,
    htopics.values_modify _ _, rfl, rfl, hsend⟩
  · exact htopics.modify fun t _ hsame => (name_received _ _ _ t).trans hsame
  · rcases hcases with ⟨hknown, rfl⟩ | hnew
    · exact Or.inl ⟨hknown, rfl⟩
    · exact Or.inr hnew

/-- A publication of an unknown client is refused. -/
theorem addPublish_of_client?_eq_none (h : s.client? address id = none) (topic : String)
    (retain : Bool) (bytes : Nat) :
    ∃ e, s.addPublish id address topic retain bytes = (.error e, s) := by
  obtain ⟨e, he⟩ := findClient_of_client?_eq_none h
  exact ⟨e, by rw [addPublish, he]⟩

/-! ## Subscribing -/

/-- A topic is delivered to one more client if the filter covers it. -/
def gained (filter : String) (key : ClientKey) (t : Topic) : Topic :=
  if Filter.covers filter t.name then t.addSubscriber key else t

/-- A topic is no longer delivered to a client if the filter covers it and no filter that the client
still has does. -/
def lost (filter : String) (c : Client) (t : Topic) : Topic :=
  if Filter.covers filter t.name && !c.subscribesTo t.name then t.removeSubscriber c.key else t

/-- A new subscription keeps the name of a topic. -/
@[simp] theorem name_gained (filter : String) (key : ClientKey) (t : Topic) :
    (gained filter key t).name = t.name := by
  rw [gained, Topic.addSubscriber]
  split
  · split <;> rfl
  · rfl

/-- The end of a subscription keeps the name of a topic. -/
@[simp] theorem name_lost (filter : String) (c : Client) (t : Topic) :
    (lost filter c t).name = t.name := by
  rw [lost]
  split <;> rfl

/-- A new subscription leaves the publishers and the state of a topic alone. -/
theorem counts_gained (filter : String) (key : ClientKey) (t : Topic) :
    (gained filter key t).publishers = t.publishers ∧ (gained filter key t).state = t.state := by
  rw [gained]
  split
  · exact ⟨Topic.publishers_addSubscriber, Topic.state_addSubscriber⟩
  · exact ⟨rfl, rfl⟩

/-- The end of a subscription leaves the publishers and the state of a topic alone. -/
theorem counts_lost (filter : String) (c : Client) (t : Topic) :
    (lost filter c t).publishers = t.publishers ∧ (lost filter c t).state = t.state := by
  rw [lost]
  split
  · exact ⟨rfl, rfl⟩
  · exact ⟨rfl, rfl⟩

/-- A filter that a client remembers already changes nothing. -/
theorem addSubscription_of_mem (hfind : s.client? address id = some c) (hmem : filter ∈ c.filters) :
    s.addSubscription id address filter = (.ok .ignored, s) := by
  rw [addSubscription, findClient_of_client? hfind]
  dsimp only
  rw [if_pos (List.contains_iff_mem.mpr hmem)]

/-- A filter that a client does not remember is added to its filters. -/
theorem addSubscription_of_not_mem (hfind : s.client? address id = some c)
    (hnew : filter ∉ c.filters) :
    s.addSubscription id address filter = (.ok .applied,
      { s with
        hosts := (s.modifyClient address id fun c =>
          { c with filters := c.filters ++ [filter] }).hosts
        topics := s.topics.map (gained filter c.key)
        changed := s.changed || s.topics.values.any fun t =>
          Filter.covers filter t.name && !t.hasSubscriber c.key }) := by
  rw [addSubscription, findClient_of_client? hfind]
  dsimp only
  rw [if_neg fun hcontains => hnew (List.contains_iff_mem.mp hcontains)]
  rfl

/-- A new filter is remembered, and the topics that it covers are delivered to the client. -/
theorem addSubscription_spec (hs : s.WellFormed) (hfind : s.client? address id = some c)
    (hnew : filter ∉ c.filters) :
    ∃ s', s.addSubscription id address filter = (.ok .applied, s') ∧ s'.WellFormed ∧
      Replaces s s' c { c with filters := c.filters ++ [filter] } ∧
      s'.topics.values = s.topics.values.map (gained filter c.key) ∧
      s'.idleBudget = s.idleBudget ∧
      s'.changed = (s.changed || s.topics.values.any fun t =>
        Filter.covers filter t.name && !t.hasSubscriber c.key) := by
  have hc : c.WellFormed := hs.client ((client?_eq_some_iff hs).mp hfind).1
  obtain ⟨hwf, hreplaces⟩ :=
    modifyClient_spec (f := fun c => { c with filters := c.filters ++ [filter] }) hs hfind rfl
      ⟨hc.published, by simpa using hc.filters_nodup.concat hnew⟩
  have htopics : (s.topics.map (gained filter c.key)).NamedBy Topic.name :=
    hs.topics.map fun t _ => name_gained filter c.key t
  exact ⟨_, addSubscription_of_not_mem hfind hnew, ⟨hwf.hosts, htopics, hwf.host⟩, hreplaces,
    Dict.values_map _ _, rfl, rfl⟩

/-- A subscription of an unknown client is refused. -/
theorem addSubscription_of_client?_eq_none (h : s.client? address id = none) (filter : String) :
    ∃ e, s.addSubscription id address filter = (.error e, s) := by
  obtain ⟨e, he⟩ := findClient_of_client?_eq_none h
  exact ⟨e, by rw [addSubscription, he]⟩

/-- A filter that a client does not remember is not forgotten. -/
theorem removeSubscription_of_not_mem (hfind : s.client? address id = some c)
    (hmem : filter ∉ c.filters) :
    s.removeSubscription id address filter = (.ok .ignored, s) := by
  rw [removeSubscription, findClient_of_client? hfind]
  dsimp only
  rw [if_neg fun hcontains => hmem (List.contains_iff_mem.mp hcontains)]

/-- A client without one of its filters. -/
def withoutFilter (c : Client) (filter : String) : Client :=
  { c with filters := c.filters.filter (· != filter) }

/-- A filter that a client remembers is taken out of its filters. -/
theorem removeSubscription_of_mem (hfind : s.client? address id = some c) (hmem : filter ∈ c.filters) :
    s.removeSubscription id address filter = (.ok .applied,
      { s with
        hosts := (s.modifyClient address id fun _ => withoutFilter c filter).hosts
        topics := s.topics.map (lost filter (withoutFilter c filter))
        changed := s.changed || s.topics.values.any fun t =>
          (Filter.covers filter t.name && !(withoutFilter c filter).subscribesTo t.name) &&
            t.hasSubscriber c.key }) := by
  rw [removeSubscription, findClient_of_client? hfind]
  dsimp only
  rw [if_pos (List.contains_iff_mem.mpr hmem)]
  rfl

/-- A remembered filter is forgotten, and the topics that no other filter of the client covers are
no longer delivered to it. -/
theorem removeSubscription_spec (hs : s.WellFormed) (hfind : s.client? address id = some c)
    (hmem : filter ∈ c.filters) :
    ∃ s', s.removeSubscription id address filter = (.ok .applied, s') ∧ s'.WellFormed ∧
      Replaces s s' c (withoutFilter c filter) ∧
      s'.topics.values = s.topics.values.map (lost filter (withoutFilter c filter)) ∧
      s'.idleBudget = s.idleBudget ∧
      s'.changed = (s.changed || s.topics.values.any fun t =>
        (Filter.covers filter t.name && !(withoutFilter c filter).subscribesTo t.name) &&
          t.hasSubscriber c.key) := by
  have hc : c.WellFormed := hs.client ((client?_eq_some_iff hs).mp hfind).1
  obtain ⟨hwf, hreplaces⟩ :=
    modifyClient_spec (f := fun _ => withoutFilter c filter) hs hfind rfl
      ⟨hc.published, hc.filters_nodup.filter _⟩
  have htopics : (s.topics.map (lost filter (withoutFilter c filter))).NamedBy Topic.name :=
    hs.topics.map fun t _ => name_lost filter _ t
  exact ⟨_, removeSubscription_of_mem hfind hmem, ⟨hwf.hosts, htopics, hwf.host⟩, hreplaces,
    Dict.values_map _ _, rfl, rfl⟩

/-- An unknown client has no filter to forget. -/
theorem removeSubscription_of_client?_eq_none (h : s.client? address id = none)
    (filter : String) : ∃ e, s.removeSubscription id address filter = (.error e, s) := by
  obtain ⟨e, he⟩ := findClient_of_client?_eq_none h
  exact ⟨e, by rw [removeSubscription, he]⟩

/-! ## Probing -/

/-- A probe starts with the latency of its client. -/
theorem startProbe_of_client? (hfind : s.client? address id = some c) (now : Nat) :
    s.startProbe id address now = (.ok .applied,
      s.modifyClient address id fun c => { c with latency := c.latency.start now }) := by
  rw [startProbe, findClient_of_client? hfind]

/-- A probe that starts changes the latency of its client only. -/
theorem startProbe_spec (hs : s.WellFormed) (hfind : s.client? address id = some c) (now : Nat) :
    ∃ s', s.startProbe id address now = (.ok .applied, s') ∧ s'.WellFormed ∧
      Replaces s s' c { c with latency := c.latency.start now } ∧
      s'.topics = s.topics ∧ s'.idleBudget = s.idleBudget ∧ s'.changed = s.changed := by
  have hc : c.WellFormed := hs.client ((client?_eq_some_iff hs).mp hfind).1
  obtain ⟨hwf, hreplaces⟩ :=
    modifyClient_spec (f := fun c => { c with latency := c.latency.start now }) hs hfind rfl
      (hc.withLatency _)
  exact ⟨_, startProbe_of_client? hfind now, hwf, hreplaces, rfl, rfl, rfl⟩

/-- No probe starts for an unknown client. -/
theorem startProbe_of_client?_eq_none (h : s.client? address id = none) (now : Nat) :
    ∃ e, s.startProbe id address now = (.error e, s) := by
  obtain ⟨e, he⟩ := findClient_of_client?_eq_none h
  exact ⟨e, by rw [startProbe, he]⟩

/-- Without a probe in flight there is none to complete. -/
theorem finishProbe_of_pending_eq_none (hfind : s.client? address id = some c)
    (hpending : c.latency.pending = none) (now : Nat) :
    s.finishProbe id address now = (.ok .ignored, s) := by
  rw [finishProbe, findClient_of_client? hfind]
  dsimp only
  rw [Latency.finish, hpending]

/-- A probe in flight is completed with the latency of its client. -/
theorem finishProbe_of_pending (hfind : s.client? address id = some c) {started : Nat}
    (hpending : c.latency.pending = some started) (now : Nat) :
    s.finishProbe id address now = (.ok .applied,
      s.modifyClient address id fun c' => { c' with latency := (c.latency.finish now).2 }) := by
  rw [finishProbe, findClient_of_client? hfind]
  dsimp only
  rw [Latency.finish, hpending]

/-- A probe that is completed changes the latency of its client only. -/
theorem finishProbe_spec (hs : s.WellFormed) (hfind : s.client? address id = some c) {started : Nat}
    (hpending : c.latency.pending = some started) (now : Nat) :
    ∃ s', s.finishProbe id address now = (.ok .applied, s') ∧ s'.WellFormed ∧
      Replaces s s' c { c with latency := (c.latency.finish now).2 } ∧
      s'.topics = s.topics ∧ s'.idleBudget = s.idleBudget ∧ s'.changed = s.changed := by
  have hc : c.WellFormed := hs.client ((client?_eq_some_iff hs).mp hfind).1
  obtain ⟨hwf, hreplaces⟩ :=
    modifyClient_spec (f := fun c' => { c' with latency := (c.latency.finish now).2 }) hs hfind rfl
      (hc.withLatency _)
  exact ⟨_, finishProbe_of_pending hfind hpending now, hwf, hreplaces, rfl, rfl, rfl⟩

/-- An unknown client has no probe to complete. -/
theorem finishProbe_of_client?_eq_none (h : s.client? address id = none) (now : Nat) :
    ∃ e, s.finishProbe id address now = (.error e, s) := by
  obtain ⟨e, he⟩ := findClient_of_client?_eq_none h
  exact ⟨e, by rw [finishProbe, he]⟩

/-! ## Sampling -/

/-- The hosts after a sample are those before it with their clients sampled. -/
theorem sampledHosts_spec (hs : s.WellFormed) (secs : Float) :
    (s.sampledHosts secs).NamedBy Host.address ∧
      (∀ h ∈ (s.sampledHosts secs).values, h.WellFormed) ∧
      clientsOf (s.sampledHosts secs) = s.clients.map fun c => (c.sampled secs).client := by
  have hvalues : (s.sampledHosts secs).values = s.hosts.values.map fun h =>
      { h with clients := h.clients.map fun c => (c.sampled secs).client } :=
    Dict.values_map _ _
  refine ⟨hs.hosts.map fun h _ => rfl, ?_, ?_⟩
  · rw [hvalues]
    intro h' hh'
    obtain ⟨h, hh, rfl⟩ := List.mem_map.mp hh'
    have hwf := hs.host h hh
    have hclients : ∀ c' ∈ (h.clients.map fun c => (c.sampled secs).client).values,
        c'.address = h.address ∧ c'.WellFormed := by
      rw [Dict.values_map]
      intro c' hc'
      obtain ⟨c, hc, rfl⟩ := List.mem_map.mp hc'
      exact ⟨hwf.address_eq c hc, (Client.sampled_spec (hwf.client c hc) secs).1⟩
    have hnamed : (h.clients.map fun c => (c.sampled secs).client).NamedBy Client.id :=
      hwf.clients.map fun c _ => rfl
    refine ⟨hnamed, ?_, fun c hc => (hclients c hc).1, fun c hc => (hclients c hc).2⟩
    rw [Dict.values_map]
    exact fun hnil => hwf.nonempty (List.map_eq_nil_iff.mp hnil)
  · rw [clientsOf, hvalues, List.flatMap_map, clients, List.map_flatMap]
    exact List.flatMap_congr fun h _ => Dict.values_map _ _

/-- A sample over no time, or over no finite time, changes nothing. -/
theorem sample_of_not_effective {secs : Float} (h : isEffective secs = false) :
    s.sample secs = (.none, s) := by
  rw [sample, h]
  rfl

/-- The topics that an effective sample leaves, before their drain goes on and they are measured. -/
def swept (s : Topology) (secs : Float) : Dict.Removal Topic Unit :=
  (detachAll s.idleBudget s.topics (s.expiredEdges secs)).removeIf Topic.isDrained

/-- An effective sample measures every client and every topic that is left, and sets the flag of
change if it reports a change. -/
theorem sample_of_effective {secs : Float} (h : isEffective secs = true) :
    s.sample secs = ((s.sample secs).1,
      { s with
        hosts := s.sampledHosts secs
        topics := ((s.swept secs).dict.map Topic.drain).map (Topic.sampled secs)
        changed := s.changed || (s.sample secs).1.changed }) := by
  rw [sample, if_pos h]
  rfl

/-- An effective sample measures every client and every topic, detaches the edges that expire and
drops the topics whose drain is over then. -/
theorem sample_spec (hs : s.WellFormed) {secs : Float} (h : isEffective secs = true) :
    ∃ report s', s.sample secs = (report, s') ∧ s'.WellFormed ∧
      s'.clients = s.clients.map (fun c => (c.sampled secs).client) ∧
      s'.topics.values.Perm
        (((s.topics.values.map fun t =>
            t.detachTimes s.idleBudget ((s.expiredEdges secs).count t.name)).filter
          fun t => !t.isDrained).map fun t => t.drain.sampled secs) ∧
      s'.idleBudget = s.idleBudget ∧ s'.changed = (s.changed || report.changed) := by
  obtain ⟨hhosts, hhost, hclients⟩ := sampledHosts_spec hs secs
  obtain ⟨hdetached, hvalues⟩ := detachAll_spec s.idleBudget hs.topics (s.expiredEdges secs)
  obtain ⟨hkept, hperm, -⟩ := hdetached.removeIf_spec Topic.isDrained
  have htopics : (((s.swept secs).dict.map Topic.drain).map (Topic.sampled secs)).NamedBy
      Topic.name :=
    (hkept.map fun t _ => Topic.name_drain).map fun t _ => rfl
  refine ⟨_, _, sample_of_effective h, ⟨hhosts, htopics, hhost⟩, hclients, ?_, rfl, rfl⟩
  -- the sweep of the drained topics may rebuild the dictionary and change the order
  dsimp only
  rw [Dict.values_map, Dict.values_map, List.map_map, ← hvalues]
  exact hperm.map _

end Topology

end BrokerTopology
