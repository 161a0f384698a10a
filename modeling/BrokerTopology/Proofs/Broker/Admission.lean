import BrokerTopology.Proofs.Broker.Agreement
import BrokerTopology.Proofs.Broker.Requests
import BrokerTopology.Proofs.Graph.Accounts
/-!
# What is let in

A publication passes three guards before the graph records it: its topic has to be a name, it must
not be the latency topic, and it must not be a system topic. A subscription passes one: its filter has
to be well formed. The documents that the broker publishes itself pass none of them, but they are not
recorded. So no name and no filter gets into the graph or the tables that a guard would refuse,
whatever reaches the broker and in whatever order.

Every event leads from one topology to the next by admissible operations (`leadsTo_perform`), and an
admissible operation lets nothing past the guards (`Guarded.apply`).

Main statement: `admitted_run`.
-/

namespace BrokerTopology

namespace Topology

variable {s s' : Topology} {op : Operation} {c : Client}

/-! ## Filters after an operation -/

/-- Where a client is replaced, the others were there before. -/
theorem Replaces.mem_clients {c' d : Client} (h : Replaces s s' c c') (hd : d ∈ s'.clients) :
    d = c' ∨ d ∈ s.clients := by
  obtain ⟨others, hbefore, hafter⟩ := h
  refine (List.mem_cons.mp (hafter.mem_iff.mp hd)).imp_right fun hd => ?_
  exact hbefore.mem_iff.mpr (List.mem_cons_of_mem c hd)

/-- The client that is replaced was there before. -/
theorem Replaces.mem {c' : Client} (h : Replaces s s' c c') : c ∈ s.clients := by
  obtain ⟨others, hbefore, -⟩ := h
  exact hbefore.mem_iff.mpr List.mem_cons_self

/-- Only subscribing makes a client remember a filter that none has remembered before. -/
theorem Effect.remembered (h : Effect op s s') :
    ∀ c' ∈ s'.clients, ∀ f ∈ c'.filters, (∃ c ∈ s.clients, f ∈ c.filters) ∨
      ∃ id address, op = .addSubscription id address f := by
  intro c' hc' f hf
  cases h with
  | nothing clients topics =>
    rw [clients] at hc'
    exact Or.inl ⟨c', hc', hf⟩
  | connected address id bridge op_eq clients topics =>
    rcases List.mem_cons.mp (clients.mem_iff.mp hc') with rfl | hc'
    · cases hf
    · exact Or.inl ⟨c', hc', hf⟩
  | disconnected c id address op_eq clients topics =>
    exact Or.inl ⟨c', clients.mem_iff.mpr (List.mem_cons_of_mem c hc'), hf⟩
  | published c published id address topic retain bytes topics op_eq replaces =>
    rcases replaces.mem_clients hc' with rfl | hc'
    · exact Or.inl ⟨c, replaces.mem, hf⟩
    · exact Or.inl ⟨c', hc', hf⟩
  | subscribed c id address filter op_eq replaces =>
    rcases replaces.mem_clients hc' with rfl | hc'
    · rcases List.mem_append.mp hf with hf | hf
      · exact Or.inl ⟨c, replaces.mem, hf⟩
      · rw [List.mem_singleton.mp hf]
        exact Or.inr ⟨id, address, op_eq⟩
    · exact Or.inl ⟨c', hc', hf⟩
  | unsubscribed c id address filter op_eq replaces =>
    rcases replaces.mem_clients hc' with rfl | hc'
    · exact Or.inl ⟨c, replaces.mem, List.mem_of_mem_filter hf⟩
    · exact Or.inl ⟨c', hc', hf⟩
  | probed c latency replaces =>
    rcases replaces.mem_clients hc' with rfl | hc'
    · exact Or.inl ⟨c, replaces.mem, hf⟩
    · exact Or.inl ⟨c', hc', hf⟩
  | sampled secs clients =>
    rw [clients] at hc'
    obtain ⟨c, hc, rfl⟩ := List.mem_map.mp hc'
    exact Or.inl ⟨c, hc, hf⟩

/-! ## Topologies behind the guards -/

/-- The operations that a broker may ask for: publications that pass the guards, subscriptions on
filters that are well formed, and all others. -/
def Operation.Admissible (settings : GraphSettings) : Operation → Prop
  | .addPublish _ _ topic _ _ => Broker.Publishable settings topic
  | .addSubscription _ _ filter => Filter.isValid filter = true
  | _ => True

/-- From one topology to the next by admissible operations. -/
def LeadsTo (settings : GraphSettings) (s s' : Topology) : Prop :=
  ∃ ops : List Operation, (∀ op ∈ ops, op.Admissible settings) ∧ s' = s.run ops

variable {settings : GraphSettings}

/-- Nothing has to be asked for. -/
theorem LeadsTo.refl (settings : GraphSettings) (s : Topology) : LeadsTo settings s s :=
  ⟨[], by simp, rfl⟩

/-- One more operation, if it is admissible. -/
theorem LeadsTo.apply (h : LeadsTo settings s s') (op : Operation) (hop : op.Admissible settings) :
    LeadsTo settings s (op.apply s') := by
  obtain ⟨ops, hops, rfl⟩ := h
  refine ⟨ops ++ [op], ?_, (run_append s ops [op]).symm⟩
  rw [List.forall_mem_append, List.forall_mem_singleton]
  exact ⟨hops, hop⟩

/-- A topology in which every name and every filter has passed the guards. -/
structure Guarded (settings : GraphSettings) (s : Topology) : Prop where
  wellFormed : s.WellFormed
  topics : ∀ t ∈ s.topics.values, Broker.Publishable settings t.name
  filters : ∀ c ∈ s.clients, ∀ f ∈ c.filters, Filter.isValid f = true

/-- An admissible operation lets nothing in that a guard refuses. -/
theorem Guarded.apply (h : Guarded settings s) (hop : op.Admissible settings) :
    Guarded settings (op.apply s) := by
  obtain ⟨hwf, heffect⟩ := apply_spec h.wellFormed op
  refine ⟨hwf, fun t' ht' => ?_, fun c' hc' f hf => ?_⟩
  · rcases heffect.listed h.wellFormed t' ht' with ⟨t, ht, hname⟩ | ⟨id, address, retain, bytes, rfl⟩
    · rw [← hname]
      exact h.topics t ht
    · exact hop
  · rcases heffect.remembered c' hc' f hf with ⟨c, hc, hf⟩ | ⟨id, address, rfl⟩
    · exact h.filters c hc f hf
    · exact hop

/-- Several admissible operations do not either. -/
theorem Guarded.of_leadsTo (h : Guarded settings s) (hleads : LeadsTo settings s s') :
    Guarded settings s' := by
  obtain ⟨ops, hops, rfl⟩ := hleads
  induction ops generalizing s with
  | nil => exact h
  | cons op ops ih =>
    obtain ⟨hop, hops⟩ := List.forall_mem_cons.mp hops
    exact ih (h.apply hop) hops

/-! ## Measurements -/

/-- From one topology to the next no topic and no edge is new, and none has received more. -/
structure AddsNothing (s s' : Topology) : Prop where
  topics : ∀ t' ∈ s'.topics.values, ∃ t ∈ s.topics.values, t.name = t'.name ∧ t'.bytes ≤ t.bytes
  edges : ∀ key topic e', s'.edgeAt key topic = some e' →
    ∃ e, s.edgeAt key topic = some e ∧ e'.bytes ≤ e.bytes

theorem AddsNothing.refl (s : Topology) : AddsNothing s s where
  topics := fun t ht => ⟨t, ht, rfl, Nat.le_refl _⟩
  edges := fun _ _ e he => ⟨e, he, Nat.le_refl _⟩

/-- A sample measures what is there. -/
theorem addsNothing_sample (hs : s.WellFormed) (secs : Float) : AddsNothing s (s.sample secs).2 := by
  cases heffective : isEffective secs with
  | false =>
    rw [sample_of_not_effective heffective]
    exact .refl s
  | true =>
    refine ⟨fun t' ht' => ?_, fun key topic e' he' => ?_⟩
    · obtain ⟨t, ht, hname, -, hzero⟩ := topic_of_sample hs heffective ht'
      exact ⟨t, ht, hname, by omega⟩
    · obtain ⟨e, he, -, hzero⟩ := edgeAt_of_sample hs heffective he'
      exact ⟨e, he, by omega⟩

end Topology

namespace Broker

open BrokerTopology.Topology

variable {b : Broker}

/-! ## What the broker asks of the topology -/

/-- A subscription is passed on if its filter is well formed. -/
theorem leadsTo_subscribe (b : Broker) (filter id : String) :
    LeadsTo b.settings b.topology (b.subscribe filter id).2.2.topology := by
  unfold subscribe
  split
  · rename_i hvalid
    split
    · exact .refl _ _
    · rename_i address haddress
      exact (LeadsTo.refl _ b.topology).apply (.addSubscription id address filter) hvalid
  · exact .refl _ _

/-- The end of a subscription is passed on. -/
theorem leadsTo_unsubscribe (b : Broker) (filter id : String) :
    LeadsTo b.settings b.topology (b.unsubscribe filter id).topology := by
  unfold unsubscribe
  split
  · dsimp only
    split
    · exact .refl _ _
    · rename_i address haddress
      exact (LeadsTo.refl _ b.topology).apply (.removeSubscription id address filter) trivial
  · exact .refl _ _

/-- A publication is passed on if it passes the guards; on the latency topic it starts a probe. -/
theorem leadsTo_publish (b : Broker) (id : String) (m : Message) (now : Nat) :
    LeadsTo b.settings b.topology (b.publish id m now).2.topology := by
  have hnone := LeadsTo.refl b.settings b.topology
  unfold publish
  split
  · exact hnone
  · rename_i address haddress
    split
    · exact hnone
    · rename_i hvalid
      split
      · exact hnone.apply (.startProbe id address now) trivial
      · rename_i hlatency
        show LeadsTo b.settings b.topology
          (b.monitor.publish id address m.topic m.retain m.payload.utf8ByteSize).topology
        rw [topology_publish]
        split
        · exact hnone
        · rename_i hordinary
          have hpasses : Publishable b.settings m.topic :=
            ⟨by simpa using hvalid, by simpa using hordinary, hlatency⟩
          exact hnone.apply _ hpasses

/-- The documents of a tick are routed past the monitor. -/
theorem topology_publishGraph (b : Broker) (now : Nat) (stamp : Int) (reading : Memory.Usage)
    (memoryStamp : Int) :
    (b.publishGraph now stamp reading memoryStamp).2.topology = (b.monitor.tick now reading).2.topology :=
  congrArg Monitor.topology (b.publishGraph_spec now stamp reading memoryStamp).2.2

/-- A tick of the graph measures. -/
theorem leadsTo_publishGraph (b : Broker) (now : Nat) (stamp : Int) (reading : Memory.Usage)
    (memoryStamp : Int) :
    LeadsTo b.settings b.topology (b.publishGraph now stamp reading memoryStamp).2.topology := by
  have hnone := LeadsTo.refl b.settings b.topology
  rw [topology_publishGraph]
  rcases topology_tick b.monitor now reading with hsame | ⟨secs, hsampled⟩
  · rw [hsame]
    exact hnone
  · rw [hsampled]
    exact (hnone.apply (.sample secs) trivial).apply .takeChanged trivial

/-- An event asks the topology for admissible operations. -/
theorem leadsTo_perform (b : Broker) (e : Event) :
    LeadsTo b.settings b.topology (b.perform e).2.topology := by
  have hnone := LeadsTo.refl b.settings b.topology
  cases e with
  | register id address => exact hnone.apply (.addClient address id none) trivial
  | remove id => exact hnone
  | cleanup id =>
    rw [perform, topology_cleanup]
    split
    · exact hnone
    · exact hnone.apply _ trivial
  | subscribe filter id => exact b.leadsTo_subscribe filter id
  | unsubscribe filter id => exact b.leadsTo_unsubscribe filter id
  | publish id m now => exact b.leadsTo_publish id m now
  | acknowledge id now =>
    rw [perform, acknowledge]
    split
    · exact hnone
    · rename_i address haddress
      exact hnone.apply (.finishProbe id address now) trivial
  | publishGraph now stamp reading memoryStamp =>
    exact b.leadsTo_publishGraph now stamp reading memoryStamp

/-! ## One event and every run -/

/-- A client has a filter after an event that it has had before, or that is well formed. -/
theorem mem_filters_of_event {e : Event} {id f : String} {connected : Bool} {filters : List String}
    (hf : f ∈ e.filters id connected filters) : f ∈ filters ∨ Filter.isValid f = true := by
  unfold Event.filters at hf
  cases e with
  | remove other | cleanup other =>
    dsimp only at hf
    split at hf
    · cases hf
    · exact Or.inl hf
  | subscribe filter other =>
    dsimp only at hf
    split at hf
    · rename_i haccepted
      rw [withFilter] at hf
      split at hf
      · exact Or.inl hf
      · refine (List.mem_append.mp hf).imp_right fun hf => ?_
        rw [List.mem_singleton.mp hf]
        exact haccepted.2.2
    · exact Or.inl hf
  | unsubscribe filter other =>
    dsimp only at hf
    split at hf
    · exact Or.inl (List.mem_of_mem_filter hf)
    · exact Or.inl hf
  | register other address => exact Or.inl hf
  | publish other m now => exact Or.inl hf
  | acknowledge other now => exact Or.inl hf
  | publishGraph now stamp reading memoryStamp => exact Or.inl hf

/-- Behind the guards of a broker with some settings there are only names and filters that pass. -/
structure GuardsKept (settings : GraphSettings) (b : Broker) : Prop where
  settings_eq : b.settings = settings
  wellFormed : b.WellFormed
  filters : ∀ id, ∀ f ∈ b.filtersOf id, Filter.isValid f = true
  guarded : Guarded settings b.topology

theorem guardsKept_new (settings : GraphSettings) (start : Nat) :
    GuardsKept settings (new settings start) where
  settings_eq := rfl
  wellFormed := wellFormed_new settings start
  filters := fun _ _ hf => by cases hf
  guarded := by
    refine ⟨wellFormed_empty settings.idleBudget, fun t ht => ?_, fun c hc => ?_⟩
    · cases ht
    · cases hc

variable {settings : GraphSettings}

/-- An event lets nothing past the guards. -/
theorem GuardsKept.perform (h : GuardsKept settings b) (e : Event) :
    GuardsKept settings (b.perform e).2 := by
  refine ⟨(b.settings_perform e).trans h.settings_eq, h.wellFormed.perform e, fun id f hf => ?_, ?_⟩
  · rw [filtersOf_perform] at hf
    rcases mem_filters_of_event hf with hf | hvalid
    · exact h.filters id f hf
    · exact hvalid
  · have hleads := b.leadsTo_perform e
    rw [h.settings_eq] at hleads
    exact h.guarded.of_leadsTo hleads

theorem GuardsKept.run (h : GuardsKept settings b) (events : List Event) :
    GuardsKept settings (b.run events) := by
  induction events generalizing b with
  | nil => exact h
  | cons e es ih => exact ih (h.perform e)

/-! ## What has been let in -/

/-- What has been let into a broker with some settings. -/
structure Admitted (settings : GraphSettings) (b : Broker) : Prop where
  /-- A topic in the graph has a name that is not empty, without wildcards. -/
  named : ∀ t ∈ b.topology.topics.values,
    t.name ≠ "" ∧ '+' ∉ t.name.toList ∧ '#' ∉ t.name.toList
  /-- No topic in the graph is a system topic. -/
  ordinary : ∀ t ∈ b.topology.topics.values, t.name.toList.head? ≠ some '$'
  /-- The latency topic is not in the graph. -/
  ne_latency : ∀ t ∈ b.topology.topics.values, t.name ≠ settings.latencyTopic
  /-- The filters in the tables are well formed. -/
  subscriptions : ∀ e ∈ b.subscriptions.toList, ∀ f ∈ e.2, Filter.isValid f = true
  /-- The filters in the graph are well formed. -/
  filters : ∀ c ∈ b.topology.clients, ∀ f ∈ c.filters, Filter.isValid f = true
  /-- A tick of the graph leaves what the tick of the monitor leaves: the documents, which are
  published afterwards, add nothing to it. -/
  unrecorded : ∀ now stamp reading memoryStamp,
    (b.publishGraph now stamp reading memoryStamp).2.topology = (b.monitor.tick now reading).2.topology
  /-- Neither does the tick add a topic, an edge or a byte. -/
  documents : ∀ now stamp reading memoryStamp,
    AddsNothing b.topology (b.publishGraph now stamp reading memoryStamp).2.topology

/-- A name is valid if it is not empty and holds no wildcard character. -/
theorem isValid_topicName_iff {name : String} :
    TopicName.isValid name = true ↔ name ≠ "" ∧ '+' ∉ name.toList ∧ '#' ∉ name.toList := by
  simp [TopicName.isValid, Filter.isPlain, and_comm]

theorem GuardsKept.admitted (h : GuardsKept settings b) : Admitted settings b where
  named := fun t ht => isValid_topicName_iff.mp (h.guarded.topics t ht).valid
  ordinary := fun t ht => by simpa [TopicName.isSystem] using (h.guarded.topics t ht).ordinary
  ne_latency := fun t ht => (h.guarded.topics t ht).ne_latency
  subscriptions := by
    rintro ⟨id, filters⟩ hlisted f hf
    have hfind := (Table.mem_toList_iff h.wellFormed.subscriptions_nodup).mp hlisted
    refine h.filters id f ?_
    rw [filtersOf, hfind]
    exact hf
  filters := h.guarded.filters
  unrecorded := b.topology_publishGraph
  documents := by
    intro now stamp reading memoryStamp
    rw [topology_publishGraph]
    rcases topology_tick b.monitor now reading with hsame | ⟨secs, hsampled⟩
    · rw [hsame]
      exact .refl _
    · -- taking the flag of change leaves the rest of the sample
      rw [hsampled]
      obtain ⟨htopics, hedges⟩ := addsNothing_sample h.guarded.wellFormed secs
      exact ⟨htopics, hedges⟩

/-- Whatever reaches a broker, with whatever names in its settings, the graph and the tables hold only
names and filters that pass the guards, and the documents of the broker are not recorded. -/
theorem admitted_run (settings : GraphSettings) (start : Nat) (inputs : List Input) :
    Admitted settings ((new settings start).serveAll inputs) := by
  rw [serveAll_eq_run]
  exact ((guardsKept_new settings start).run _).admitted

/-- Where the graph is published on an ordinary topic, it is retained there, but only the publication
of the client is recorded. -/
example :
    let b := (new { topic := "graph", latencyTopic := "ping" }).serveAll
      [.event (.register "a" "10.0.0.1"), .request "a" (.publish "ping" "" false) 0 0,
        .request "a" (.publish "$x" "" false) 0 0, .request "a" (.publish "x/y" "hello" false) 0 0,
        .event (.publishGraph 60000000000 0 ⟨0, 0⟩)]
    b.retained.contains "graph" = true ∧ b.topology.topics.values.map Topic.name = ["x/y"] := by
  decide +kernel

end Broker

end BrokerTopology
