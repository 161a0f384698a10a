import BrokerTopology.Proofs.Graph.Operations
/-!
# Runs of operations

A topology comes about by a run of operations from the empty one. Whatever an operation answers, it
has one of a few effects on the clients and the topics; refusals, repetitions and samples over no
time have none. An invariant of all runs has to be shown for these effects only.

Effects that concern connections, subscriptions or the names of topics say which operation had them.
-/

namespace BrokerTopology

namespace Topology

/-! ## Operations and runs -/

/-- What can be asked of a topology. -/
inductive Operation where
  | addClient (address id : String) (bridge : Option String)
  | removeClient (id address : String)
  | addPublish (id address topic : String) (retain : Bool) (bytes : Nat)
  | addSubscription (id address filter : String)
  | removeSubscription (id address filter : String)
  | startProbe (id address : String) (now : Nat)
  | finishProbe (id address : String) (now : Nat)
  | sample (secs : Float)
  | takeChanged

/-- The topology after an operation, whatever the operation answers. -/
def Operation.apply (s : Topology) : Operation → Topology
  | .addClient address id bridge => (s.addClient address id bridge).2
  | .removeClient id address => (s.removeClient id address).2
  | .addPublish id address topic retain bytes => (s.addPublish id address topic retain bytes).2
  | .addSubscription id address filter => (s.addSubscription id address filter).2
  | .removeSubscription id address filter => (s.removeSubscription id address filter).2
  | .startProbe id address now => (s.startProbe id address now).2
  | .finishProbe id address now => (s.finishProbe id address now).2
  | .sample secs => (s.sample secs).2
  | .takeChanged => s.takeChanged.2

/-- The topology after several operations, the first of the list first. -/
def run (s : Topology) (ops : List Operation) : Topology :=
  ops.foldl Operation.apply s

/-- A run may be continued. -/
theorem run_append (s : Topology) (ops later : List Operation) :
    s.run (ops ++ later) = (s.run ops).run later :=
  List.foldl_append

/-! ## Effects -/

/-- What an operation may do to the clients and the topics. -/
inductive Effect (op : Operation) (s s' : Topology) : Prop where
  /-- Nothing. -/
  | nothing (clients : s'.clients = s.clients) (topics : s'.topics = s.topics)
  /-- A client is added. -/
  | connected (address id : String) (bridge : Option String)
      (op_eq : op = .addClient address id bridge)
      (clients : s'.clients.Perm (Client.fresh address id bridge :: s.clients))
      (topics : s'.topics = s.topics)
  /-- A client leaves, with its subscriptions and its edges. -/
  | disconnected (c : Client) (id address : String) (op_eq : op = .removeClient id address)
      (clients : s.clients.Perm (c :: s'.clients))
      (topics : s'.topics.values = s.topics.values.map fun t =>
        (t.removeSubscriber c.key).detachTimes s.idleBudget (c.publications.count t.name))
  /-- A topic receives bytes of a client, along an edge that is new or known. -/
  | published (c : Client) (published : Dict Edge) (id address topic : String) (retain : Bool)
      (bytes : Nat) (topics : List Topic) (op_eq : op = .addPublish id address topic retain bytes)
      (replaces : Replaces s s' c { c with published := published })
      (edges : c.published.contains topic = true ∧ published.values = c.published.values.map (fun e =>
          if e.topic = topic then e.send s.idleBudget bytes else e) ∨
        c.published.contains topic = false ∧
          published.values.Perm (Edge.fresh topic s.idleBudget bytes :: c.published.values))
      (known : s.topics.contains topic = true ∧ topics = s.topics.values ∨
        s.topics.contains topic = false ∧
          topics.Perm (s.newTopic topic retain :: s.topics.values))
      (topics_eq : s'.topics.values = topics.map fun t =>
        if t.name = topic then received retain bytes (!c.published.contains topic) t else t)
  /-- A client remembers one more filter. -/
  | subscribed (c : Client) (id address filter : String)
      (op_eq : op = .addSubscription id address filter)
      (replaces : Replaces s s' c { c with filters := c.filters ++ [filter] })
      (topics : s'.topics.values = s.topics.values.map (gained filter c.key))
  /-- A client forgets a filter. -/
  | unsubscribed (c : Client) (id address filter : String)
      (op_eq : op = .removeSubscription id address filter)
      (replaces : Replaces s s' c (withoutFilter c filter))
      (topics : s'.topics.values = s.topics.values.map (lost filter (withoutFilter c filter)))
  /-- The latency of a client is measured. -/
  | probed (c : Client) (latency : Latency) (replaces : Replaces s s' c { c with latency := latency })
      (topics : s'.topics = s.topics)
  /-- All clients and topics are measured, idle edges expire and drained topics go. -/
  | sampled (secs : Float) (clients : s'.clients = s.clients.map fun c => (c.sampled secs).client)
      (topics : s'.topics.values.Perm
        (((s.topics.values.map fun t =>
            t.detachTimes s.idleBudget ((s.expiredEdges secs).count t.name)).filter
          fun t => !t.isDrained).map fun t => t.drain.sampled secs))

/-- Nothing has happened to a topology that is the same. -/
theorem Effect.refl (op : Operation) (s : Topology) : Effect op s s :=
  .nothing rfl rfl

/-! ## The effect of each operation -/

/-- A refused or repeated operation keeps a topology as it is. -/
theorem unchanged_effect {op : Operation} {s : Topology} (hs : s.WellFormed) : s.WellFormed ∧ Effect op s s :=
  ⟨hs, .refl op s⟩

section Operations

variable {s : Topology} (hs : s.WellFormed)

include hs

theorem addClient_effect (address id : String) (bridge : Option String) :
    (s.addClient address id bridge).2.WellFormed ∧
      Effect (.addClient address id bridge) s (s.addClient address id bridge).2 := by
  cases hfind : s.client? address id with
  | some c =>
    rw [addClient_of_client? hfind]
    exact unchanged_effect hs
  | none =>
    obtain ⟨s', hanswer, hwf, hclients, htopics, -⟩ := addClient_spec hs hfind bridge
    rw [hanswer]
    exact ⟨hwf, .connected address id bridge rfl hclients htopics⟩

theorem removeClient_effect (id address : String) :
    (s.removeClient id address).2.WellFormed ∧
      Effect (.removeClient id address) s (s.removeClient id address).2 := by
  cases hfind : s.client? address id with
  | none =>
    obtain ⟨e, he⟩ := removeClient_of_client?_eq_none hfind
    rw [he]
    exact unchanged_effect hs
  | some c =>
    obtain ⟨s', hanswer, hwf, hclients, htopics, -⟩ := removeClient_spec hs hfind
    rw [hanswer]
    exact ⟨hwf, .disconnected c id address rfl hclients htopics⟩

theorem addPublish_effect (id address topic : String) (retain : Bool) (bytes : Nat) :
    (s.addPublish id address topic retain bytes).2.WellFormed ∧
      Effect (.addPublish id address topic retain bytes) s
        (s.addPublish id address topic retain bytes).2 := by
  cases hfind : s.client? address id with
  | none =>
    obtain ⟨e, he⟩ := addPublish_of_client?_eq_none hfind topic retain bytes
    rw [he]
    exact unchanged_effect hs
  | some c =>
    obtain ⟨s', published, topics, hanswer, hwf, hreplaces, hedges, hknown, htopics, -⟩ :=
      addPublish_spec hs hfind topic retain bytes
    rw [hanswer]
    exact ⟨hwf, .published c published id address topic retain bytes topics rfl hreplaces hedges
      hknown htopics⟩

theorem addSubscription_effect (id address filter : String) :
    (s.addSubscription id address filter).2.WellFormed ∧
      Effect (.addSubscription id address filter) s (s.addSubscription id address filter).2 := by
  cases hfind : s.client? address id with
  | none =>
    obtain ⟨e, he⟩ := addSubscription_of_client?_eq_none hfind filter
    rw [he]
    exact unchanged_effect hs
  | some c =>
    by_cases hmem : filter ∈ c.filters
    · rw [addSubscription_of_mem hfind hmem]
      exact unchanged_effect hs
    · obtain ⟨s', hanswer, hwf, hreplaces, htopics, -⟩ := addSubscription_spec hs hfind hmem
      rw [hanswer]
      exact ⟨hwf, .subscribed c id address filter rfl hreplaces htopics⟩

theorem removeSubscription_effect (id address filter : String) :
    (s.removeSubscription id address filter).2.WellFormed ∧
      Effect (.removeSubscription id address filter) s (s.removeSubscription id address filter).2 := by
  cases hfind : s.client? address id with
  | none =>
    obtain ⟨e, he⟩ := removeSubscription_of_client?_eq_none hfind filter
    rw [he]
    exact unchanged_effect hs
  | some c =>
    by_cases hmem : filter ∈ c.filters
    · obtain ⟨s', hanswer, hwf, hreplaces, htopics, -⟩ := removeSubscription_spec hs hfind hmem
      rw [hanswer]
      exact ⟨hwf, .unsubscribed c id address filter rfl hreplaces htopics⟩
    · rw [removeSubscription_of_not_mem hfind hmem]
      exact unchanged_effect hs

theorem startProbe_effect (id address : String) (now : Nat) :
    (s.startProbe id address now).2.WellFormed ∧
      Effect (.startProbe id address now) s (s.startProbe id address now).2 := by
  cases hfind : s.client? address id with
  | none =>
    obtain ⟨e, he⟩ := startProbe_of_client?_eq_none hfind now
    rw [he]
    exact unchanged_effect hs
  | some c =>
    obtain ⟨s', hanswer, hwf, hreplaces, htopics, -⟩ := startProbe_spec hs hfind now
    rw [hanswer]
    exact ⟨hwf, .probed c _ hreplaces htopics⟩

theorem finishProbe_effect (id address : String) (now : Nat) :
    (s.finishProbe id address now).2.WellFormed ∧
      Effect (.finishProbe id address now) s (s.finishProbe id address now).2 := by
  cases hfind : s.client? address id with
  | none =>
    obtain ⟨e, he⟩ := finishProbe_of_client?_eq_none hfind now
    rw [he]
    exact unchanged_effect hs
  | some c =>
    cases hpending : c.latency.pending with
    | none =>
      rw [finishProbe_of_pending_eq_none hfind hpending]
      exact unchanged_effect hs
    | some started =>
      obtain ⟨s', hanswer, hwf, hreplaces, htopics, -⟩ := finishProbe_spec hs hfind hpending now
      rw [hanswer]
      exact ⟨hwf, .probed c _ hreplaces htopics⟩

theorem sample_effect (secs : Float) :
    (s.sample secs).2.WellFormed ∧ Effect (.sample secs) s (s.sample secs).2 := by
  cases heffective : isEffective secs with
  | false =>
    rw [sample_of_not_effective heffective]
    exact unchanged_effect hs
  | true =>
    obtain ⟨report, s', hanswer, hwf, hclients, htopics, -⟩ := sample_spec hs heffective
    rw [hanswer]
    exact ⟨hwf, .sampled secs hclients htopics⟩

/-- An operation keeps a topology well formed and has one of the effects. -/
theorem apply_spec (op : Operation) : (op.apply s).WellFormed ∧ Effect op s (op.apply s) := by
  cases op with
  | addClient address id bridge => exact addClient_effect hs address id bridge
  | removeClient id address => exact removeClient_effect hs id address
  | addPublish id address topic retain bytes =>
    exact addPublish_effect hs id address topic retain bytes
  | addSubscription id address filter => exact addSubscription_effect hs id address filter
  | removeSubscription id address filter => exact removeSubscription_effect hs id address filter
  | startProbe id address now => exact startProbe_effect hs id address now
  | finishProbe id address now => exact finishProbe_effect hs id address now
  | sample secs => exact sample_effect hs secs
  | takeChanged => exact ⟨⟨hs.hosts, hs.topics, hs.host⟩, .nothing rfl rfl⟩

end Operations

/-! ## Induction over runs -/

/-- What holds of the empty topology and survives every effect holds after every run. -/
theorem run_induction {P : Topology → Prop} {s : Topology} (hs : s.WellFormed) (hP : P s)
    (hstep : ∀ op s s', s.WellFormed → Effect op s s' → P s → P s')
    (ops : List Operation) : (s.run ops).WellFormed ∧ P (s.run ops) := by
  induction ops generalizing s with
  | nil => exact ⟨hs, hP⟩
  | cons op ops ih =>
    obtain ⟨hwf, heffect⟩ := apply_spec hs op
    exact ih hwf (hstep op s _ hs heffect hP)

end Topology

end BrokerTopology
