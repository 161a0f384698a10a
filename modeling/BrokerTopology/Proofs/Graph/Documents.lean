import BrokerTopology.Graph.Monitor
import BrokerTopology.Proofs.Graph.Actions
import BrokerTopology.Proofs.Graph.Skeleton
/-!
# Documents are up to date

A monitor produces a document at a tick only if the flag of change is set. So a tick that samples and
produces none must leave a graph of which the last document still shows every node and edge. This
holds in every run of a monitor: while the flag is not set, the skeleton of the topology is that of the
last document, and at the beginning, where there is none yet, that of a document without nodes.
-/

namespace BrokerTopology

/-! ## Topologies and what was shown of them -/

/-- As long as the flag of change is not set, the topology has the skeleton of what was shown. The
counts are right, so that every edge names a topic that is shown. -/
structure Topology.UpToDate (s : Topology) (shown : Snapshot) : Prop where
  wellFormed : s.WellFormed
  counted : Counted s.topics.values s.publications
  current : s.changed = false → s.skeleton = shown.skeleton

namespace Topology.UpToDate

variable {s : Topology} {shown : Snapshot}

/-- A topology without nodes is up to date with a document without nodes. -/
theorem empty (idleBudget : Nat) : UpToDate (.empty idleBudget) ⟨[], []⟩ where
  wellFormed := wellFormed_empty idleBudget
  counted := Counted.nil
  current := fun _ => rfl

/-- What was shown stays up to date under every operation that does not take the flag back. -/
theorem apply (h : s.UpToDate shown) (op : Operation) (hop : op ≠ .takeChanged) :
    (op.apply s).UpToDate shown := by
  obtain ⟨hwf, heffect⟩ := apply_spec h.wellFormed op
  refine ⟨hwf, counted_of_effect h.wellFormed heffect h.counted, fun hquiet => ?_⟩
  rcases announced_apply h.wellFormed h.counted hop with hset | ⟨hsame, hskeleton⟩
  · rw [hquiet] at hset
    cases hset
  · rw [hskeleton]
    exact h.current (hsame.symm.trans hquiet)

/-- The flag may be taken back when the topology is shown anew, or if it was not set. -/
theorem takeChanged (h : s.UpToDate shown) :
    s.takeChanged.2.UpToDate (if s.changed then Snapshot.render s else shown) where
  wellFormed := ⟨h.wellFormed.hosts, h.wellFormed.topics, h.wellFormed.host⟩
  counted := h.counted
  current := by
    intro _
    split
    · rfl
    · rename_i hquiet
      exact h.current (by simpa using hquiet)

end Topology.UpToDate

namespace Monitor

/-! ## Events -/

/-- What a monitor is told, and its ticks. -/
inductive Event where
  | connect (id address : String) (bridge : Option String)
  | disconnect (id address : String)
  | publish (id address topic : String) (retain : Bool) (bytes : Nat)
  | subscribe (id address filter : String)
  | unsubscribe (id address filter : String)
  | startProbe (id address : String) (now : Nat)
  | finishProbe (id address : String) (now : Nat)
  | tick (now : Nat) (reading : Memory.Usage)

/-- The monitor after an event. -/
def step (m : Monitor) : Event → Monitor
  | .connect id address bridge => m.connect id address bridge
  | .disconnect id address => m.disconnect id address
  | .publish id address topic retain bytes => m.publish id address topic retain bytes
  | .subscribe id address filter => m.subscribe id address filter
  | .unsubscribe id address filter => m.unsubscribe id address filter
  | .startProbe id address now => m.startProbe id address now
  | .finishProbe id address now => m.finishProbe id address now
  | .tick now reading => (m.tick now reading).2

/-- The monitor after several events, the first of the list first. -/
def run (m : Monitor) (events : List Event) : Monitor :=
  events.foldl step m

/-- The graph document that an event produces. Only a tick may produce one. -/
def produced (m : Monitor) : Event → Option String
  | .tick now reading => (m.tick now reading).1.graph
  | _ => none

/-- Whether an event is a tick that samples. -/
def samplesAt (m : Monitor) : Event → Bool
  | .tick now _ => (m.sampler.due? now).isSome
  | _ => false

/-- The graph documents that a run produces, in the order of production. -/
def documents : Monitor → List Event → List String
  | _, [] => []
  | m, e :: es => (m.produced e).toList ++ documents (m.step e) es

/-- The topology as it is rendered at every event of a run that produces a graph document. -/
def shown : Monitor → List Event → List Snapshot
  | _, [] => []
  | m, e :: es =>
    ((m.produced e).map fun _ => Snapshot.render (m.step e).topology).toList ++ shown (m.step e) es

/-! ## One event -/

/-- A tick at which no sample is due does nothing. -/
theorem tick_of_due?_eq_none {m : Monitor} {now : Nat} (h : m.sampler.due? now = none)
    (reading : Memory.Usage) : m.tick now reading = ({}, m) := by
  rw [tick, Sampler.tick, h]

/-- A tick at which a sample is due produces a document if the sample leaves the flag set, and takes
the flag back. -/
theorem tick_of_due? {m : Monitor} {now elapsed : Nat} (h : m.sampler.due? now = some elapsed)
    (reading : Memory.Usage) :
    (m.tick now reading).2.topology = (m.topology.sample (seconds elapsed)).2.takeChanged.2 ∧
      (m.tick now reading).1.graph =
        if (m.topology.sample (seconds elapsed)).2.changed
        then some (Snapshot.render (m.topology.sample (seconds elapsed)).2).write else none := by
  rw [tick, Sampler.tick, h]
  exact ⟨rfl, rfl⟩

/-- What a monitor is told between two ticks is at most one action of a client. -/
theorem topology_step (m : Monitor) {e : Event} (he : ∀ now reading, e ≠ .tick now reading) :
    (m.step e).topology = m.topology ∨
      ∃ key, ∃ a : Topology.Action, (m.step e).topology = (a.perform key m.topology).2 := by
  cases e with
  | connect id address bridge => exact Or.inr ⟨⟨address, id⟩, .connect bridge, rfl⟩
  | disconnect id address => exact Or.inr ⟨⟨address, id⟩, .disconnect, rfl⟩
  | publish id address topic retain bytes =>
    rw [step, publish]
    split
    · -- a system topic is not part of the graph
      exact Or.inl rfl
    · exact Or.inr ⟨⟨address, id⟩, .publish topic retain bytes, rfl⟩
  | subscribe id address filter => exact Or.inr ⟨⟨address, id⟩, .subscribe filter, rfl⟩
  | unsubscribe id address filter => exact Or.inr ⟨⟨address, id⟩, .unsubscribe filter, rfl⟩
  | startProbe id address now => exact Or.inr ⟨⟨address, id⟩, .startProbe now, rfl⟩
  | finishProbe id address now => exact Or.inr ⟨⟨address, id⟩, .finishProbe now, rfl⟩
  | tick now reading => exact absurd rfl (he now reading)

/-- An event is at most one action and produces nothing, or it is a sample after which the flag of
change is taken, with a document if it was set. -/
theorem step_cases (m : Monitor) (e : Event) :
    (m.produced e = none ∧ m.samplesAt e = false ∧
      ((m.step e).topology = m.topology ∨
        ∃ key, ∃ a : Topology.Action, (m.step e).topology = (a.perform key m.topology).2)) ∨
    ∃ secs, m.samplesAt e = true ∧
      (m.step e).topology = (m.topology.sample secs).2.takeChanged.2 ∧
      m.produced e = if (m.topology.sample secs).2.changed
        then some (Snapshot.render (m.topology.sample secs).2).write else none := by
  cases e with
  | tick now reading =>
    cases hdue : m.sampler.due? now with
    | none =>
      refine Or.inl ⟨?_, ?_, Or.inl ?_⟩
      · rw [produced, tick_of_due?_eq_none hdue]
      · rw [samplesAt, hdue, Option.isSome_none]
      · rw [step, tick_of_due?_eq_none hdue]
    | some elapsed =>
      obtain ⟨htopology, hgraph⟩ := tick_of_due? hdue reading
      exact Or.inr ⟨seconds elapsed, by rw [samplesAt, hdue, Option.isSome_some], htopology, hgraph⟩
  | _ => exact Or.inl ⟨rfl, rfl, m.topology_step fun _ _ => Event.noConfusion⟩

/-- A document that is produced is the topology at that moment, written. -/
theorem produced_eq (m : Monitor) (e : Event) :
    m.produced e = (m.produced e).map fun _ => (Snapshot.render (m.step e).topology).write := by
  rcases m.step_cases e with ⟨hnone, -, -⟩ | ⟨secs, -, htopology, hproduced⟩
  · rw [hnone]
    rfl
  · rw [hproduced, htopology]
    split
    · rfl
    · rfl

/-- After an event a monitor is up to date with the document that the event has produced, or else
with what was shown before. -/
theorem upToDate_step {m : Monitor} {shown : Snapshot} (h : m.topology.UpToDate shown) (e : Event) :
    (m.step e).topology.UpToDate
      (((m.produced e).map fun _ => Snapshot.render (m.step e).topology).getD shown) := by
  rcases m.step_cases e with
    ⟨hnone, -, hsame | ⟨key, a, hsame⟩⟩ | ⟨secs, -, htopology, hproduced⟩
  · rw [hnone, hsame]
    exact h
  · rw [hnone, hsame, ← Topology.Action.apply_operation]
    exact h.apply (a.operation key) (a.operation_ne_takeChanged key)
  · have hsampled : (m.topology.sample secs).2.UpToDate shown :=
      h.apply (.sample secs) Topology.Operation.noConfusion
    have htaken := hsampled.takeChanged
    rw [htopology, hproduced]
    split
    · rename_i hset
      rwa [if_pos hset] at htaken
    · rename_i hquiet
      rwa [if_neg hquiet] at htaken

/-! ## Runs -/

/-- The documents of a run are what it shows, written. -/
theorem documents_eq_map_shown (m : Monitor) (events : List Event) :
    documents m events = (shown m events).map Snapshot.write := by
  induction events generalizing m with
  | nil => rfl
  | cons e es ih =>
    rw [documents, shown, List.map_append, ih, produced_eq]
    cases m.produced e with
    | none => rfl
    | some text => rfl

/-- After a run a monitor is up to date with what the run has shown last. -/
theorem upToDate_run {m : Monitor} {before : Snapshot} (h : m.topology.UpToDate before)
    (events : List Event) :
    (m.run events).topology.UpToDate ((shown m events).getLast?.getD before) := by
  induction events generalizing m before with
  | nil => exact h
  | cons e es ih =>
    have hrest := ih (upToDate_step h e)
    rw [shown, List.getLast?_append]
    refine (congrArg (Topology.UpToDate _) ?_).mp hrest
    cases (shown (m.step e) es).getLast? with
    | none =>
      cases m.produced e with
      | none => rfl
      | some text => rfl
    | some last => rfl

/-- Every document that a run produces is the topology at that moment, written. After the run a tick
that samples and produces no document leaves a topology that has the nodes and edges of the last
document, in their order; before the first document it has none. -/
theorem documents_run (settings : GraphSettings) (start : Nat) (events : List Event) :
    documents (new settings start) events =
      (shown (new settings start) events).map Snapshot.write ∧
    ∀ now reading, (((new settings start).run events).sampler.due? now).isSome = true →
      (((new settings start).run events).tick now reading).1.graph = none →
      (Snapshot.render (((new settings start).run events).tick now reading).2.topology).skeleton =
        ((shown (new settings start) events).getLast?.getD ⟨[], []⟩).skeleton := by
  refine ⟨documents_eq_map_shown _ events, fun now reading hdue hnone => ?_⟩
  obtain ⟨elapsed, hdue⟩ := Option.isSome_iff_exists.mp hdue
  have hrun : ((new settings start).run events).topology.UpToDate
      ((shown (new settings start) events).getLast?.getD ⟨[], []⟩) :=
    upToDate_run (Topology.UpToDate.empty settings.idleBudget) events
  have hsampled := hrun.apply (.sample (seconds elapsed)) Topology.Operation.noConfusion
  obtain ⟨htopology, hgraph⟩ := tick_of_due? hdue reading
  rw [htopology]
  refine hsampled.current ?_
  rw [hgraph] at hnone
  by_contra hset
  rw [Bool.not_eq_false] at hset
  rw [Topology.Operation.apply] at hset
  rw [hset] at hnone
  cases hnone

/-- A graph is shown once; then a client publishes as much as before, and another subscribes to what
it is sent already. -/
def steady : List Event :=
  [.connect "a" "10.0.0.1" none, .connect "b" "10.0.0.2" (some "remote"),
    .subscribe "b" "10.0.0.2" "x/#", .publish "a" "10.0.0.1" "x/y" false 5,
    .tick 10000000000 ⟨1, 2⟩, .publish "a" "10.0.0.1" "x/y" true 5, .subscribe "b" "10.0.0.2" "+/y"]

/-- The next tick produces no document, and the one document still shows the graph. -/
theorem documents_run_steady :
    (((new {} 0).run steady).sampler.due? 20000000000).isSome = true ∧
      (((new {} 0).run steady).tick 20000000000 ⟨1, 2⟩).1.graph = none ∧
      (shown (new {} 0) steady).length = 1 ∧
      (Snapshot.render (((new {} 0).run steady).tick 20000000000 ⟨1, 2⟩).2.topology).skeleton =
        ((shown (new {} 0) steady).getLast?.getD ⟨[], []⟩).skeleton := by
  have hdue : (((new {} 0).run steady).sampler.due? 20000000000).isSome = true := by decide +kernel
  have hnone : (((new {} 0).run steady).tick 20000000000 ⟨1, 2⟩).1.graph = none := by
    decide +kernel
  have honce : (shown (new {} 0) steady).length = 1 := by decide +kernel
  exact ⟨hdue, hnone, honce, (documents_run {} 0 steady).2 _ _ hdue hnone⟩

end Monitor

end BrokerTopology
