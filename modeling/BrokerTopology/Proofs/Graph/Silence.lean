import BrokerTopology.Proofs.Graph.Documents
import BrokerTopology.Proofs.Graph.Quiescence
/-!
# A monitor that is told nothing falls silent

What a monitor does to its topology is a run of operations: the actions of the clients as they are told,
and at a tick a sample that is due and the taking of the flag of change. When nothing is told any more,
only ticks are left, and the topology comes to rest. Every document needs the flag of change, which only
the samples until then can set.
-/

namespace BrokerTopology

namespace Monitor

open BrokerTopology.Topology (Operation windows)

variable {m : Monitor} {e : Event} {ticks : List Event}

/-! ## What a monitor does to its topology -/

/-- The operations on the topology that an event amounts to. -/
def operationsAt (m : Monitor) : Event → List Operation
  | .connect id address bridge => [.addClient address id bridge]
  | .disconnect id address => [.removeClient id address]
  | .publish id address topic retain bytes =>
    if TopicName.isSystem topic then [] else [.addPublish id address topic retain bytes]
  | .subscribe id address filter => [.addSubscription id address filter]
  | .unsubscribe id address filter => [.removeSubscription id address filter]
  | .startProbe id address now => [.startProbe id address now]
  | .finishProbe id address now => [.finishProbe id address now]
  | .tick now _ =>
    match m.sampler.due? now with
    | none => []
    | some elapsed => [.sample (seconds elapsed), .takeChanged]

/-- The operations on the topology that several events amount to. -/
def operations : Monitor → List Event → List Operation
  | _, [] => []
  | m, e :: es => m.operationsAt e ++ operations (m.step e) es

/-- An event does to the topology what its operations do. -/
theorem topology_step_eq (m : Monitor) (e : Event) :
    (m.step e).topology = m.topology.run (m.operationsAt e) := by
  cases e with
  | publish id address topic retain bytes =>
    rw [step, publish, operationsAt]
    split
    · rfl
    · rfl
  | tick now reading =>
    rw [step, operationsAt]
    cases hdue : m.sampler.due? now with
    | none =>
      rw [tick_of_due?_eq_none hdue]
      rfl
    | some elapsed => exact (tick_of_due? hdue reading).1
  | _ => rfl

/-- Events do to the topology what their operations do. -/
theorem topology_run (m : Monitor) (events : List Event) :
    (m.run events).topology = m.topology.run (m.operations events) := by
  induction events generalizing m with
  | nil => rfl
  | cons e es ih =>
    rw [run, List.foldl_cons, ← run, ih, topology_step_eq, operations, Topology.run_append]

/-! ## Ticks without other events -/

/-- Whether an event is a tick. -/
def Event.isTick : Event → Bool
  | .tick _ _ => true
  | _ => false

/-- A tick at which no sample is due produces nothing; any other takes a sample and the flag of change,
and produces a document if the flag was set. -/
theorem tick_cases (m : Monitor) (h : e.isTick = true) :
    (m.operationsAt e = [] ∧ m.produced e = none) ∨
      ∃ secs, m.operationsAt e = [.sample secs, .takeChanged] ∧
        (m.produced e).isSome = (m.topology.sample secs).2.changed := by
  cases e with
  | tick now reading =>
    cases hdue : m.sampler.due? now with
    | none =>
      refine Or.inl ⟨?_, ?_⟩
      · rw [operationsAt, hdue]
      · rw [produced, tick_of_due?_eq_none hdue]
    | some elapsed =>
      refine Or.inr ⟨seconds elapsed, ?_, ?_⟩
      · rw [operationsAt, hdue]
      · rw [produced, (tick_of_due? hdue reading).2]
        split
        · rename_i hset
          rw [hset]
          rfl
        · rename_i hclear
          rw [Bool.not_eq_true] at hclear
          rw [hclear]
          rfl
  | _ => cases h

/-- Ticks are no actions of clients. -/
theorem isPassive_of_mem_operations (hticks : ∀ e ∈ ticks, e.isTick = true) :
    ∀ op ∈ m.operations ticks, op.isPassive = true := by
  induction ticks generalizing m with
  | nil =>
    intro op hop
    cases hop
  | cons e es ih =>
    obtain ⟨he, hes⟩ := List.forall_mem_cons.mp hticks
    rw [operations]
    refine List.forall_mem_append.mpr ⟨?_, ih hes⟩
    rcases m.tick_cases he with ⟨hnone, -⟩ | ⟨secs, hsample, -⟩
    · rw [hnone]
      exact List.forall_mem_nil _
    · rw [hsample]
      simp [Operation.isPassive]

/-- After ticks the flag of change is taken, unless no sample was due at any of them. -/
theorem changed_run_eq_false (hticks : ∀ e ∈ ticks, e.isTick = true)
    (hsome : m.operations ticks ≠ []) : (m.run ticks).topology.changed = false := by
  induction ticks generalizing m with
  | nil => exact absurd rfl hsome
  | cons e es ih =>
    obtain ⟨he, hes⟩ := List.forall_mem_cons.mp hticks
    rw [run, List.foldl_cons, ← run]
    by_cases hlater : (m.step e).operations es = []
    · rw [topology_run, hlater]
      rcases m.tick_cases he with ⟨hnone, -⟩ | ⟨secs, hsample, -⟩
      · rw [operations, hnone, hlater] at hsome
        exact absurd rfl hsome
      · rw [topology_step_eq, hsample]
        rfl
    · exact ih hes hlater

section Rest

variable {s : Topology} {rest : List Operation} (h : s.Sound) (hb : s.Bounded)

include h hb

/-- Ticks produce a document for every sample that is missing until the topology is quiet, and one more
if the flag of change is set. -/
theorem length_documents_le (hpassive : ∀ op ∈ rest, op.isPassive = true)
    (htopology : m.topology = s.run rest) (hticks : ∀ e ∈ ticks, e.isTick = true) :
    (documents m ticks).length ≤
      s.idleBudget + max s.idleBudget 2 - (windows rest).length + m.topology.changed.toNat := by
  induction ticks generalizing m rest with
  | nil => exact Nat.zero_le _
  | cons e es ih =>
    obtain ⟨he, hes⟩ := List.forall_mem_cons.mp hticks
    rw [documents, List.length_append]
    rcases m.tick_cases he with ⟨hnone, hproduced⟩ | ⟨secs, hsample, hproduced⟩
    · have hsame : (m.step e).topology = m.topology := by
        rw [topology_step_eq, hnone]
        rfl
      have hlater := ih hpassive (hsame.trans htopology) hes
      rw [hsame] at hlater
      rw [hproduced, Option.toList_none, List.length_nil, Nat.zero_add]
      exact hlater
    · have hrest : ∀ op ∈ rest ++ [.sample secs, .takeChanged], op.isPassive = true :=
        List.forall_mem_append.mpr ⟨hpassive, by simp [Operation.isPassive]⟩
      have hstep : (m.step e).topology = s.run (rest ++ [.sample secs, .takeChanged]) := by
        rw [topology_step_eq, hsample, htopology, Topology.run_append]
      have hclear : (m.step e).topology.changed = false := by
        rw [topology_step_eq, hsample]
        rfl
      have hone : (m.produced e).toList.length = (m.topology.sample secs).2.changed.toNat := by
        rw [← hproduced]
        cases m.produced e with
        | none => rfl
        | some text => rfl
      have hlater := ih hrest hstep hes
      have hwindows :
          windows (rest ++ [.sample secs, .takeChanged]) = windows (rest ++ [.sample secs]) := by
        rw [List.append_cons, Topology.windows_append_singleton]
        exact List.append_nil _
      have hsampled := Topology.toNat_changed_sample_le h hb hpassive secs
      rw [hclear, Bool.toNat_false, hwindows] at hlater
      rw [hone, htopology]
      omega

end Rest

/-! ## Every run -/

/-- From every run on, when nothing but samples and taking the flag of change follows, and the effective
samples among that are at least as many as the budget says and then again as many, or two, no edge and
no topic is left. Every effective sample reports then that it has removed and changed nothing, and leaves
the flag of change alone. So a monitor that is told nothing more produces at most one document more than
that number, however often it ticks, and none once that many effective samples have been taken. -/
theorem quiescence_run (settings : GraphSettings) :
    (∀ ops rest : List Operation, (∀ op ∈ rest, op.isPassive = true) →
      settings.idleBudget + max settings.idleBudget 2 ≤ (windows rest).length →
      ∀ s, s = (Topology.empty settings.idleBudget).run (ops ++ rest) →
        s.publications = [] ∧ s.topicCount = 0 ∧
        ∀ secs, Topology.isEffective secs = true →
          (s.sample secs).1 = ⟨0, 0, false⟩ ∧ (s.sample secs).2.changed = s.changed) ∧
    ∀ (start : Nat) (events ticks : List Event), (∀ e ∈ ticks, e.isTick = true) →
      ∀ m, m = (new settings start).run events →
        (documents m ticks).length ≤ settings.idleBudget + max settings.idleBudget 2 + 1 ∧
        (settings.idleBudget + max settings.idleBudget 2 ≤ (windows (m.operations ticks)).length →
          ∀ more : List Event, (∀ e ∈ more, e.isTick = true) → documents (m.run ticks) more = []) := by
  have h : ∀ ops, ((Topology.empty settings.idleBudget).run ops).Sound :=
    (Topology.sound_empty settings.idleBudget).run
  have hb : ∀ ops, ((Topology.empty settings.idleBudget).run ops).Bounded :=
    (Topology.Bounded.empty settings.idleBudget).run (Topology.sound_empty settings.idleBudget)
  have hbudget : ∀ ops, ((Topology.empty settings.idleBudget).run ops).idleBudget = settings.idleBudget :=
    Topology.idleBudget_run (Topology.sound_empty settings.idleBudget)
  refine ⟨?_, ?_⟩
  · rintro ops rest hpassive hlong s hrun
    have hs : s.Sound := by
      rw [hrun]
      exact h (ops ++ rest)
    rw [← hbudget ops] at hlong
    have hquiet : s.Quiet := by
      rw [hrun, Topology.run_append]
      exact Topology.quiet_run (h ops) (hb ops) hpassive hlong
    refine ⟨hquiet.publications, ?_, fun secs _ => hquiet.sample hs.wellFormed secs⟩
    rw [Topology.topicCount, hs.wellFormed.topics.size_eq, ← List.length_map, ← Dict.values,
      hquiet.topics]
    rfl
  · rintro start events ticks hticks m hm
    -- the topology of a monitor is that of a run of operations
    have htopology : m.topology =
        (Topology.empty settings.idleBudget).run ((new settings start).operations events) := by
      rw [hm, topology_run]
      rfl
    generalize (new settings start).operations events = ops at htopology
    refine ⟨?_, fun hlong more hmore => ?_⟩
    · have hle := length_documents_le (h ops) (hb ops) (List.forall_mem_nil _) htopology hticks
      have hbit := m.topology.changed.toNat_le
      rw [hbudget] at hle
      rw [windows, List.filterMap_nil, List.length_nil] at hle
      omega
    · have hafter : (m.run ticks).topology =
          ((Topology.empty settings.idleBudget).run ops).run (m.operations ticks) := by
        rw [topology_run, htopology]
      have hle := length_documents_le (h ops) (hb ops) (isPassive_of_mem_operations hticks) hafter hmore
      have hclear : (m.run ticks).topology.changed = false := by
        refine changed_run_eq_false hticks ?_
        intro hnone
        rw [hnone, windows, List.filterMap_nil, List.length_nil] at hlong
        omega
      rw [hbudget, hclear, Bool.toNat_false] at hle
      exact List.eq_nil_of_length_eq_zero (by omega)

/-- A client publishes a retained message, and its latency has been probed. -/
def abandoned : List Operation :=
  [.addClient "10.0.0.1" "p" none, .addPublish "p" "10.0.0.1" "a/b" true 5,
    .startProbe "p" "10.0.0.1" 1000, .finishProbe "p" "10.0.0.1" 5000]

/-- Three effective samples over different times, and one over no time. -/
def silence : List Operation :=
  [.sample 1, .sample 2, .takeChanged, .sample 0, .sample 3]

/-- With a budget of one sample the first finds what was sent, the second takes the edge, and the third
the topic. A monitor whose ticks take as many samples produces no document after that. -/
theorem quiescence_run_abandoned :
    (∀ op ∈ silence, op.isPassive = true) ∧
      3 ≤ (windows silence).length ∧
      ((Topology.empty 1).run (abandoned ++ silence)).publications = [] ∧
      (((Topology.empty 1).run (abandoned ++ silence)).sample 5).1 = ⟨0, 0, false⟩ ∧
      documents
        (((new { idleBudget := 1 } 0).run
            [.connect "p" "10.0.0.1" none, .publish "p" "10.0.0.1" "a/b" true 5]).run
          [.tick 10000000000 ⟨1, 2⟩, .tick 20000000000 ⟨1, 2⟩, .tick 30000000000 ⟨1, 2⟩])
        [.tick 40000000000 ⟨1, 2⟩] = [] := by
  have hpassive : ∀ op ∈ silence, op.isPassive = true := by decide
  have hlong : 3 ≤ (windows silence).length := by decide +kernel
  have heffective : Topology.isEffective 5 = true := by decide +kernel
  obtain ⟨hstore, hmonitor⟩ := quiescence_run { idleBudget := 1 }
  obtain ⟨hedges, -, hreports⟩ := hstore abandoned silence hpassive hlong _ rfl
  refine ⟨hpassive, hlong, hedges, (hreports 5 heffective).1, ?_⟩
  obtain ⟨-, hnone⟩ := hmonitor 0
    [.connect "p" "10.0.0.1" none, .publish "p" "10.0.0.1" "a/b" true 5]
    [.tick 10000000000 ⟨1, 2⟩, .tick 20000000000 ⟨1, 2⟩, .tick 30000000000 ⟨1, 2⟩]
    (by simp [Event.isTick]) _ rfl
  exact hnone (by decide +kernel) _ (by simp [Event.isTick])

end Monitor

end BrokerTopology
