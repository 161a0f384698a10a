import Mathlib.Data.List.Chain
import BrokerTopology.Proofs.Graph.Documents
import BrokerTopology.Proofs.Graph.EdgeAt
/-!
# How far readings move without a document

Beside its nodes and edges a document shows readings: the latencies of the clients and the rates of the
edges and the topics. A sample that moves none of them by more than the tolerance leads to no document.
It compares every reading with what the sample before has found, and not with what the last document
shows. So in a row of samples without a document every reading is near the one before it, while small
steps may add up to a reading that is not near the one in the document.
-/

namespace BrokerTopology

/-! ## Readings -/

/-- A reading is the one before, or has not moved by more than the tolerance. -/
def Near (old new : Float) : Prop :=
  new = old ∨ moved old new = false

/-- A fold that reports no change leaves what is reported near what was. -/
theorem Latency.near_fold {l : Latency} (h : l.fold.1 = false) :
    Option.Rel Near l.average l.fold.2.average := by
  rw [fold] at h ⊢
  split
  · cases l.average with
    | none => exact .none
    | some previous => exact .some (Or.inl rfl)
  · rename_i hsome
    rw [if_neg hsome] at h
    cases haverage : l.average with
    | none =>
      rw [haverage] at h
      cases h
    | some previous =>
      rw [haverage] at h
      exact .some (Or.inr h)

namespace Topology

/-- What a document shows a number for. -/
inductive Quantity where
  | latency (key : ClientKey)
  | edgeRate (key : ClientKey) (topic : String)
  | topicRate (topic : String)

/-- The number that is reported for a quantity, if there is one. -/
def reading (s : Topology) : Quantity → Option Float
  | .latency key => (s.clientAt key).bind fun c => c.latency.average
  | .edgeRate key topic => (s.edgeAt key topic).map Edge.rate
  | .topicRate topic => (s.topics.find? topic).map Topic.rate

/-- The same readings exist in two topologies, and each is near the one before. -/
def Steady (s s' : Topology) : Prop :=
  ∀ q, Option.Rel Near (s.reading q) (s'.reading q)

variable {s s' : Topology} {a : Action} {key : ClientKey} {topic : String}

/-- Readings that stay the same are steady. -/
theorem steady_of_eq (h : s'.reading = s.reading) : Steady s s' := by
  intro q
  rw [h]
  cases s.reading q with
  | none => exact .none
  | some value => exact .some (Or.inl rfl)

/-- The rate of a topic stands in its ledger. -/
theorem reading_topicRate (s : Topology) (topic : String) :
    s.reading (.topicRate topic) = (s.ledger? topic).map Ledger.rate := by
  rw [ledger?, Option.map_map]
  rfl

/-- Sending is not reported with the latency. -/
theorem latency_sent {c : Client} (hc : c.WellFormed) (topic : String) (ttl : Int) (bytes : Nat) :
    (sent c topic ttl bytes).latency = c.latency := by
  obtain ⟨published, hsend, -⟩ := sendAlong_spec hc topic ttl bytes
  rw [sent, hsend]

/-! ## Actions -/

section Outcomes

variable {m : Mutation} {after : Option Client} (h : s.Sound) (o : Outcome a key s s' m after)
  (hquiet : ¬ Visible s.Listed (s.clientAt key) after)

include h o hquiet

/-- Only along a known edge to a listed topic publishing is not visible. -/
theorem Outcome.known_of_not_visible {name : String} {retain : Bool} {bytes : Nat}
    (ha : a = .publish name retain bytes) :
    (s.edgeAt key name).isSome = true ∧ (s.ledger? name).isSome = true := by
  have hresponse := o.response
  generalize hfind : s.clientAt key = before at hresponse hquiet
  cases hresponse with
  | connected | disconnected => cases ha
  | kept _ _ honEdge =>
    -- publishing makes an edge where there was none
    have hnone := honEdge name none
    rw [ha, Action.onEdge, if_pos rfl] at hnone
    cases hnone
  | published c name' retain' bytes' =>
    obtain ⟨rfl, -, -⟩ := Action.publish.inj ha
    obtain ⟨hc, -⟩ := (clientAt_eq_some_iff h.wellFormed).mp hfind
    rw [visible_sent_iff (h.wellFormed.client hc), Bool.not_eq_false] at hquiet
    refine ⟨?_, ?_⟩
    · rw [Topology.edgeAt, hfind]
      exact hquiet
    · rw [← listed_iff_ledger?, Listed]
      by_contra hnew
      rw [contains_published_eq_false h.wellFormed h.counted hc (Bool.not_eq_true _ ▸ hnew)] at hquiet
      cases hquiet

/-- An action that is not visible leaves the reported latencies as they were. -/
theorem Outcome.average (other : ClientKey) :
    s'.reading (.latency other) = s.reading (.latency other) := by
  rw [Topology.reading, Topology.reading, o.clientAt]
  split
  · rename_i hsame
    subst hsame
    have hresponse := o.response
    generalize hfind : s.clientAt other = before at hresponse hquiet ⊢
    cases hresponse with
    | connected => rfl
    | disconnected => exact absurd trivial hquiet
    | published c name retain bytes =>
      have hc := h.wellFormed.client ((clientAt_eq_some_iff h.wellFormed).mp hfind).1
      rw [Option.bind_some, Option.bind_some, latency_sent hc]
    | kept _ haverage _ => exact haverage
  · rfl

/-- An action that is not visible leaves the rates of the edges as they were. -/
theorem Outcome.edgeRate (other : ClientKey) (topic : String) :
    s'.reading (.edgeRate other topic) = s.reading (.edgeRate other topic) := by
  rw [Topology.reading, Topology.reading, o.edgeAt h.wellFormed]
  split
  · rename_i hsame
    rw [hsame]
    have hresponse := o.response
    generalize hfind : s.clientAt key = before at hresponse
    cases hresponse with
    | connected => rfl
    | disconnected =>
      rw [hfind] at hquiet
      exact absurd trivial hquiet
    | published c name retain bytes =>
      obtain ⟨e, he⟩ := Option.isSome_iff_exists.mp (o.known_of_not_visible h hquiet rfl).1
      rw [Action.onEdge]
      split
      · rename_i hname
        rw [hname, he]
        rfl
      · rfl
    | kept _ _ honEdge => rw [honEdge]
  · rfl

/-- An action that is not visible leaves the rates of the topics as they were. -/
theorem Outcome.topicRate (topic : String) :
    s'.reading (.topicRate topic) = s.reading (.topicRate topic) := by
  rw [reading_topicRate, reading_topicRate, o.ledger]
  cases a with
  | publish name retain bytes =>
    obtain ⟨l, hl⟩ := Option.isSome_iff_exists.mp (o.known_of_not_visible h hquiet rfl).2
    rw [Action.onLedger]
    split
    · rename_i hname
      rw [hname, hl]
      rfl
    · rfl
  | _ => rfl

end Outcomes

/-- An action that leaves the flag of change unset leaves all readings as they were. -/
theorem reading_perform (h : s.Sound) (hquiet : (a.perform key s).2.changed = false) :
    (a.perform key s).2.reading = s.reading := by
  rcases outcome_or_refused h a key with ⟨m, after, -, o⟩ | ⟨-, hsame⟩
  · have hhidden : ¬ Visible s.Listed (s.clientAt key) after := by
      intro hvisible
      rw [o.changed.mpr (Or.inr hvisible)] at hquiet
      cases hquiet
    funext q
    cases q with
    | latency other => exact o.average h hhidden other
    | edgeRate other topic => exact o.edgeRate h hhidden other topic
    | topicRate topic => exact o.topicRate h hhidden topic
  · rw [hsame]

/-- An action takes no flag back. -/
theorem changed_of_perform (h : s.Sound) (hquiet : (a.perform key s).2.changed = false) :
    s.changed = false := by
  rcases outcome_or_refused h a key with ⟨m, after, -, o⟩ | ⟨-, hsame⟩
  · rw [← Bool.not_eq_true]
    intro hset
    rw [o.changed.mpr (Or.inl hset)] at hquiet
    cases hquiet
  · rwa [hsame] at hquiet

/-! ## Samples -/

section Samples

variable {secs : Float}

/-- A sample that leaves the flag of change unset has found it unset, and reports no change. -/
theorem changed_of_sample (hquiet : (s.sample secs).2.changed = false) :
    s.changed = false ∧ (s.sample secs).1.changed = false := by
  cases heffective : isEffective secs with
  | false =>
    rw [sample_of_not_effective heffective] at hquiet ⊢
    exact ⟨hquiet, rfl⟩
  | true =>
    rw [sample_of_effective heffective] at hquiet
    exact Bool.or_eq_false_iff.mp hquiet

/-- A sample that reports no change has moved neither a client nor a topic. -/
theorem unmoved_of_changed_eq_false (heffective : isEffective secs = true)
    (hquiet : (s.sample secs).1.changed = false) :
    (∀ c ∈ s.clients, (c.sampled secs).changed = false) ∧
      ∀ t ∈ s.topics.values, moved t.rate (t.measured secs) = false := by
  obtain ⟨hexpired, hremoved⟩ := quiet_of_changed_eq_false heffective hquiet
  rw [sample, if_pos heffective] at hquiet
  obtain ⟨hvalues, -⟩ := Bool.or_eq_false_iff.mp (Bool.or_eq_false_iff.mp hquiet).1
  obtain ⟨hclients, htopics⟩ := Bool.or_eq_false_iff.mp hvalues
  refine ⟨fun c hc => Bool.not_eq_true _ ▸ List.any_eq_false.mp hclients c hc, fun t ht => ?_⟩
  have hdrained : t.drain ∈ ((s.swept secs).dict.map Topic.drain).values := by
    rw [Dict.values_map, values_swept hexpired hremoved]
    exact List.mem_map_of_mem ht
  have hmoved := List.any_eq_false.mp htopics t.drain hdrained
  rwa [Bool.not_eq_true, Topic.rate_drain, Topic.measured, Topic.bytes_drain] at hmoved

/-- Where no edge of a client expires, all of them outlast the sample. -/
theorem outlast_of_expired_eq_nil {c : Client} (hc : c.WellFormed)
    (hexpired : (c.sampled secs).expired = []) {e : Edge} (he : e ∈ c.published.values) :
    e.outlast secs = some (e.sampled secs) := by
  refine Edge.outlast_eq_some_iff.mpr ⟨?_, rfl⟩
  rw [(Client.sampled_spec hc secs).2.2, List.map_eq_nil_iff, List.filter_eq_nil_iff] at hexpired
  rw [← Bool.not_eq_true]
  exact hexpired _ (List.mem_map_of_mem he)

section Quiet

variable (hs : s.WellFormed) (heffective : isEffective secs = true)
  (hquiet : (s.sample secs).1.changed = false)

include hs heffective hquiet

/-- A sample that reports no change keeps every reported latency near what it was. -/
theorem near_latency_sample (key : ClientKey) :
    Option.Rel Near (s.reading (.latency key)) ((s.sample secs).2.reading (.latency key)) := by
  obtain ⟨hclients, -⟩ := unmoved_of_changed_eq_false heffective hquiet
  rw [reading, reading, clientAt_sample hs heffective]
  cases hfind : s.clientAt key with
  | none => exact .none
  | some c =>
    have hc := ((clientAt_eq_some_iff hs).mp hfind).1
    exact Latency.near_fold (Bool.or_eq_false_iff.mp (hclients c hc)).1

/-- A sample that reports no change keeps the rate of every edge near what it was. -/
theorem near_edgeRate_sample (key : ClientKey) (topic : String) :
    Option.Rel Near (s.reading (.edgeRate key topic))
      ((s.sample secs).2.reading (.edgeRate key topic)) := by
  obtain ⟨hexpired, -⟩ := quiet_of_changed_eq_false heffective hquiet
  obtain ⟨hclients, -⟩ := unmoved_of_changed_eq_false heffective hquiet
  rw [reading, reading, edgeAt_sample hs heffective]
  cases hfind : s.edgeAt key topic with
  | none => exact .none
  | some e =>
    obtain ⟨c, hc, he⟩ := Option.bind_eq_some_iff.mp hfind
    obtain ⟨hlisted, -⟩ := (clientAt_eq_some_iff hs).mp hc
    have hedge := ((hs.client hlisted).published.find?_eq_some_iff.mp he).1
    have hstays := List.flatMap_eq_nil_iff.mp hexpired c hlisted
    have hrates := (Bool.or_eq_false_iff.mp (hclients c hlisted)).2
    rw [Option.bind_some, outlast_of_expired_eq_nil (hs.client hlisted) hstays hedge]
    exact .some (Or.inr (Bool.not_eq_true _ ▸ List.any_eq_false.mp hrates e hedge))

/-- A sample that reports no change keeps the rate of every topic near what it was. -/
theorem near_topicRate_sample (topic : String) :
    Option.Rel Near (s.reading (.topicRate topic))
      ((s.sample secs).2.reading (.topicRate topic)) := by
  obtain ⟨hexpired, hremoved⟩ := quiet_of_changed_eq_false heffective hquiet
  obtain ⟨-, htopics⟩ := unmoved_of_changed_eq_false heffective hquiet
  have hs' := (sample_effect hs secs).1
  have hvalues : (s.sample secs).2.topics.values =
      s.topics.values.map fun t => t.drain.sampled secs := by
    rw [sample_of_effective heffective, Dict.values_map, Dict.values_map, List.map_map,
      values_swept hexpired hremoved]
    rfl
  have hname : ∀ t : Topic, (t.drain.sampled secs).name = t.name := fun t => Topic.name_drain
  have hrate : ∀ t : Topic, (t.drain.sampled secs).rate = t.measured secs := fun t => by
    rw [Topic.sampled, Topic.measured, Topic.bytes_drain, Topic.measured]
  rw [reading, reading, hs.topics.find?_of_map hs'.topics hname hvalues]
  cases hfind : s.topics.find? topic with
  | none => exact .none
  | some t =>
    have hmoved := htopics t (hs.topics.find?_eq_some_iff.mp hfind).1
    rw [← hrate] at hmoved
    exact .some (Or.inr hmoved)

end Quiet

/-- A sample that leaves the flag of change unset is steady. -/
theorem steady_sample (hs : s.WellFormed) (hquiet : (s.sample secs).2.changed = false) :
    Steady s (s.sample secs).2 := by
  cases heffective : isEffective secs with
  | false =>
    rw [sample_of_not_effective heffective]
    exact steady_of_eq rfl
  | true =>
    obtain ⟨-, hreport⟩ := changed_of_sample hquiet
    intro q
    cases q with
    | latency key => exact near_latency_sample hs heffective hreport key
    | edgeRate key topic => exact near_edgeRate_sample hs heffective hreport key topic
    | topicRate topic => exact near_topicRate_sample hs heffective hreport topic

end Samples

end Topology

namespace Monitor

/-! ## What a run has shown and what it has not -/

/-- The topology of the last document, and the topologies that the samples since then have left
without one. -/
structure Chronicle where
  documented : Topology
  quiet : List Topology

/-- A document begins a new chronicle, and a sample without one is noted in the old. -/
def note (r : Chronicle) (m : Monitor) (e : Event) : Chronicle :=
  if (m.produced e).isSome then ⟨(m.step e).topology, []⟩
  else if m.samplesAt e then ⟨r.documented, r.quiet ++ [(m.step e).topology]⟩
  else r

/-- The chronicle after a run. -/
def chronicle (r : Chronicle) : Monitor → List Event → Chronicle
  | _, [] => r
  | m, e :: es => chronicle (note r m e) (m.step e) es

/-- The readings of a chronicle are steady from each sample to the next, and as long as the flag of
change is not set the last of them are those of the topology. -/
structure Follows (s : Topology) (r : Chronicle) : Prop where
  sound : s.Sound
  chain : (r.documented :: r.quiet).IsChain Topology.Steady
  current : s.changed = false →
    ∀ last ∈ (r.documented :: r.quiet).getLast?, s.reading = last.reading

namespace Follows

variable {s : Topology} {r : Chronicle}

/-- A topology follows itself. -/
theorem self (hs : s.Sound) : Follows s ⟨s, []⟩ where
  sound := hs
  chain := .singleton s
  current := by
    rintro - last hlast
    obtain rfl := Option.some.inj hlast
    rfl

/-- No action ends the chronicle. -/
theorem perform (h : Follows s r) (a : Topology.Action) (key : ClientKey) :
    Follows (a.perform key s).2 r := by
  refine ⟨h.sound.perform a key, h.chain, fun hquiet last hlast => ?_⟩
  rw [Topology.reading_perform h.sound hquiet]
  exact h.current (Topology.changed_of_perform h.sound hquiet) last hlast

/-- A sample that leaves the flag of change unset is noted. -/
theorem sample (h : Follows s r) {secs : Float} (hquiet : (s.sample secs).2.changed = false) :
    Follows (s.sample secs).2.takeChanged.2
      ⟨r.documented, r.quiet ++ [(s.sample secs).2.takeChanged.2]⟩ := by
  obtain ⟨hunset, -⟩ := Topology.changed_of_sample hquiet
  have hsteady : Topology.Steady s (s.sample secs).2.takeChanged.2 :=
    Topology.steady_sample h.sound.wellFormed hquiet
  refine ⟨(h.sound.apply (.sample secs)).apply .takeChanged, ?_, fun _ last hlast => ?_⟩
  · rw [← List.cons_append, List.isChain_append]
    refine ⟨h.chain, .singleton _, fun last hlast next hnext => ?_⟩
    obtain rfl := Option.some.inj hnext
    intro q
    rw [← h.current hunset last hlast]
    exact hsteady q
  · rw [← List.cons_append, List.getLast?_concat] at hlast
    obtain rfl := Option.some.inj hlast
    rfl

end Follows

/-- After an event a topology follows the chronicle with what the event has led to. -/
theorem follows_step {m : Monitor} {r : Chronicle} (h : Follows m.topology r) (e : Event) :
    Follows (m.step e).topology (note r m e) := by
  rcases m.step_cases e with
    ⟨hnone, hidle, hsame | ⟨key, a, hsame⟩⟩ | ⟨secs, hsamples, htopology, hproduced⟩
  · rw [note, hnone, hidle, hsame]
    exact h
  · rw [note, hnone, hidle, hsame]
    exact h.perform a key
  · rw [note, hproduced, hsamples, htopology]
    cases hset : (m.topology.sample secs).2.changed with
    | true => exact .self ((h.sound.apply (.sample secs)).apply .takeChanged)
    | false => exact h.sample hset

/-- After a run a topology follows its chronicle. -/
theorem follows_run {m : Monitor} {r : Chronicle} (h : Follows m.topology r) (events : List Event) :
    Follows (m.run events).topology (chronicle r m events) := by
  induction events generalizing m r with
  | nil => exact h
  | cons e es ih => exact ih (follows_step h e)

/-- A chronicle goes back to the document that the run has shown last. -/
theorem render_documented (m : Monitor) (r : Chronicle) (events : List Event) :
    Snapshot.render (chronicle r m events).documented =
      (shown m events).getLast?.getD (Snapshot.render r.documented) := by
  induction events generalizing m r with
  | nil => rfl
  | cons e es ih =>
    rw [chronicle, ih, shown, List.getLast?_append, note]
    cases (shown (m.step e) es).getLast? with
    | some last => rfl
    | none =>
      cases m.produced e with
      | some text => rfl
      | none =>
        cases m.samplesAt e with
        | true => rfl
        | false => rfl

/-! ## Every run -/

/-- The chronicle of a run from the beginning, when the topology without nodes counts as shown. -/
def history (settings : GraphSettings) (start : Nat) (events : List Event) : Chronicle :=
  chronicle ⟨.empty settings.idleBudget, []⟩ (new settings start) events

/-- In every run, from the topology of the last document on over all samples that have led to none, the
same readings exist, and each of them is the one before or has moved by no more than the tolerance. -/
theorem readings_run (settings : GraphSettings) (start : Nat) (events : List Event) :
    Snapshot.render (history settings start events).documented =
        (shown (new settings start) events).getLast?.getD ⟨[], []⟩ ∧
      ((history settings start events).documented ::
        (history settings start events).quiet).IsChain Topology.Steady := by
  have hstart : Follows (new settings start).topology ⟨.empty settings.idleBudget, []⟩ :=
    .self (Topology.sound_empty settings.idleBudget)
  exact ⟨render_documented _ _ events, (follows_run hstart events).chain⟩

/-- A client answers a probe after ten milliseconds, which is shown, and each of the next ones a little
later. -/
def creeping : List Event :=
  [.connect "c" "10.0.0.1" none, .startProbe "c" "10.0.0.1" 0, .finishProbe "c" "10.0.0.1" 10000000,
    .tick 10000000000 ⟨1, 2⟩, .startProbe "c" "10.0.0.1" 10000000000,
    .finishProbe "c" "10.0.0.1" 10010000600, .tick 20000000000 ⟨1, 2⟩,
    .startProbe "c" "10.0.0.1" 20000000000, .finishProbe "c" "10.0.0.1" 20010001200]

/-- So small steps add up: the next tick samples and produces no document either, though the latency is
not near any more to the one that the last document shows. -/
theorem readings_run_creeping :
    0 < ({} : GraphSettings).interval ∧
      (((new {} 0).run creeping).sampler.due? 30000000000).isSome = true ∧
      (((new {} 0).run creeping).tick 30000000000 ⟨1, 2⟩).1.graph = none ∧
      ∃ last now, (history {} 0 creeping).documented.reading (.latency ⟨"10.0.0.1", "c"⟩) = some last ∧
        (((new {} 0).run creeping).tick 30000000000 ⟨1, 2⟩).2.topology.reading
          (.latency ⟨"10.0.0.1", "c"⟩) = some now ∧ ¬ Near last now := by
  have hdue : (((new {} 0).run creeping).sampler.due? 30000000000).isSome = true := by
    decide +kernel
  have hnone : (((new {} 0).run creeping).tick 30000000000 ⟨1, 2⟩).1.graph = none := by
    decide +kernel
  have hold : (history {} 0 creeping).documented.reading (.latency ⟨"10.0.0.1", "c"⟩) = some 10 := by
    decide +kernel
  have hnew : (((new {} 0).run creeping).tick 30000000000 ⟨1, 2⟩).2.topology.reading
      (.latency ⟨"10.0.0.1", "c"⟩) = some (Latency.milliseconds 0 10001200) := by
    decide +kernel
  have hmoved : moved 10 (Latency.milliseconds 0 10001200) = true := by decide +kernel
  refine ⟨by decide, hdue, hnone, _, _, hold, hnew, ?_⟩
  rintro (hsame | hnear)
  · have hother : Latency.milliseconds 0 10001200 ≠ 10 := by decide +kernel
    exact hother hsame
  · rw [hmoved] at hnear
    cases hnear

end Monitor

end BrokerTopology
