import BrokerTopology.Proofs.Graph.Documents
/-!
# Publications and the flag of change

A publication sets the flag of change if the edge that it goes along is new. Along a known edge it
leaves the flag as it was, although it may change the document: the topic takes over the retain flag
of the message. This file shows that nothing else of the document changes then. So a publication with
the retain flag that its topic has already is announced whenever it changes the document, and one with
another flag may not be.
-/

namespace BrokerTopology

/-! ## Documents with another retain flag -/

namespace Snapshot

/-- The document in which one topic has a given retain flag. -/
def withRetain (d : Snapshot) (topic : String) (retain : Bool) : Snapshot :=
  { d with topics := d.topics.map fun t => if t.name = topic then { t with retain := retain } else t }

/-- A topic that has the retain flag already keeps the document as it is. -/
theorem withRetain_eq_self {d : Snapshot} {topic : String} {retain : Bool}
    (h : ∀ t ∈ d.topics, t.name = topic → t.retain = retain) : d.withRetain topic retain = d := by
  have hsame : ∀ t ∈ d.topics,
      (if t.name = topic then { t with retain := retain } else t) = t := by
    intro t ht
    split
    · rename_i hname
      rw [← h t ht hname]
    · rfl
  rw [withRetain, List.map_congr_left hsame, List.map_id']

end Snapshot

namespace Topology

open Snapshot

variable {s : Topology} {address id : String} {c : Client}

/-! ## One publication -/

/-- A publication sets the flag of change exactly if its edge is new. -/
theorem changed_addPublish (hs : s.WellFormed) (hfind : s.client? address id = some c)
    (topic : String) (retain : Bool) (bytes : Nat) :
    (s.addPublish id address topic retain bytes).2.changed =
      (s.changed || !c.published.contains topic) := by
  obtain ⟨s', published, topics, hanswer, -, -, -, -, -, -, hchanged, -⟩ :=
    addPublish_spec hs hfind topic retain bytes
  rw [hanswer]
  exact hchanged

/-- Bytes that are sent do not show before the next sample. -/
theorem ofClient_send (hc : c.WellFormed) (topic : String) (ttl : Int) (bytes : Nat) :
    ClientNode.ofClient { c with published := c.published.modify topic fun e => e.send ttl bytes } =
      ClientNode.ofClient c := by
  refine congrArg (ClientNode.mk c.id (c.latency.average.map round3) c.bridge) ?_
  rw [hc.published.values_modify, List.map_map]
  refine List.map_congr_left fun e _ => ?_
  rw [Function.comp]
  split
  · rfl
  · rfl

/-- A publication along a known edge changes the retain flag of its topic in the document, and nothing
else. -/
theorem render_addPublish_of_known (hs : s.WellFormed)
    (hcounted : Counted s.topics.values s.publications) (hfind : s.client? address id = some c)
    {topic : String} (hedge : c.published.contains topic = true) (retain : Bool) (bytes : Nat) :
    render (s.addPublish id address topic retain bytes).2 = (render s).withRetain topic retain := by
  have hc := ((client?_eq_some_iff hs).mp hfind).1
  have hlisted : s.topics.contains topic = true := by
    rw [← Bool.not_eq_false]
    intro hnew
    rw [contains_published_eq_false hs hcounted hc hnew] at hedge
    cases hedge
  rw [addPublish_of_known hfind hedge hlisted]
  refine congrArg₂ Snapshot.mk ?_ ?_
  · exact addressNodes_modifyClient hs hfind (ofClient_send (hs.client hc) topic _ bytes)
  · dsimp only
    rw [hs.topics.values_modify, render, List.map_map, List.map_map]
    refine List.map_congr_left fun t _ => ?_
    show TopicNode.ofTopic (if t.name = topic then received retain bytes false t else t) =
      if t.name = topic then { TopicNode.ofTopic t with retain := retain } else TopicNode.ofTopic t
    split
    · rfl
    · rfl

/-- A publication with the retain flag that the topic shows already sets the flag of change if it
changes the document. -/
theorem changed_of_render_ne (hs : s.WellFormed)
    (hcounted : Counted s.topics.values s.publications) (hfind : s.client? address id = some c)
    {topic : String} {retain : Bool} {bytes : Nat}
    (hretain : ∀ t ∈ (render s).topics, t.name = topic → t.retain = retain)
    (hdiffers : render (s.addPublish id address topic retain bytes).2 ≠ render s) :
    (s.addPublish id address topic retain bytes).2.changed = true := by
  rw [changed_addPublish hs hfind]
  cases hedge : c.published.contains topic with
  | false => exact Bool.or_true _
  | true =>
    refine absurd ?_ hdiffers
    rw [render_addPublish_of_known hs hcounted hfind hedge, withRetain_eq_self hretain]

end Topology

namespace Monitor

/-- As long as the flag of change is set, the next tick that samples produces a document. -/
theorem isSome_graph_tick {m : Monitor} (hchanged : m.topology.changed = true) {now : Nat}
    (hdue : (m.sampler.due? now).isSome = true) (reading : Memory.Usage) :
    (m.tick now reading).1.graph.isSome = true := by
  obtain ⟨elapsed, hdue⟩ := Option.isSome_iff_exists.mp hdue
  rw [(tick_of_due? hdue reading).2, if_pos ?_]
  · rfl
  · rw [Topology.sample]
    split
    · show (m.topology.changed || _) = true
      rw [hchanged, Bool.true_or]
    · exact hchanged

end Monitor

namespace Topology

open Snapshot

/-! ## Every run -/

/-- After every run, a publication of a known client sets the flag of change exactly if its edge is new.
Along a known edge the document changes in the retain flag of the topic at most. If the topic has that
flag already, every change of the document is announced; and what is announced is shown at the next
tick that samples. -/
theorem publication_run (idleBudget : Nat) (ops : List Operation) {address id : String} {c : Client}
    (hknown : ((empty idleBudget).run ops).client? address id = some c)
    (topic : String) (retain : Bool) (bytes : Nat) :
    (((empty idleBudget).run ops).addPublish id address topic retain bytes).2.changed =
        (((empty idleBudget).run ops).changed || !c.published.contains topic) ∧
      (c.published.contains topic = true →
        render (((empty idleBudget).run ops).addPublish id address topic retain bytes).2 =
          (render ((empty idleBudget).run ops)).withRetain topic retain) ∧
      ((∀ t ∈ (render ((empty idleBudget).run ops)).topics, t.name = topic → t.retain = retain) →
        render (((empty idleBudget).run ops).addPublish id address topic retain bytes).2 ≠
          render ((empty idleBudget).run ops) →
        (((empty idleBudget).run ops).addPublish id address topic retain bytes).2.changed = true) ∧
      ∀ m : Monitor,
        m.topology = (((empty idleBudget).run ops).addPublish id address topic retain bytes).2 →
        m.topology.changed = true → ∀ now reading, (m.sampler.due? now).isSome = true →
          (m.tick now reading).1.graph.isSome = true := by
  have hsound := (sound_empty idleBudget).run ops
  refine ⟨changed_addPublish hsound.wellFormed hknown topic retain bytes, fun hedge => ?_,
    fun hretain hdiffers => ?_, fun m _ hchanged now reading hdue => ?_⟩
  · exact render_addPublish_of_known hsound.wellFormed hsound.counted hknown hedge retain bytes
  · exact changed_of_render_ne hsound.wellFormed hsound.counted hknown hretain hdiffers
  · exact Monitor.isSome_graph_tick hchanged hdue reading

/-- A client publishes to a topic, which is shown. -/
def shownOnce : List Operation :=
  [.addClient "10.0.0.1" "p" none, .addPublish "p" "10.0.0.1" "a/b" false 5, .takeChanged]

/-- A retained message to the topic goes along the known edge and does not set the flag of change,
though the document now shows the topic as retained. -/
theorem publication_run_retained :
    ∃ c, ((empty 3).run shownOnce).client? "10.0.0.1" "p" = some c ∧
      c.published.contains "a/b" = true ∧
      (((empty 3).run shownOnce).addPublish "p" "10.0.0.1" "a/b" true 5).2.changed =
        (((empty 3).run shownOnce).changed || !c.published.contains "a/b") ∧
      render (((empty 3).run shownOnce).addPublish "p" "10.0.0.1" "a/b" true 5).2 =
        (render ((empty 3).run shownOnce)).withRetain "a/b" true := by
  have hsome : (((empty 3).run shownOnce).client? "10.0.0.1" "p").isSome = true := by decide +kernel
  obtain ⟨c, hc⟩ := Option.isSome_iff_exists.mp hsome
  have hedge : (((empty 3).run shownOnce).client? "10.0.0.1" "p").map
      (fun c => c.published.contains "a/b") = some true := by decide +kernel
  rw [hc] at hedge
  obtain ⟨hflag, hdocument, -, -⟩ := publication_run 3 shownOnce hc "a/b" true 5
  exact ⟨c, hc, Option.some.inj hedge, hflag, hdocument (Option.some.inj hedge)⟩

/-- So there are publications that change the document and do not set the flag of change. -/
theorem publication_run_unannounced :
    ¬ ∀ (idleBudget : Nat) (ops : List Operation) (address id topic : String) (retain : Bool)
        (bytes : Nat),
      (((empty idleBudget).run ops).client? address id).isSome = true →
      render (((empty idleBudget).run ops).addPublish id address topic retain bytes).2 ≠
        render ((empty idleBudget).run ops) →
      (((empty idleBudget).run ops).addPublish id address topic retain bytes).2.changed = true := by
  intro h
  have hknown : (((empty 3).run shownOnce).client? "10.0.0.1" "p").isSome = true := by decide +kernel
  have hflags : (render (((empty 3).run shownOnce).addPublish "p" "10.0.0.1" "a/b" true 5).2).topics.map
      TopicNode.retain ≠ (render ((empty 3).run shownOnce)).topics.map TopicNode.retain := by decide +kernel
  have hdiffers : render (((empty 3).run shownOnce).addPublish "p" "10.0.0.1" "a/b" true 5).2 ≠
      render ((empty 3).run shownOnce) := fun hsame =>
    hflags (congrArg (fun document => document.topics.map TopicNode.retain) hsame)
  have hquiet : (((empty 3).run shownOnce).addPublish "p" "10.0.0.1" "a/b" true 5).2.changed =
      false := by decide +kernel
  rw [h 3 shownOnce "10.0.0.1" "p" "a/b" true 5 hknown hdiffers] at hquiet
  cases hquiet

end Topology

end BrokerTopology
