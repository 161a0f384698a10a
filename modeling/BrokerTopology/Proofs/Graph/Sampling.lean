import BrokerTopology.Proofs.Graph.Census
import BrokerTopology.Proofs.Graph.Lifetime
/-!
# What a sample does

A sample over no time, over an infinite time or over no number does nothing. Any other one measures what
there is, takes out the edges that expire and then the topics whose drain is over, and counts both. It
adds nothing, and of the clients and of the topics that stay it changes the measurements only.

Main statement: `sampledBy_run`.
-/

namespace BrokerTopology

/-! ## Effective samples -/

section Seconds

open Float.Model Float.Model.UnpackedFloat

/-- A sample is effective exactly if its seconds are a number that is positive and finite. -/
theorem isEffective_iff {secs : Float} :
    Topology.isEffective secs = true ↔ 0 < secs ∧ secs.isInf = false ∧ secs.isNaN = false := by
  have hzero : (0 : Float).toModel.unpack = .zero .positive := rfl
  have hle : secs ≤ 0 ↔ secs.toModel.unpack.le (.zero .positive) = true := by
    rw [← hzero]
    exact decide_eq_true_iff
  have hlt : 0 < secs ↔ UnpackedFloat.lt (.zero .positive) secs.toModel.unpack = true := by
    rw [← hzero]
    exact decide_eq_true_iff
  have hfinite : secs.isFinite = secs.toModel.unpack.isFinite := rfl
  have hinf : secs.isInf = secs.toModel.unpack.isInf := rfl
  have hnan : secs.isNaN = secs.toModel.unpack.isNaN := rfl
  rw [Topology.isEffective, Bool.and_eq_true, Bool.not_eq_true', decide_eq_false_iff_not, hle, hlt,
    hfinite, hinf, hnan]
  cases secs.toModel.unpack with
  | infinity sign => cases sign <;> decide
  | notANumber => decide
  | zero sign => cases sign <;> decide
  | finite sign m e hm =>
    cases sign with
    | positive => exact iff_of_true ⟨Bool.false_ne_true, rfl⟩ ⟨rfl, rfl, rfl⟩
    | negative => exact iff_of_false (fun h => h.1 rfl) (fun h => Bool.noConfusion h.1)

end Seconds

/-! ## Edges that expire -/

/-- What is in a list and not in one part of it is in the other part. -/
theorem mem_iff_of_perm_append {α : Type} {all gone left : List α} (hperm : all.Perm (gone ++ left))
    (hnodup : all.Nodup) {a : α} : a ∈ gone ↔ a ∈ all ∧ a ∉ left := by
  obtain ⟨-, -, hdisjoint⟩ := List.nodup_append'.mp (hperm.nodup_iff.mp hnodup)
  rw [hperm.mem_iff, List.mem_append]
  constructor
  · intro hgone
    exact ⟨Or.inl hgone, fun hleft => hdisjoint hgone hleft⟩
  · rintro ⟨hgone | hleft, hnot⟩
    · exact hgone
    · exact absurd hleft hnot

namespace Topology

variable {s : Topology} {secs : Float} {key : ClientKey} {name topic : String}

/-- A client that is found has an edge to what it publishes to. -/
theorem isSome_edgeAt_iff (hs : s.WellFormed) :
    (s.edgeAt key topic).isSome = true ↔
      ∃ c, s.clientAt key = some c ∧ topic ∈ c.publications := by
  rw [edgeAt, Option.isSome_bind, Option.any_eq_true]
  refine exists_congr fun c => and_congr_right fun hfind => ?_
  exact ((hs.client ((clientAt_eq_some_iff hs).mp hfind).1).mem_publications_iff).symm

/-- The edges that expire in a sample, with the keys of their clients. -/
def expiredPairs (s : Topology) (secs : Float) : List (ClientKey × String) :=
  s.clients.flatMap fun c => (c.sampled secs).expired.map fun topic => (c.key, topic)

/-- There are as many of them as edges expire. -/
theorem length_expiredPairs (s : Topology) (secs : Float) :
    (s.expiredPairs secs).length = (s.expiredEdges secs).length := by
  simp only [expiredPairs, expiredEdges, List.length_flatMap, List.length_map]

/-- No edge expires twice. -/
theorem expiredPairs_nodup (hs : s.WellFormed) (secs : Float) : (s.expiredPairs secs).Nodup := by
  refine List.nodup_flatMap.mpr ⟨fun c hc => ?_, ?_⟩
  · have hc := hs.client hc
    have hnodup := ((Client.publications_perm_sampled hc secs).nodup_iff.mp
      hc.publications_nodup).of_append_left
    exact hnodup.map fun _ _ hsame => (Prod.mk.inj hsame).2
  · -- edges of different clients differ in their keys
    refine (List.pairwise_map.mp hs.keys_nodup).imp fun {c d} hother => ?_
    refine List.disjoint_left.mpr fun p hc hd => hother ?_
    obtain ⟨_, -, rfl⟩ := List.mem_map.mp hc
    obtain ⟨_, -, hsame⟩ := List.mem_map.mp hd
    exact (Prod.mk.inj hsame).1.symm

/-- An edge expires if its client has it before the sample and not after it. -/
theorem mem_expiredPairs_iff (hs : s.WellFormed) :
    (key, topic) ∈ s.expiredPairs secs ↔ ∃ c, s.clientAt key = some c ∧
      topic ∈ c.publications ∧ topic ∉ (c.sampled secs).client.publications := by
  rw [expiredPairs, List.mem_flatMap]
  refine exists_congr fun c => ?_
  rw [clientAt_eq_some_iff hs, List.mem_map, and_assoc]
  refine and_congr_right fun hmem => ?_
  have hc := hs.client hmem
  rw [← mem_iff_of_perm_append (Client.publications_perm_sampled hc secs) hc.publications_nodup]
  constructor
  · rintro ⟨name, hname, hsame⟩
    obtain ⟨hkey, rfl⟩ := Prod.mk.inj hsame
    exact ⟨hkey, hname⟩
  · rintro ⟨rfl, htopic⟩
    exact ⟨topic, htopic, rfl⟩

/-- A topic once as many of its publishers have gone as between two topologies. -/
def afterExpiries (s s' : Topology) (t : Topic) : Topic :=
  t.detachTimes s.idleBudget (s.publisherCount t.name - s'.publisherCount t.name)

section Effective

variable (h : s.Sound) (heffective : isEffective secs = true)

include h heffective

/-- The edges that expire are those that are there before an effective sample and not after it. -/
theorem edge_gone_iff : (s.edgeAt key topic).isSome = true ∧ (s.sample secs).2.edgeAt key topic = none ↔
    (key, topic) ∈ s.expiredPairs secs := by
  have hleft : (s.sample secs).2.WellFormed := (h.apply (.sample secs)).wellFormed
  rw [mem_expiredPairs_iff h.wellFormed, isSome_edgeAt_iff h.wellFormed, ← Option.not_isSome_iff_eq_none,
    isSome_edgeAt_iff hleft, clientAt_sample h.wellFormed heffective]
  constructor
  · rintro ⟨⟨c, hfind, hmem⟩, hgone⟩
    refine ⟨c, hfind, hmem, fun hstill => hgone ⟨_, ?_, hstill⟩⟩
    rw [hfind, Option.map_some]
  · rintro ⟨c, hfind, hmem, hgone⟩
    refine ⟨⟨c, hfind, hmem⟩, ?_⟩
    rintro ⟨d, hd, hstill⟩
    rw [hfind, Option.map_some] at hd
    obtain rfl := Option.some.inj hd
    exact hgone hstill

/-! ## Topics that go -/

/-- What goes between the topologies before and after an effective sample are the edges that expire. -/
theorem afterExpiries_sample (t : Topic) :
    s.afterExpiries (s.sample secs).2 t =
      t.detachTimes s.idleBudget ((s.expiredEdges secs).count t.name) := by
  obtain ⟨report, s', hanswer, hs', hclients, -⟩ := sample_spec h.wellFormed heffective
  have hcount := (publications_perm_sampled h.wellFormed hclients).count_eq t.name
  rw [List.count_append] at hcount
  rw [hanswer, afterExpiries, publisherCount_eq_count h.wellFormed, publisherCount_eq_count hs', hcount,
    Nat.add_sub_cancel]

/-- A listed topic goes with an effective sample exactly if its drain is over once the edges have
expired. -/
theorem not_listed_sample_iff {t : Topic} (hfind : s.topics.find? name = some t) :
    ¬ (s.sample secs).2.Listed name ↔ (s.afterExpiries (s.sample secs).2 t).state = .draining 0 := by
  obtain ⟨-, rfl⟩ := h.wellFormed.topics.find?_eq_some_iff.mp hfind
  rw [afterExpiries_sample h heffective, Listed, Dict.contains,
    find?_topics_sample h.wellFormed heffective, hfind, Option.bind_some, Topic.outlast]
  split
  · rename_i hdrained
    exact iff_of_true Bool.false_ne_true (of_decide_eq_true hdrained)
  · rename_i hstays
    exact iff_of_false (fun hgone => hgone rfl) fun hstate => hstays (decide_eq_true hstate)

omit heffective in
/-- A topic that goes has no edge left. -/
theorem edgeAt_sample_of_not_listed (hgone : ¬ (s.sample secs).2.Listed name) (key : ClientKey) :
    (s.sample secs).2.edgeAt key name = none := by
  have hleft : (s.sample secs).2.Sound := h.apply (.sample secs)
  rw [← Option.not_isSome_iff_eq_none]
  intro hedge
  have hmem := (mem_publications_iff hleft.wellFormed).mpr ⟨key, hedge⟩
  exact hgone ((listed_iff hleft.wellFormed).mpr (hleft.counted.listed name hmem))

/-- The topics that go with an effective sample are those that it takes out. -/
theorem topic_gone_iff : s.Listed name ∧ ¬ (s.sample secs).2.Listed name ↔
    name ∈ (s.swept secs).removed.map Prod.fst := by
  obtain ⟨hdetached, hvalues⟩ := detachAll_spec s.idleBudget h.wellFormed.topics (s.expiredEdges secs)
  obtain ⟨-, -, hremoved⟩ := hdetached.removeIf_spec Topic.isDrained
  rw [swept, hremoved, List.map_map, hvalues, List.mem_map]
  constructor
  · rintro ⟨hlisted, hgone⟩
    obtain ⟨t, ht, rfl⟩ := (listed_iff h.wellFormed).mp hlisted
    have hfind := h.wellFormed.topics.find?_eq_some_iff.mpr ⟨ht, rfl⟩
    rw [not_listed_sample_iff h heffective hfind, afterExpiries_sample h heffective] at hgone
    exact ⟨_, List.mem_filter.mpr ⟨List.mem_map_of_mem ht, decide_eq_true hgone⟩,
      Topic.name_detachTimes⟩
  · rintro ⟨u, hu, rfl⟩
    obtain ⟨hu, hdrained⟩ := List.mem_filter.mp hu
    obtain ⟨t, ht, rfl⟩ := List.mem_map.mp hu
    have hname : ((fun v : Topic => (v.name, v)) (t.detachTimes s.idleBudget
        ((s.expiredEdges secs).count t.name))).1 = t.name := Topic.name_detachTimes
    have hfind := h.wellFormed.topics.find?_eq_some_iff.mpr ⟨ht, rfl⟩
    rw [Function.comp, hname, not_listed_sample_iff h heffective hfind, afterExpiries_sample h heffective]
    exact ⟨(listed_iff h.wellFormed).mpr ⟨t, ht, rfl⟩, of_decide_eq_true hdrained⟩

omit heffective in
/-- No topic is taken out twice. -/
theorem removed_nodup : ((s.swept secs).removed.map Prod.fst).Nodup := by
  obtain ⟨hdetached, -⟩ := detachAll_spec s.idleBudget h.wellFormed.topics (s.expiredEdges secs)
  obtain ⟨-, -, hremoved⟩ := hdetached.removeIf_spec Topic.isDrained
  rw [swept, hremoved, List.map_map]
  exact hdetached.names_nodup.sublist (List.filter_sublist.map Topic.name)

omit h in
/-- An effective sample reports the edges and the topics that it takes out, as a change if there are
any. -/
theorem report_sample :
    (s.sample secs).1.removedEdges = (s.expiredEdges secs).length ∧
      (s.sample secs).1.removedTopics = (s.swept secs).removed.length ∧
      (0 < (s.expiredEdges secs).length ∨ 0 < (s.swept secs).removed.length →
        (s.sample secs).1.changed = true) := by
  rw [sample, if_pos heffective]
  refine ⟨rfl, rfl, fun hsome => ?_⟩
  simp only [Bool.or_eq_true, Bool.not_eq_true', List.isEmpty_eq_false_iff_exists_mem,
    ← List.length_pos_iff_exists_mem]
  rcases hsome with hedges | htopics
  · exact Or.inl (Or.inr hedges)
  · exact Or.inr htopics

end Effective

/-! ## Every sample -/

/-- A topology before and after an effective sample with its report. -/
structure SampledBy (report : SampleReport) (s s' : Topology) : Prop where
  /-- The addresses are the same. -/
  hosts : s'.hosts.keys = s.hosts.keys
  /-- So are the clients, with their bridges, their filters and the probes in flight. -/
  clients : ∀ key, (s'.clientAt key).map (fun c => (c.bridge, c.filters, c.latency.pending)) =
    (s.clientAt key).map fun c => (c.bridge, c.filters, c.latency.pending)
  /-- No client has a new edge. -/
  edges : ∀ key topic, s.edgeAt key topic = none → s'.edgeAt key topic = none
  /-- A topic that is listed was listed before, with its name, its retain flag and its subscribers. -/
  topics : ∀ name t', s'.topics.find? name = some t' → ∃ t, s.topics.find? name = some t ∧
    t'.name = t.name ∧ t'.retain = t.retain ∧ t'.subscribers = t.subscribers
  /-- A topic goes exactly if no client has an edge to it any more and its drain is over. -/
  gone : ∀ name t, s.topics.find? name = some t →
    (¬ s'.Listed name ↔
      (∀ key, s'.edgeAt key name = none) ∧ (s.afterExpiries s' t).state = .draining 0)
  /-- The edges are counted that are gone. -/
  removedEdges : {p : ClientKey × String |
    (s.edgeAt p.1 p.2).isSome = true ∧ s'.edgeAt p.1 p.2 = none}.encard = report.removedEdges
  /-- The topics are counted that are gone. -/
  removedTopics : {name | s.Listed name ∧ ¬ s'.Listed name}.encard = report.removedTopics
  /-- What is gone is a change. -/
  reported : 0 < report.removedEdges ∨ 0 < report.removedTopics → report.changed = true
  changed : s'.changed = (s.changed || report.changed)
  idleBudget : s'.idleBudget = s.idleBudget

/-- An effective sample leaves a topology as it should. -/
theorem sampledBy_sample (h : s.Sound) (heffective : isEffective secs = true) :
    SampledBy (s.sample secs).1 s (s.sample secs).2 where
  hosts := by
    rw [sample_of_effective heffective]
    dsimp only
    rw [sampledHosts, Dict.keys_map]
  clients key := by
    rw [clientAt_sample h.wellFormed heffective, Option.map_map]
    refine congrArg (fun f => (s.clientAt key).map f) (funext fun c => ?_)
    rw [Function.comp, ← Latency.pending_fold c.latency]
    rfl
  edges key topic hnone := by
    rw [edgeAt_sample h.wellFormed heffective, hnone]
    rfl
  topics name t' hfind := by
    rw [find?_topics_sample h.wellFormed heffective, Option.bind_eq_some_iff] at hfind
    obtain ⟨t, hfind, hlast⟩ := hfind
    exact ⟨t, hfind, Topic.of_outlast hlast⟩
  gone name t hfind := by
    rw [← not_listed_sample_iff h heffective hfind]
    exact ⟨fun hgone => ⟨edgeAt_sample_of_not_listed h hgone, hgone⟩, And.right⟩
  removedEdges := by
    rw [encard_setOf_of_nodup (expiredPairs_nodup h.wellFormed secs) fun p =>
      edge_gone_iff h heffective, length_expiredPairs, (report_sample heffective).1]
  removedTopics := by
    rw [encard_setOf_of_nodup (removed_nodup h) fun name => topic_gone_iff h heffective,
      List.length_map, (report_sample heffective).2.1]
  reported := by
    obtain ⟨hedges, htopics, hchanged⟩ := report_sample heffective
    rw [hedges, htopics]
    exact hchanged
  changed := by
    obtain ⟨report, s', hanswer, -, -, -, -, hchanged⟩ := sample_spec h.wellFormed heffective
    rw [hanswer]
    exact hchanged
  idleBudget := idleBudget_apply h (.sample secs)

/-- After every run, a sample over a time that is not positive, is infinite or is no number changes
nothing and reports nothing. Any other sample leaves the addresses, the clients with their bridges,
filters and pending probes, and the name, the retain flag and the subscribers of every topic that stays;
it adds nothing, a topic goes exactly if it has no edge left and no tick of its drain, and the report
counts what is gone and says whether the topology is marked as changed. -/
theorem sampledBy_run (idleBudget : Nat) (ops : List Operation) (secs : Float) :
    (¬ 0 < secs ∨ secs.isInf = true ∨ secs.isNaN = true →
      ((empty idleBudget).run ops).sample secs = (.none, (empty idleBudget).run ops)) ∧
    (0 < secs → secs.isInf = false → secs.isNaN = false →
      SampledBy (((empty idleBudget).run ops).sample secs).1 ((empty idleBudget).run ops)
        (((empty idleBudget).run ops).sample secs).2) := by
  constructor
  · intro hnone
    refine sample_of_not_effective (Bool.eq_false_iff.mpr fun heffective => ?_)
    obtain ⟨hpositive, hinf, hnan⟩ := isEffective_iff.mp heffective
    rcases hnone with hnot | hinf' | hnan'
    · exact hnot hpositive
    · rw [hinf] at hinf'
      cases hinf'
    · rw [hnan] at hnan'
      cases hnan'
  · intro hpositive hinf hnan
    exact sampledBy_sample ((sound_empty idleBudget).run ops) (isEffective_iff.mpr ⟨hpositive, hinf, hnan⟩)

/-- Two topics with one publisher each that has sent nothing since the last sample, and a third that
drains: the first is retained. A client with a probe in flight subscribes to them. -/
def fading : List Operation :=
  [.addClient "10.0.0.1" "p" none, .addClient "10.0.0.2" "q" (some "10.0.0.9"),
    .addSubscription "q" "10.0.0.2" "#", .startProbe "q" "10.0.0.2" 7,
    .addPublish "p" "10.0.0.1" "a" true 5, .addPublish "p" "10.0.0.1" "b" false 5,
    .addClient "10.0.0.3" "r" none, .addPublish "r" "10.0.0.3" "c" true 5,
    .removeClient "r" "10.0.0.3", .sample 1]

/-- With a budget of two samples the next one takes both edges out, and of the topics the one that is not
retained. A sample over no time does nothing. -/
theorem sampledBy_run_fading :
    ∃ report s', ((empty 2).run fading).sample 1 = (report, s') ∧
      SampledBy report ((empty 2).run fading) s' ∧ report = ⟨2, 1, true⟩ ∧
      s'.topics.values.map (fun t => (t.name, t.state)) = [("c", .draining 0), ("a", .draining 1)] ∧
      ((empty 2).run fading).sample 0 = (.none, (empty 2).run fading) := by
  obtain ⟨hnone, -⟩ := sampledBy_run 2 fading 0
  obtain ⟨-, hsome⟩ := sampledBy_run 2 fading 1
  refine ⟨_, _, rfl, hsome (by decide +kernel) (by decide +kernel) (by decide +kernel), ?_, ?_,
    hnone (Or.inl (by decide +kernel))⟩
  · decide +kernel
  · decide +kernel

end Topology

end BrokerTopology
