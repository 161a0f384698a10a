import Mathlib.Data.Nat.PSub
import BrokerTopology.Graph.Render
import BrokerTopology.Proofs.Graph.Accounts
import BrokerTopology.Proofs.Graph.Expiry
/-!
# How long a topic outlives its publishers

A topic without publishers drains, and how many samples it survives then, its grace, is known as soon
as it is published to: the whole budget if the last publication was retained, and none otherwise. While
the topic has a publisher the grace stays. From the operation on that takes the last publisher away,
every effective sample uses up one tick of it, and the topic goes with the sample that finds none left.
No other operation restarts or shortens the drain, whichever way the last publisher was lost.
-/

namespace BrokerTopology

/-! ## The grace of one topic -/

/-- The samples that a topic in some state is still going to survive. -/
def TopicState.ticks : TopicState → Nat
  | .active => 0
  | .draining n => n

namespace Topic

variable {budget n : Nat} {secs : Float} {t u : Topic}

/-- The samples that a topic survives without publishers. -/
def grace (budget : Nat) (t : Topic) : Nat :=
  (t.rest budget).ticks

/-- A topic with a publisher has the grace that its retain flag gives. -/
theorem grace_of_published (h : 0 < t.publishers) :
    t.grace budget = if t.retain then budget else 0 := by
  have hsome : t.publishers ≠ 0 := by omega
  rw [grace, rest, if_neg hsome]
  rfl

/-- A topic without publishers is draining, with its grace left. -/
theorem state_of_unpublished (hactive : t.state = .active ↔ 0 < t.publishers)
    (h : t.publishers = 0) : t.state = .draining (t.grace budget) := by
  rw [grace, rest, if_pos h]
  cases hstate : t.state with
  | active =>
    have hsome := hactive.mp hstate
    omega
  | draining n => rfl

/-- Publishers that go leave the retain flag alone. -/
@[simp] theorem retain_detachTimes : (t.detachTimes budget n).retain = t.retain := by
  induction n generalizing t with
  | zero => rfl
  | succ n ih => exact ih

/-- A tick of the drain leaves the retain flag alone. -/
@[simp] theorem retain_drain : t.drain.retain = t.retain := by
  unfold drain
  split <;> rfl

/-- The topic after a sample in which a number of its publish edges expire, unless it goes. -/
def outlast (budget n : Nat) (secs : Float) (t : Topic) : Option Topic :=
  if (t.detachTimes budget n).isDrained then none
  else some ((t.detachTimes budget n).drain.sampled secs)

/-- A sample leaves a topic that stays its name, its retain flag and its subscribers. -/
theorem of_outlast (h : t.outlast budget n secs = some u) :
    u.name = t.name ∧ u.retain = t.retain ∧ u.subscribers = t.subscribers := by
  unfold outlast at h
  split at h
  · cases h
  · obtain rfl := Option.some.inj h
    simp [sampled]

/-- A sample that leaves a topic a publisher keeps its grace, and any other takes a tick of it. -/
theorem grace_outlast (hactive : t.state = .active ↔ 0 < t.publishers) (hle : n ≤ t.publishers) :
    (t.outlast budget n secs).map (grace budget) =
      if n < t.publishers then some (t.grace budget) else (t.grace budget).ppred := by
  have hgrace : (t.detachTimes budget n).grace budget = t.grace budget :=
    congrArg (fun l => l.rest.ticks) (ledger_detachTimes hle)
  have hleft : (t.detachTimes budget n).publishers = t.publishers - n := publishers_detachTimes
  have hactive' : (t.detachTimes budget n).state = .active ↔ 0 < (t.detachTimes budget n).publishers :=
    active_iff_detachTimes hactive
  rw [← hgrace, outlast]
  generalize t.detachTimes budget n = u at hleft hactive'
  split
  · rename_i hdrained
    have hdrained : u.state = .draining 0 := of_decide_eq_true hdrained
    have hnone : u.publishers = 0 := by
      by_contra hsome
      rw [hactive'.mpr (by omega)] at hdrained
      cases hdrained
    have hgrace : u.grace budget = 0 := by
      rw [grace, rest, if_pos hnone, hdrained]
      rfl
    rw [if_neg (by omega), hgrace]
    rfl
  · rename_i hstays
    split
    · -- the topic is active, and no tick is taken
      have hsome : u.state = .active := hactive'.mpr (by omega)
      have hsame : u.drain = u := by
        unfold drain
        rw [hsome]
      rw [Option.map_some, hsame]
      rfl
    · have hnone : u.publishers = 0 := by omega
      have hstate : u.state = .draining (u.grace budget) := state_of_unpublished hactive' hnone
      cases hticks : u.grace budget with
      | zero =>
        rw [hticks] at hstate
        exact absurd (decide_eq_true hstate) hstays
      | succ k =>
        rw [hticks] at hstate
        have hdrain : u.drain = { u with state := .draining k } := by
          unfold drain
          rw [hstate]
          rfl
        rw [Option.map_some, hdrain, Nat.ppred_succ, grace, rest]
        simp [sampled, hnone, TopicState.ticks]

end Topic

namespace Topology

variable {s : Topology} {op : Operation} {ops : List Operation} {topic : String}

/-! ## Publishers and ledgers -/

/-- A topic is published to if some client has an edge to it. -/
theorem mem_publications_iff (hs : s.WellFormed) :
    topic ∈ s.publications ↔ ∃ key, (s.edgeAt key topic).isSome = true := by
  constructor
  · intro hmem
    obtain ⟨c, hc, hedge⟩ := List.mem_flatMap.mp hmem
    refine ⟨c.key, ?_⟩
    rw [edgeAt, (clientAt_eq_some_iff hs).mpr ⟨hc, rfl⟩]
    exact (hs.client hc).mem_publications_iff.mp hedge
  · rintro ⟨key, hedge⟩
    obtain ⟨e, he⟩ := Option.isSome_iff_exists.mp hedge
    obtain ⟨c, hfind, he⟩ := Option.bind_eq_some_iff.mp he
    obtain ⟨hc, -⟩ := (clientAt_eq_some_iff hs).mp hfind
    refine List.mem_flatMap.mpr ⟨c, hc, (hs.client hc).mem_publications_iff.mpr ?_⟩
    rw [Dict.contains, he]
    rfl

/-- The samples that a topic survives without publishers, if it is listed. -/
def grace? (s : Topology) (topic : String) : Option Nat :=
  (s.topics.find? topic).map (Topic.grace s.idleBudget)

/-- The grace stands in the ledger. -/
theorem grace?_eq (s : Topology) (topic : String) :
    s.grace? topic = (s.ledger? topic).map fun l => l.rest.ticks := by
  rw [grace?, ledger?, Option.map_map]
  rfl

/-- A topic is listed if it has a grace. -/
theorem listed_iff_grace? : s.Listed topic ↔ (s.grace? topic).isSome = true := by
  rw [Listed, Dict.contains, grace?, Option.isSome_map]

/-- A topic that is published to is listed, and its grace follows from its retain flag. -/
theorem grace?_of_mem_publications (h : s.Sound) (hmem : topic ∈ s.publications) :
    ∃ t, s.topics.find? topic = some t ∧
      s.grace? topic = some (if t.retain then s.idleBudget else 0) := by
  obtain ⟨t, ht, hname⟩ := h.counted.listed topic hmem
  have hfind := h.wellFormed.topics.find?_eq_some_iff.mpr ⟨ht, hname⟩
  have hsome : 0 < t.publishers := by
    rw [h.counted.publishers_eq t ht, hname]
    exact List.count_pos_iff.mpr hmem
  refine ⟨t, hfind, ?_⟩
  rw [grace?, hfind, Option.map_some, Topic.grace_of_published hsome]

/-! ## Samples -/

section Samples

variable {secs : Float}

/-- After an effective sample the topics are found that outlast it. -/
theorem find?_topics_sample (hs : s.WellFormed) (h : isEffective secs = true) (topic : String) :
    (s.sample secs).2.topics.find? topic =
      (s.topics.find? topic).bind
        (Topic.outlast s.idleBudget ((s.expiredEdges secs).count topic) secs) := by
  obtain ⟨hdetached, hvalues⟩ := detachAll_spec s.idleBudget hs.topics (s.expiredEdges secs)
  obtain ⟨hkept, -, -⟩ := hdetached.removeIf_spec Topic.isDrained
  have hdrained : ((s.swept secs).dict.map Topic.drain).NamedBy Topic.name :=
    hkept.map fun t _ => Topic.name_drain
  rw [sample_of_effective h]
  dsimp only
  rw [hdrained.find?_map (f := Topic.sampled secs) (fun _ => rfl),
    Dict.NamedBy.find?_map (d := (s.swept secs).dict) hkept fun _ => Topic.name_drain, swept,
    hdetached.find?_removeIf, hs.topics.find?_of_map hdetached (fun _ => Topic.name_detachTimes) hvalues]
  cases hfind : s.topics.find? topic with
  | none => rfl
  | some t =>
    have hname := (hs.topics.find?_eq_some_iff.mp hfind).2
    rw [Option.map_some, hname, Option.bind_some, Topic.outlast, Option.filter_some]
    cases (t.detachTimes s.idleBudget ((s.expiredEdges secs).count topic)).isDrained with
    | true => rfl
    | false => rfl

/-- An effective sample keeps the grace of a topic that has a publisher left, and takes a tick of any
other. -/
theorem grace?_sample (h : s.Sound) (heffective : isEffective secs = true) (topic : String) :
    (s.sample secs).2.grace? topic =
      if topic ∈ (s.sample secs).2.publications then s.grace? topic
      else (s.grace? topic).bind Nat.ppred := by
  obtain ⟨report, s', hanswer, -, hclients, -, hbudget, -⟩ := sample_spec h.wellFormed heffective
  have hperm := publications_perm_sampled h.wellFormed hclients
  rw [grace?, grace?, find?_topics_sample h.wellFormed heffective, hanswer, hbudget]
  cases hfind : s.topics.find? topic with
  | none => simp
  | some t =>
    obtain ⟨ht, rfl⟩ := h.wellFormed.topics.find?_eq_some_iff.mp hfind
    have hcount : t.publishers =
        (s.expiredEdges secs).count t.name + s'.publications.count t.name := by
      rw [h.counted.publishers_eq t ht, hperm.count_eq, List.count_append]
    have hleft : t.name ∈ s'.publications ↔ (s.expiredEdges secs).count t.name < t.publishers := by
      rw [← List.count_pos_iff]
      omega
    rw [Option.bind_some, Topic.grace_outlast (h.counted.active_iff t ht) (by omega)]
    exact if_congr hleft.symm rfl rfl

end Samples

/-! ## Actions -/

/-- An action changes the grace of a topic only if it leaves the topic published to. -/
theorem grace?_perform (h : s.Sound) {a : Action} {key : ClientKey}
    (hnone : topic ∉ (a.perform key s).2.publications) :
    (a.perform key s).2.grace? topic = s.grace? topic := by
  rcases outcome_or_refused h a key with ⟨m, after, -, o⟩ | ⟨-, hsame⟩
  · rw [grace?_eq, grace?_eq, o.ledger]
    cases a with
    | publish name retain bytes =>
      have hother : topic ≠ name := by
        rintro rfl
        refine hnone ((mem_publications_iff (h.perform _ key).wellFormed).mpr ⟨key, ?_⟩)
        rw [o.edgeAt h.wellFormed, if_pos rfl, Action.onEdge, if_pos rfl]
        rfl
      rw [Action.onLedger, if_neg hother]
    | _ => rfl
  · rw [hsame]

/-- Over no samples nothing is taken from a grace. -/
theorem bind_psub_zero (o : Option Nat) : (o.bind fun n => n.psub 0) = o := by
  cases o with
  | none => rfl
  | some n => rfl

/-- A grace of which one tick is taken was larger. -/
theorem exists_bind_psub_one {o : Option Nat} {i : Nat} :
    (∃ k, (o.bind fun n => n.psub 1) = some k ∧ i ≤ k) ↔ ∃ n, o = some n ∧ i < n := by
  constructor
  · rintro ⟨k, hk, hle⟩
    obtain ⟨n, rfl, hn⟩ := Option.bind_eq_some_iff.mp hk
    have hticks := Nat.psub_eq_some.mp hn
    exact ⟨n, rfl, by omega⟩
  · rintro ⟨n, rfl, hlt⟩
    refine ⟨n - 1, Nat.psub_eq_some.mpr (by omega), by omega⟩

/-- An operation that leaves a topic without publishers changes its grace only if it is an effective
sample, which takes a tick of it. -/
theorem grace?_apply (h : s.Sound) (hnone : topic ∉ (op.apply s).publications) :
    (op.apply s).grace? topic = (s.grace? topic).bind fun n => n.psub op.window?.toList.length := by
  rcases op.cases_action with ⟨key, a, rfl⟩ | ⟨secs, rfl⟩ | rfl
  · rw [Action.apply_operation] at hnone ⊢
    rw [grace?_perform h hnone, Action.window?_operation]
    exact (bind_psub_zero (s.grace? topic)).symm
  · cases heffective : isEffective secs with
    | true =>
      have hgone : topic ∉ (s.sample secs).2.publications := hnone
      rw [Operation.apply, grace?_sample h heffective, if_neg hgone, Operation.window?,
        if_pos heffective]
      rfl
    | false =>
      rw [Operation.apply, sample_of_not_effective heffective, Operation.window?, heffective]
      exact (bind_psub_zero (s.grace? topic)).symm
  · exact (bind_psub_zero (s.grace? topic)).symm

/-! ## Moments that leave a topic without publishers -/

namespace Moment

/-- The topology that a moment leaves. -/
def left (m : Moment) : Topology :=
  m.op.apply m.found

/-- The retain flag of a publication to a topic at a moment, if there is one that is not refused. -/
def flagTo (topic : String) (m : Moment) : Option Bool :=
  match m.op with
  | .addPublish id address name retain bytes =>
    if topic = name ∧ (m.found.addPublish id address name retain bytes).1.isOk = true
    then some retain else none
  | _ => none

end Moment

/-- A publication that is not refused has its retain flag. -/
theorem flagTo_publish {key : ClientKey} {name : String} {retain : Bool} {bytes : Nat}
    (hok : ((Action.publish name retain bytes).perform key s).1.isOk = true) (topic : String) :
    Moment.flagTo topic ⟨s, (Action.publish name retain bytes).operation key⟩ =
      if topic = name then some retain else none :=
  if_congr (and_iff_left hok) rfl rfl

/-- A topic that has no publisher gets one only by a publication. -/
theorem not_mem_publications_apply (h : s.Sound) (hquiet : Moment.flagTo topic ⟨s, op⟩ = none)
    (hnone : topic ∉ s.publications) : topic ∉ (op.apply s).publications := by
  rw [mem_publications_iff h.wellFormed, not_exists] at hnone
  have hnoedge : ∀ key, s.edgeAt key topic = none := fun key => by simpa using hnone key
  suffices hstill : ∀ key, (op.apply s).edgeAt key topic = none by
    rw [mem_publications_iff (h.apply op).wellFormed]
    rintro ⟨key, hedge⟩
    rw [hstill] at hedge
    cases hedge
  intro other
  rcases op.cases_action with ⟨key, a, rfl⟩ | ⟨secs, rfl⟩ | rfl
  · rw [Action.apply_operation]
    rcases outcome_or_refused h a key with ⟨m, after, hanswer, o⟩ | ⟨-, hsame⟩
    · rw [o.edgeAt h.wellFormed, hnoedge, hnoedge, ite_eq_right_iff]
      intro _
      cases a with
      | publish name retain bytes =>
        rw [flagTo_publish (by rw [hanswer]; rfl), ite_eq_right_iff] at hquiet
        exact if_neg fun hsame => Option.some_ne_none _ (hquiet hsame)
      | _ => rfl
    · rw [hsame]
      exact hnoedge other
  · cases heffective : isEffective secs with
    | true =>
      rw [Operation.apply, edgeAt_sample h.wellFormed heffective, hnoedge]
      rfl
    | false =>
      rw [Operation.apply, sample_of_not_effective heffective]
      exact hnoedge other
  · exact hnoedge other

/-- Without a publication a topic that has no publisher gets none over a whole run. -/
theorem forall_left_not_mem (h : s.Sound) (hquiet : ∀ m ∈ s.moments ops, m.flagTo topic = none)
    (hnone : topic ∉ s.publications) : ∀ m ∈ s.moments ops, topic ∉ m.left.publications := by
  induction ops generalizing s with
  | nil =>
    intro m hm
    cases hm
  | cons op ops ih =>
    obtain ⟨hop, hops⟩ := List.forall_mem_cons.mp hquiet
    have hstill := not_mem_publications_apply h hop hnone
    exact List.forall_mem_cons.mpr ⟨hstill, ih (h.apply op) hops hstill⟩

/-! ## Runs -/

/-- While no moment leaves a topic a publisher, the effective samples take ticks of its grace. -/
theorem grace?_run (h : s.Sound) (hnone : ∀ m ∈ s.moments ops, topic ∉ m.left.publications) :
    (s.run ops).grace? topic = (s.grace? topic).bind fun n => n.psub (windows ops).length := by
  induction ops generalizing s with
  | nil => exact (bind_psub_zero (s.grace? topic)).symm
  | cons op ops ih =>
    obtain ⟨hop, hops⟩ := List.forall_mem_cons.mp hnone
    rw [run, List.foldl_cons, ← run, ih (h.apply op) hops, grace?_apply h hop, windows_cons,
      List.length_append, Option.bind_assoc]
    refine congrArg _ (funext fun n => ?_)
    rw [Nat.psub_add]
    rfl

/-- The documents of the topologies that the effective samples of a run leave. -/
def sampledDocuments (s : Topology) : List Operation → List Snapshot
  | [] => []
  | op :: ops =>
    (op.window?.map fun _ => Snapshot.render (op.apply s)).toList ++ sampledDocuments (op.apply s) ops

/-- A document shows the topics that are listed. -/
theorem isSome_topic?_render (hs : s.WellFormed) :
    ((Snapshot.render s).topic? topic).isSome = true ↔ s.Listed topic := by
  rw [listed_iff hs, Snapshot.topic?, List.find?_isSome, Snapshot.render]
  simp [Snapshot.TopicNode.ofTopic]

/-- While no moment leaves a topic a publisher, as many documents show it as its grace says, the first
ones. -/
theorem isSome_topic?_sampledDocuments (h : s.Sound)
    (hnone : ∀ m ∈ s.moments ops, topic ∉ m.left.publications) {i : Nat} {d : Snapshot}
    (hd : (s.sampledDocuments ops)[i]? = some d) :
    (d.topic? topic).isSome = true ↔ ∃ n, s.grace? topic = some n ∧ i < n := by
  induction ops generalizing s i with
  | nil => cases hd
  | cons op ops ih =>
    obtain ⟨hop, hops⟩ := List.forall_mem_cons.mp hnone
    have hgrace := grace?_apply h hop
    have hrest := fun {i : Nat} => ih (i := i) (h.apply op) hops
    rw [sampledDocuments] at hd
    cases hwindow : op.window? with
    | none =>
      rw [hwindow, Option.toList_none, List.length_nil, bind_psub_zero] at hgrace
      rw [hwindow] at hd
      rw [hrest hd, hgrace]
    | some secs =>
      rw [hwindow, Option.toList_some, List.length_singleton] at hgrace
      rw [hwindow] at hd
      cases i with
      | zero =>
        obtain rfl := Option.some.inj hd
        rw [isSome_topic?_render (h.apply op).wellFormed, listed_iff_grace?, hgrace,
          Option.isSome_iff_exists]
        refine Iff.trans ?_ exists_bind_psub_one
        exact exists_congr fun k => (and_iff_left (Nat.zero_le k)).symm
      | succ i =>
        rw [hrest hd, hgrace]
        exact exists_bind_psub_one

/-! ## The last publication of a log -/

/-- The retain flag of the last publication to a topic in a log. -/
def lastFlag (topic : String) (log : List Moment) : Option Bool :=
  (log.filterMap (Moment.flagTo topic)).getLast?

/-- One moment more is a later publication, or none. -/
theorem lastFlag_append_singleton (topic : String) (log : List Moment) (m : Moment) :
    lastFlag topic (log ++ [m]) = (m.flagTo topic).or (lastFlag topic log) := by
  rw [lastFlag, List.filterMap_append, List.getLast?_append]
  cases hflag : m.flagTo topic with
  | none => simp [hflag, lastFlag]
  | some retain => simp [hflag]

/-- After an action a topic has the retain flag of the publication that the action is, or else the flag
that it had. -/
theorem retain_perform (h : s.Sound) (a : Action) (key : ClientKey) (topic : String) :
    ((a.perform key s).2.topics.find? topic).map Topic.retain =
      (Moment.flagTo topic ⟨s, a.operation key⟩).or ((s.topics.find? topic).map Topic.retain) := by
  have hledger : ∀ s : Topology,
      (s.topics.find? topic).map Topic.retain = (s.ledger? topic).map Ledger.retain := by
    intro s
    rw [ledger?, Option.map_map]
    rfl
  rcases outcome_or_refused h a key with ⟨m, after, hanswer, o⟩ | ⟨hrefused, hsame⟩
  · rw [hledger, hledger, o.ledger]
    cases a with
    | publish name retain bytes =>
      rw [flagTo_publish (by rw [hanswer]; rfl), Action.onLedger]
      split
      · rfl
      · rfl
    | _ => rfl
  · rw [hsame]
    cases a with
    | publish name retain bytes =>
      have hnone : Moment.flagTo topic ⟨s, (Action.publish name retain bytes).operation key⟩ = none := by
        refine if_neg fun hboth => ?_
        rw [Action.perform, hboth.2] at hrefused
        cases hrefused
      rw [hnone, Option.none_or]
    | _ => rfl

/-- After an operation a listed topic has the retain flag of the publication that the operation is, or
else the flag that it had. -/
theorem retain_apply (h : s.Sound) {t : Topic} (hfind : (op.apply s).topics.find? topic = some t) :
    (Moment.flagTo topic ⟨s, op⟩).or ((s.topics.find? topic).map Topic.retain) = some t.retain := by
  rcases op.cases_action with ⟨key, a, rfl⟩ | ⟨secs, rfl⟩ | rfl
  · rw [← retain_perform h, ← Action.apply_operation, hfind]
    rfl
  · cases heffective : isEffective secs with
    | true =>
      rw [Operation.apply, find?_topics_sample h.wellFormed heffective] at hfind
      obtain ⟨t₀, hfind₀, houtlast⟩ := Option.bind_eq_some_iff.mp hfind
      obtain ⟨-, hsame, -⟩ := Topic.of_outlast houtlast
      rw [hfind₀, hsame]
      rfl
    | false =>
      rw [Operation.apply, sample_of_not_effective heffective] at hfind
      rw [hfind]
      rfl
  · have hsame : s.topics.find? topic = some t := hfind
    rw [hsame]
    rfl

/-- A listed topic has the retain flag of the last publication to it. -/
theorem lastFlag_run (idleBudget : Nat) (ops : List Operation) {t : Topic}
    (hfind : ((empty idleBudget).run ops).topics.find? topic = some t) :
    lastFlag topic ((empty idleBudget).moments ops) = some t.retain := by
  induction ops using List.reverseRecOn generalizing t with
  | nil =>
    rw [run, List.foldl_nil, empty, Dict.find?_empty] at hfind
    cases hfind
  | append_singleton ops op ih =>
    have h : ((empty idleBudget).run ops).Sound := (sound_empty idleBudget).run ops
    rw [run_append_singleton] at hfind
    rw [moments_append_singleton, lastFlag_append_singleton]
    rw [← retain_apply h hfind]
    cases hfind₀ : ((empty idleBudget).run ops).topics.find? topic with
    | none =>
      have hflag := retain_apply h hfind
      rw [hfind₀, Option.map_none, Option.or_none] at hflag
      rw [hflag]
      rfl
    | some t₀ => rw [ih hfind₀, Option.map_some]

/-- The effective samples that a topic survives after its last publisher has gone, by the log of the run
until then. -/
def drainTime (idleBudget : Nat) (topic : String) (log : List Moment) : Nat :=
  if lastFlag topic log = some true then idleBudget else 0

/-- A topic that is published to after a run has its drain time as its grace. -/
theorem grace?_run_of_mem_publications {idleBudget : Nat} {before : List Operation}
    (hmem : topic ∈ ((empty idleBudget).run before).publications) :
    ((empty idleBudget).run before).grace? topic =
      some (drainTime idleBudget topic ((empty idleBudget).moments before)) := by
  have h : ((empty idleBudget).run before).Sound := (sound_empty idleBudget).run before
  obtain ⟨t, hfind, hgrace⟩ := grace?_of_mem_publications h hmem
  rw [hgrace, idleBudget_run (sound_empty idleBudget), drainTime, lastFlag_run idleBudget before hfind]
  cases t.retain <;> rfl

/-- A publication that is not refused makes a listed topic active, with the name and the subscribers
that it has. -/
theorem revived_addPublish (h : s.Sound) {id address : String} {retain : Bool} {bytes : Nat} {t : Topic}
    (hfind : s.topics.find? topic = some t)
    (hok : (s.addPublish id address topic retain bytes).1.isOk = true) :
    ∃ t', (s.addPublish id address topic retain bytes).2.topics.find? topic = some t' ∧
      t'.state = .active ∧ t'.name = t.name ∧ t'.subscribers = t.subscribers := by
  have hs' : (s.addPublish id address topic retain bytes).2.Sound :=
    h.perform (.publish topic retain bytes) ⟨address, id⟩
  cases hclient : s.client? address id with
  | none =>
    obtain ⟨e, he⟩ := addPublish_of_client?_eq_none hclient topic retain bytes
    rw [he] at hok
    cases hok
  | some c =>
    have hfind' := find?_topics_addPublish h.wellFormed hclient topic retain bytes topic
    rw [if_pos rfl, hfind, Option.getD_some] at hfind'
    refine ⟨_, hfind', ?_, name_received _ _ _ t, subscribers_received _ _ _ t⟩
    obtain ⟨e, hedge, -⟩ := edgeAt_addPublish h hok
    obtain ⟨ht', hname⟩ := hs'.wellFormed.topics.find?_eq_some_iff.mp hfind'
    rw [hs'.counted.active_iff _ ht', hs'.counted.publishers_eq _ ht', hname, List.count_pos_iff]
    exact (mem_publications_iff hs'.wellFormed).mpr ⟨_, Option.isSome_iff_exists.mpr ⟨e, hedge⟩⟩

/-- In every run an operation takes its last publisher from a topic, and no later one publishes to it.
The documents of the effective samples from that operation on show the topic as many times as the drain
time says, and never again after that; between the samples it is listed just as long. While it is
listed its subscribers are the connected clients with a filter that covers it, each of them once, and a
publication that is not refused makes it active again, with the name and the subscribers that it has. -/
theorem drain_run {idleBudget : Nat} {before after : List Operation} {op : Operation}
    (hpublished : 0 < ((empty idleBudget).run before).publisherCount topic)
    (hlost : ((empty idleBudget).run (before ++ [op])).publisherCount topic = 0)
    (hquiet : ∀ m ∈ ((empty idleBudget).run (before ++ [op])).moments after, m.flagTo topic = none)
    (hrun : s = (empty idleBudget).run (before ++ op :: after)) :
    (∀ i d, (((empty idleBudget).run before).sampledDocuments (op :: after))[i]? = some d →
      ((d.topic? topic).isSome = true ↔
        i < drainTime idleBudget topic ((empty idleBudget).moments before))) ∧
    (s.Listed topic ↔ (windows (op :: after)).length ≤
      drainTime idleBudget topic ((empty idleBudget).moments before)) ∧
    ∀ t, s.topics.find? topic = some t →
      (t.subscribers.Nodup ∧ ∀ key : ClientKey, key ∈ t.subscribers ↔
        ∃ c, s.client? key.address key.id = some c ∧
          ∃ f ∈ c.filters, Filter.covers f topic = true) ∧
      ∀ id address retain bytes, (s.addPublish id address topic retain bytes).1.isOk = true →
        ∃ t', (s.addPublish id address topic retain bytes).2.topics.find? topic = some t' ∧
          t'.state = .active ∧ t'.name = t.name ∧ t'.subscribers = t.subscribers := by
  have h₀ : ((empty idleBudget).run before).Sound := (sound_empty idleBudget).run before
  have h₁ : ((empty idleBudget).run (before ++ [op])).Sound := (sound_empty idleBudget).run _
  have hs : s.Sound := by
    rw [hrun]
    exact (sound_empty idleBudget).run _
  -- from the operation on no moment leaves the topic a publisher
  rw [publisherCount_eq_count h₀.wellFormed, List.count_pos_iff] at hpublished
  rw [publisherCount_eq_count h₁.wellFormed, List.count_eq_zero] at hlost
  rw [run_append_singleton] at h₁ hlost hquiet
  have hnone : ∀ m ∈ ((empty idleBudget).run before).moments (op :: after),
      topic ∉ m.left.publications :=
    List.forall_mem_cons.mpr ⟨hlost, forall_left_not_mem h₁ hquiet hlost⟩
  have hgrace := grace?_run_of_mem_publications hpublished
  have hleft : s = ((empty idleBudget).run before).run (op :: after) := by
    rw [hrun, run_append]
  refine ⟨fun i d hd => ?_, ?_, fun t hfind => ⟨?_, fun id address retain bytes hok => ?_⟩⟩
  · rw [isSome_topic?_sampledDocuments h₀ hnone hd, hgrace]
    simp
  · rw [listed_iff_grace?, hleft, grace?_run h₀ hnone, hgrace, Option.bind_some,
      Option.isSome_iff_exists]
    constructor
    · rintro ⟨k, hk⟩
      have hticks := Nat.psub_eq_some.mp hk
      omega
    · intro hle
      exact ⟨_, Nat.psub_eq_some.mpr (Nat.sub_add_cancel hle)⟩
  · obtain ⟨ht, rfl⟩ := hs.wellFormed.topics.find?_eq_some_iff.mp hfind
    exact subscribers_of_joined hs.wellFormed hs.joined ht
  · exact revived_addPublish hs hfind hok

/-- The one publisher of a retained topic has sent nothing since the last sample. -/
def retained : List Operation :=
  [.addClient "10.0.0.1" "p" none, .addClient "10.0.0.2" "c" none,
    .addPublish "p" "10.0.0.1" "a/b" true 5, .sample 1]

/-- Then a client subscribes, the publisher disconnects, and a sample over no time comes before an
effective one. -/
def unheard : List Operation :=
  [.addSubscription "c" "10.0.0.2" "a/#", .removeClient "p" "10.0.0.1", .sample 0, .sample 2]

/-- With a budget of two samples the next one deletes the edge. The topic is in its document and in the
one after it, and delivered to the client that has subscribed in between. -/
theorem drain_run_unheard :
    0 < ((empty 2).run retained).publisherCount "a/b" ∧
      ((empty 2).run (retained ++ [.sample 1])).publisherCount "a/b" = 0 ∧
      (∀ m ∈ ((empty 2).run (retained ++ [.sample 1])).moments unheard, m.flagTo "a/b" = none) ∧
      (∀ i d, (((empty 2).run retained).sampledDocuments (.sample 1 :: unheard))[i]? = some d →
        ((d.topic? "a/b").isSome = true ↔ i < 2)) ∧
      ((empty 2).run (retained ++ .sample 1 :: unheard)).Listed "a/b" ∧
      ∃ t, ((empty 2).run (retained ++ .sample 1 :: unheard)).topics.find? "a/b" = some t ∧
        ⟨"10.0.0.2", "c"⟩ ∈ t.subscribers := by
  have hpublished : 0 < ((empty 2).run retained).publisherCount "a/b" := by decide +kernel
  have hlost : ((empty 2).run (retained ++ [.sample 1])).publisherCount "a/b" = 0 := by
    decide +kernel
  have hquiet : ∀ m ∈ ((empty 2).run (retained ++ [.sample 1])).moments unheard,
      m.flagTo "a/b" = none := by
    decide +kernel
  have htime : drainTime 2 "a/b" ((empty 2).moments retained) = 2 := by decide +kernel
  have hwindows : (windows (.sample 1 :: unheard)).length = 2 := by decide +kernel
  obtain ⟨hdocuments, hlisted, hfound⟩ := drain_run hpublished hlost hquiet rfl
  rw [htime] at hdocuments hlisted
  have hthere := hlisted.mpr (Nat.le_of_eq hwindows)
  obtain ⟨t, hfind⟩ := Option.isSome_iff_exists.mp hthere
  refine ⟨hpublished, hlost, hquiet, hdocuments, hthere, t, hfind, ?_⟩
  obtain ⟨⟨-, hsubscribers⟩, -⟩ := hfound t hfind
  rw [hsubscribers]
  exact ⟨⟨"c", "10.0.0.2", none, ["a/#"], Dict.empty, .empty⟩, by decide +kernel, "a/#", by decide, by decide⟩

end Topology

end BrokerTopology
