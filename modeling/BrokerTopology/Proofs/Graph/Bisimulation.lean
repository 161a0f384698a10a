import BrokerTopology.Proofs.Graph.Content
import BrokerTopology.Proofs.Graph.Lifetime
/-!
# The layout does not matter

Every loop over clients or topics runs in the order in which the dictionaries list them. This file shows
that the order does not get out: from topologies with the same content every operation has the same
result and leads to topologies with the same content again. For an action this follows from its outcome,
which is described by look-ups. For a sample, what is detached, removed and reported is counted, and
counts do not depend on the order.
-/

namespace BrokerTopology

/-! ## Topics under a sample -/

namespace Topic.SameContent

variable {t t' : Topic} {budget n : Nat} {secs : Float}

/-- Publishers that go leave topics that agree in agreement. -/
theorem detachTimes (h : SameContent t t') :
    SameContent (t.detachTimes budget n) (t'.detachTimes budget n) := by
  induction n generalizing t t' with
  | zero => exact h
  | succ n ih =>
    have hone : SameContent (t.detach budget) (t'.detach budget) := by
      obtain ⟨l, hperm, rfl⟩ := sameContent_iff.mp h
      exact sameContent_iff.mpr ⟨l, hperm, rfl⟩
    exact ih hone

/-- A tick of the drain leaves topics that agree in agreement. -/
theorem drain (h : SameContent t t') : SameContent t.drain t'.drain := by
  obtain ⟨l, hperm, rfl⟩ := sameContent_iff.mp h
  rw [Topic.drain, Topic.drain]
  dsimp only
  split
  · exact h
  · exact sameContent_iff.mpr ⟨l, hperm, rfl⟩

/-- The drain of topics that agree is over at the same time. -/
theorem isDrained (h : SameContent t t') : t.isDrained = t'.isDrained := by
  obtain ⟨l, -, rfl⟩ := sameContent_iff.mp h
  rfl

/-- Topics that agree are measured alike. -/
theorem sampled (h : SameContent t t') : SameContent (t.sampled secs) (t'.sampled secs) := by
  obtain ⟨l, hperm, rfl⟩ := sameContent_iff.mp h
  exact sameContent_iff.mpr ⟨l, hperm, rfl⟩

/-- Topics that agree have moved alike. -/
theorem moved (h : SameContent t t') (secs : Float) :
    moved t.rate (t.measured secs) = moved t'.rate (t'.measured secs) := by
  obtain ⟨l, -, rfl⟩ := sameContent_iff.mp h
  rfl

/-- Topics that agree both go or stay in agreement. -/
theorem outlast (h : SameContent t t') :
    Option.Rel SameContent (t.outlast budget n secs) (t'.outlast budget n secs) := by
  have hdetached : SameContent (t.detachTimes budget n) (t'.detachTimes budget n) := h.detachTimes
  rw [Topic.outlast, Topic.outlast, ← hdetached.isDrained]
  split
  · exact .none
  · exact .some hdetached.drain.sampled

end Topic.SameContent

/-! ## Clients -/

namespace Client.SameContent

variable {c c' : Client}

/-- A sample leaves clients that agree in agreement. -/
theorem sampled (h : SameContent c c') (hc : c.WellFormed) (hc' : c'.WellFormed) (secs : Float) :
    SameContent (c.sampled secs).client (c'.sampled secs).client where
  id := h.id
  address := h.address
  bridge := h.bridge
  filters := h.filters
  published := by
    have hwf := (sampled_spec hc secs).1.published
    have hwf' := (sampled_spec hc' secs).1.published
    refine Dict.alike_of_find? hwf.toWellFormed hwf'.toWellFormed fun topic => Dict.rel_eq_of_eq ?_
    rw [find?_published_sampled hc, find?_published_sampled hc', h.find?_published]
  latency := congrArg (fun l => l.fold.2) h.latency

/-- A sample sees a change at both of two clients that agree, or at none. -/
theorem changed_sampled (h : SameContent c c') (hc : c.WellFormed) (hc' : c'.WellFormed)
    (secs : Float) : (c.sampled secs).changed = (c'.sampled secs).changed := by
  have hrates := h.published.map_values_perm hc.published hc'.published
    (f := fun e => moved e.rate (e.measured secs)) fun e _ e' _ hsame => by rw [hsame]
  rw [Client.sampled, Client.sampled]
  dsimp only
  rw [h.latency, any_eq_of_map_perm hrates]

/-- Sending leaves clients that agree in agreement. -/
theorem sent (h : SameContent c c') (hc : c.WellFormed) (hc' : c'.WellFormed) (topic : String)
    (ttl : Int) (bytes : Nat) :
    SameContent (Topology.sent c topic ttl bytes) (Topology.sent c' topic ttl bytes) := by
  obtain ⟨published, hsend, hnamed, -⟩ := Topology.sendAlong_spec hc topic ttl bytes
  obtain ⟨published', hsend', hnamed', -⟩ := Topology.sendAlong_spec hc' topic ttl bytes
  have hsent : Topology.sent c topic ttl bytes = { c with published := published } := by
    rw [Topology.sent, hsend]
  have hsent' : Topology.sent c' topic ttl bytes = { c' with published := published' } := by
    rw [Topology.sent, hsend']
  have hfind : ∀ name, published.find? name = published'.find? name := by
    intro name
    have hedge := Topology.find?_published_sent hc topic ttl bytes name
    have hedge' := Topology.find?_published_sent hc' topic ttl bytes name
    rw [hsent] at hedge
    rw [hsent', ← h.find?_published, ← h.find?_published] at hedge'
    exact hedge.trans hedge'.symm
  rw [hsent, hsent']
  exact ⟨h.id, h.address, h.bridge, h.filters,
    Dict.alike_of_find? hnamed.toWellFormed hnamed'.toWellFormed fun name =>
      Dict.rel_eq_of_eq (hfind name),
    h.latency⟩

end Client.SameContent

namespace Topology

variable {s s' : Topology} {a : Action} {key : ClientKey} {m m' : Mutation}
  {before before' after after' : Option Client}

/-! ## Actions -/

/-- A client that is found is well formed. -/
theorem WellFormed.of_clientAt (hs : s.WellFormed) {c : Client} (hfind : s.clientAt key = some c) :
    c.WellFormed :=
  hs.client ((clientAt_eq_some_iff hs).mp hfind).1

/-- What an action answers and makes of its client agrees with what it answers and makes of another. -/
def SameResponse (r r' : Mutation × Option Client) : Prop :=
  r.1 = r'.1 ∧ Option.Rel Client.SameContent r.2 r'.2

/-- From clients that agree an action has one answer, and leaves clients that agree. -/
theorem Action.respond_rel {budget : Nat} (hwf : ∀ c, before = some c → c.WellFormed)
    (hwf' : ∀ c, before' = some c → c.WellFormed)
    (hbefore : Option.Rel Client.SameContent before before') :
    Option.Rel SameResponse (a.respond budget key before) (a.respond budget key before') := by
  cases hbefore with
  | none =>
    cases a with
    | connect bridge =>
      exact .some ⟨rfl, .some (Client.SameContent.refl
        (Client.wellFormed_fresh key.address key.id bridge))⟩
    | _ => exact .none
  | some h =>
    cases a with
    | connect bridge => exact .some ⟨rfl, .some h⟩
    | disconnect => exact .some ⟨rfl, .none⟩
    | publish topic retain bytes =>
      exact .some ⟨rfl, .some (h.sent (hwf _ rfl) (hwf' _ rfl) topic budget bytes)⟩
    | startProbe now =>
      exact .some ⟨rfl, .some { h with latency := congrArg (fun l => l.start now) h.latency }⟩
    | finishProbe now =>
      rw [respond, respond, ← h.latency]
      split
      · exact .some ⟨rfl, .some { h with latency := rfl }⟩
      · exact .some ⟨rfl, .some h⟩
    | subscribe filter =>
      rw [respond, respond, ← h.filters]
      split
      · exact .some ⟨rfl, .some h⟩
      · exact .some ⟨rfl, .some { h with filters := rfl }⟩
    | unsubscribe filter =>
      rw [respond, respond, ← h.filters]
      split
      · exact .some ⟨rfl, .some { h with filters := congrArg (List.filter _) h.filters }⟩
      · exact .some ⟨rfl, .some h⟩

/-- A change is visible in both of two pairs of clients that agree, or in none. -/
theorem visible_iff_of_rel {listed listed' : String → Prop} (hlisted : ∀ topic, listed topic ↔ listed' topic)
    (hbefore : Option.Rel Client.SameContent before before')
    (hafter : Option.Rel Client.SameContent after after') :
    Visible listed before after ↔ Visible listed' before' after' := by
  cases hbefore with
  | none =>
    cases hafter with
    | none => exact Iff.rfl
    | some hd => exact Iff.rfl
  | some hc =>
    cases hafter with
    | none => exact Iff.rfl
    | some hd =>
      refine or_congr (exists_congr fun topic => ?_) (exists_congr fun topic => ?_)
      · rw [hc.contains_published, hd.contains_published]
      · rw [hlisted topic, hc.subscribesTo, hd.subscribesTo]

section Actions

variable (e : SameContent s s') (h : s.Sound) (h' : s'.Sound)

include e h h'

/-- From topologies with the same content the outcomes of an action are the same, and so is the content
after it. -/
theorem SameContent.of_outcomes {u u' : Topology} (hu : u.Sound) (hu' : u'.Sound)
    (o : Outcome a key s u m after) (o' : Outcome a key s' u' m' after') :
    m = m' ∧ SameContent u u' := by
  have hrel : Option.Rel SameResponse (a.respond s.idleBudget key (s.clientAt key))
      (a.respond s.idleBudget key (s'.clientAt key)) :=
    Action.respond_rel (fun c hc => h.wellFormed.of_clientAt hc)
      (fun c hc => h'.wellFormed.of_clientAt hc) (e.clientAt key)
  have hrespond' := o'.respond
  rw [← e.idleBudget] at hrespond'
  rw [o.respond, hrespond'] at hrel
  cases hrel with
  | some hsame =>
    obtain ⟨rfl, hafter⟩ := hsame
    refine ⟨rfl, sameContent_of_sound hu hu' (fun other => ?_) (fun name => ?_) ?_ ?_⟩
    · rw [o.clientAt, o'.clientAt]
      split
      · exact hafter
      · exact e.clientAt other
    · rw [o.ledger, o'.ledger, e.ledger?, e.idleBudget]
    · rw [o.idleBudget, o'.idleBudget, e.idleBudget]
    · rw [Bool.eq_iff_iff, o.changed, o'.changed, e.changed,
        visible_iff_of_rel e.listed_iff (e.clientAt key) hafter]

/-- From topologies with the same content an action has the same answer, and the content after it is the
same. -/
theorem SameContent.perform (a : Action) (key : ClientKey) :
    (a.perform key s).1 = (a.perform key s').1 ∧
      SameContent (a.perform key s).2 (a.perform key s').2 := by
  have hnone : s.clientAt key = none ↔ s'.clientAt key = none := by
    have hsome := Dict.isSome_eq_of_rel (e.clientAt key)
    rw [← Option.isNone_iff_eq_none, ← Option.isNone_iff_eq_none, ← Option.not_isSome, hsome,
      Option.not_isSome]
  have hrefused : (a.perform key s).1.isOk = false ↔ (a.perform key s').1.isOk = false := by
    rw [isOk_perform_eq_false_iff h, isOk_perform_eq_false_iff h', hnone]
  cases hok : (a.perform key s).1.isOk with
  | false =>
    obtain ⟨ha, hmissing⟩ := (isOk_perform_eq_false_iff h).mp hok
    obtain ⟨failure, hfailure⟩ := findClient_of_client?_eq_none hmissing
    rw [perform_of_findClient hfailure ha, perform_of_findClient (e.findClient_eq_error hfailure) ha]
    exact ⟨rfl, e⟩
  | true =>
    have hok' : (a.perform key s').1.isOk = true := by
      rw [← Bool.not_eq_false, ← hrefused, Bool.not_eq_false]
      exact hok
    have hs := h.perform a key
    have hs' := h'.perform a key
    obtain ⟨m, u, after, hanswer, o⟩ := succeeds_of_isOk h hok
    obtain ⟨m', u', after', hanswer', o'⟩ := succeeds_of_isOk h' hok'
    rw [hanswer] at hs ⊢
    rw [hanswer'] at hs' ⊢
    obtain ⟨rfl, hsame⟩ := e.of_outcomes h h' hs hs' o o'
    exact ⟨rfl, hsame⟩

end Actions

/-! ## Samples -/

section Reports

variable {secs : Float} (hs : s.WellFormed)

include hs

/-- The topics that a sample drops are those whose drain is over once the expired edges are gone. -/
theorem length_removed_swept :
    (s.swept secs).removed.length =
      s.topics.values.countP fun t =>
        (t.detachTimes s.idleBudget ((s.expiredEdges secs).count t.name)).isDrained := by
  obtain ⟨hdetached, hvalues⟩ := detachAll_spec s.idleBudget hs.topics (s.expiredEdges secs)
  obtain ⟨-, -, hremoved⟩ := hdetached.removeIf_spec Topic.isDrained
  rw [swept, hremoved, hvalues, List.length_map, ← List.countP_eq_length_filter, List.countP_map]
  rfl

/-- The rates that a sample finds are those of the topics that it leaves. -/
theorem any_moved_swept :
    (((s.swept secs).dict.map Topic.drain).values.any fun t => moved t.rate (t.measured secs)) =
      s.topics.values.any fun t =>
        !(t.detachTimes s.idleBudget ((s.expiredEdges secs).count t.name)).isDrained &&
          moved (t.detachTimes s.idleBudget ((s.expiredEdges secs).count t.name)).drain.rate
            ((t.detachTimes s.idleBudget ((s.expiredEdges secs).count t.name)).drain.measured secs) := by
  obtain ⟨hdetached, hvalues⟩ := detachAll_spec s.idleBudget hs.topics (s.expiredEdges secs)
  obtain ⟨-, hkept, -⟩ := hdetached.removeIf_spec Topic.isDrained
  rw [Dict.values_map, List.any_map, swept, hkept.any_eq, List.any_filter, hvalues, List.any_map]
  rfl

end Reports

section Samples

variable {secs : Float} (e : SameContent s s') (h : s.Sound) (h' : s'.Sound)
  (heffective : isEffective secs = true)

include e h h' heffective

/-- After a sample clients that agree are found. -/
theorem SameContent.clientAt_sample (key : ClientKey) :
    Option.Rel Client.SameContent ((s.sample secs).2.clientAt key) ((s'.sample secs).2.clientAt key) := by
  rw [Topology.clientAt_sample h.wellFormed heffective, Topology.clientAt_sample h'.wellFormed heffective]
  rcases Dict.rel_cases (e.clientAt key) with ⟨hnone, hnone'⟩ | ⟨c, c', hc, hc', hsame⟩
  · rw [hnone, hnone']
    exact .none
  · rw [hc, hc']
    exact .some (hsame.sampled (h.wellFormed.of_clientAt hc) (h'.wellFormed.of_clientAt hc') secs)

/-- The same edges expire, since the same edges are there before and after the sample. -/
theorem SameContent.expiredEdges_perm : (s.expiredEdges secs).Perm (s'.expiredEdges secs) := by
  have hsplit : ∀ {s : Topology}, s.Sound →
      s.publications.Perm (s.expiredEdges secs ++ (s.sample secs).2.publications) := by
    intro s h
    obtain ⟨report, u, hanswer, -, hclients, -⟩ := sample_spec h.wellFormed heffective
    rw [hanswer]
    exact publications_perm_sampled h.wellFormed hclients
  have hbefore := publications_perm_of_rel h.wellFormed h'.wellFormed e.clientAt
  have hafter := publications_perm_of_rel (h.apply (.sample secs)).wellFormed
    (h'.apply (.sample secs)).wellFormed (e.clientAt_sample h h' heffective)
  have hboth := ((hsplit h).symm.trans hbefore).trans (hsplit h')
  exact (List.perm_append_right_iff _).mp (hboth.trans (hafter.symm.append_left _))

/-- The reports are the same. -/
theorem SameContent.report_sample : (s.sample secs).1 = (s'.sample secs).1 := by
  have hexpired := e.expiredEdges_perm h h' heffective
  have hdetached : ∀ {t t' : Topic}, Topic.SameContent t t' →
      Topic.SameContent (t.detachTimes s.idleBudget ((s.expiredEdges secs).count t.name))
        (t'.detachTimes s.idleBudget ((s.expiredEdges secs).count t'.name)) := by
    intro t t' hsame
    rw [← hsame.name]
    exact hsame.detachTimes
  have hremoved : (s.swept secs).removed.length = (s'.swept secs).removed.length := by
    rw [length_removed_swept h.wellFormed, length_removed_swept h'.wellFormed, ← e.idleBudget]
    simp only [← hexpired.count_eq]
    exact countP_eq_of_map_perm (e.topics.map_values_perm h.wellFormed.topics h'.wellFormed.topics
      fun t _ t' _ hsame => (hdetached hsame).isDrained)
  have hnone : (s.swept secs).removed.isEmpty = (s'.swept secs).removed.isEmpty := by
    rw [Bool.eq_iff_iff, List.isEmpty_iff_length_eq_zero, List.isEmpty_iff_length_eq_zero, hremoved]
  have hclients : s.clients.any (fun c => (c.sampled secs).changed) =
      s'.clients.any fun c => (c.sampled secs).changed :=
    any_eq_of_map_perm (map_clients_perm h.wellFormed h'.wellFormed e.clientAt
      fun c hc c' hc' hsame =>
        hsame.changed_sampled (h.wellFormed.client hc) (h'.wellFormed.client hc') secs)
  have hmoved :
      (((s.swept secs).dict.map Topic.drain).values.any fun t => moved t.rate (t.measured secs)) =
        ((s'.swept secs).dict.map Topic.drain).values.any fun t => moved t.rate (t.measured secs) := by
    rw [any_moved_swept h.wellFormed, any_moved_swept h'.wellFormed, ← e.idleBudget]
    simp only [← hexpired.count_eq]
    exact any_eq_of_map_perm (e.topics.map_values_perm h.wellFormed.topics h'.wellFormed.topics
      fun t _ t' _ hsame => congrArg₂ (fun b b' => !b && b') (hdetached hsame).isDrained
        ((hdetached hsame).drain.moved secs))
  rw [sample, if_pos heffective, sample, if_pos heffective]
  dsimp only
  rw [← swept, ← swept, hclients, hmoved, hexpired.length_eq, hexpired.isEmpty_eq, hremoved, hnone]

/-- A sample has the same report, and the content after it is the same. -/
theorem SameContent.sample_of_effective :
    (s.sample secs).1 = (s'.sample secs).1 ∧ SameContent (s.sample secs).2 (s'.sample secs).2 := by
  have hs := h.apply (.sample secs)
  have hs' := h'.apply (.sample secs)
  have hreport := e.report_sample h h' heffective
  have hbudget : ∀ {s : Topology}, s.Sound → (s.sample secs).2.idleBudget = s.idleBudget :=
    fun h => idleBudget_apply h (.sample secs)
  have hchanged : ∀ {s : Topology},
      (s.sample secs).2.changed = (s.changed || (s.sample secs).1.changed) := by
    intro s
    rw [Topology.sample_of_effective heffective]
  refine ⟨hreport, ?_, ?_, ?_, ?_⟩
  · exact hosts_alike_of_rel hs.wellFormed hs'.wellFormed (e.clientAt_sample h h' heffective)
      fun _ _ => Host.SameContent.mk
  · refine Dict.alike_of_find? hs.wellFormed.topics.toWellFormed hs'.wellFormed.topics.toWellFormed
      fun topic => ?_
    rw [Operation.apply, Operation.apply, find?_topics_sample h.wellFormed heffective,
      find?_topics_sample h'.wellFormed heffective, ← e.idleBudget,
      ← (e.expiredEdges_perm h h' heffective).count_eq]
    rcases Dict.rel_cases (e.topics.find? topic) with ⟨hnone, hnone'⟩ | ⟨t, t', ht, ht', hsame⟩
    · rw [hnone, hnone']
      exact .none
    · rw [ht, ht']
      exact hsame.outlast
  · rw [hbudget h, hbudget h', e.idleBudget]
  · rw [hchanged, hchanged, e.changed, hreport]

end Samples

/-! ## Operations and runs -/

/-- What an operation gives back: the answer to an action, the report of a sample, or the flag of
change. -/
inductive Operation.Result where
  | answer (answer : Except Failure Mutation)
  | report (report : SampleReport)
  | flag (changed : Bool)

/-- What an operation gives back, beside the topology after it. -/
def Operation.result (s : Topology) : Operation → Result
  | .addClient address id bridge => .answer (s.addClient address id bridge).1
  | .removeClient id address => .answer (s.removeClient id address).1
  | .addPublish id address topic retain bytes => .answer (s.addPublish id address topic retain bytes).1
  | .addSubscription id address filter => .answer (s.addSubscription id address filter).1
  | .removeSubscription id address filter => .answer (s.removeSubscription id address filter).1
  | .startProbe id address now => .answer (s.startProbe id address now).1
  | .finishProbe id address now => .answer (s.finishProbe id address now).1
  | .sample secs => .report (s.sample secs).1
  | .takeChanged => .flag s.takeChanged.1

/-- What several operations give back, one after the other. -/
def results (s : Topology) : List Operation → List Operation.Result
  | [] => []
  | op :: ops => op.result s :: results (op.apply s) ops

/-- An action gives back its answer. -/
theorem Action.result_operation (a : Action) (key : ClientKey) (s : Topology) :
    (a.operation key).result s = .answer (a.perform key s).1 := by
  cases a with
  | _ => rfl

/-- From topologies with the same content an operation has one result, and leaves the same content. -/
theorem SameContent.apply (e : SameContent s s') (h : s.Sound) (h' : s'.Sound) (op : Operation) :
    op.result s = op.result s' ∧ SameContent (op.apply s) (op.apply s') := by
  rcases op.cases_action with ⟨key, a, rfl⟩ | ⟨secs, rfl⟩ | rfl
  · obtain ⟨hanswer, hsame⟩ := e.perform h h' a key
    rw [Action.result_operation, Action.result_operation, Action.apply_operation,
      Action.apply_operation]
    exact ⟨congrArg _ hanswer, hsame⟩
  · cases heffective : isEffective secs with
    | true =>
      obtain ⟨hreport, hsame⟩ := e.sample_of_effective h h' heffective
      exact ⟨congrArg _ hreport, hsame⟩
    | false =>
      rw [Operation.result, Operation.result, Operation.apply, Operation.apply,
        sample_of_not_effective heffective, sample_of_not_effective heffective]
      exact ⟨rfl, e⟩
  · exact ⟨congrArg _ e.changed, e.hosts, e.topics, e.idleBudget, rfl⟩

/-- From topologies with the same content several operations have the same results, and leave the same
content. -/
theorem SameContent.run (e : SameContent s s') (h : s.Sound) (h' : s'.Sound) (ops : List Operation) :
    s.results ops = s'.results ops ∧ SameContent (s.run ops) (s'.run ops) := by
  induction ops generalizing s s' with
  | nil => exact ⟨rfl, e⟩
  | cons op ops ih =>
    obtain ⟨hresult, hsame⟩ := e.apply h h' op
    obtain ⟨hresults, hleft⟩ := ih hsame (h.apply op) (h'.apply op)
    exact ⟨congrArg₂ List.cons hresult hresults, hleft⟩

/-- Two runs lead to the same content, perhaps in different layouts. Then every operation, and every
list of operations, has the same results from either, and leads to the same content again. At every
point the two answer queries alike, and their documents are the same up to the order of the arrays. -/
theorem bisimulation_run {budget budget' : Nat} {ops ops' : List Operation}
    (hrun : s = (empty budget).run ops) (hrun' : s' = (empty budget').run ops')
    (e : SameContent s s') (later : List Operation) :
    s.results later = s'.results later ∧
      SameContent (s.run later) (s'.run later) ∧
      SameAnswers (s.run later) (s'.run later) ∧
      (Snapshot.render (s.run later)).unordered = (Snapshot.render (s'.run later)).unordered := by
  have h : s.Sound := by
    rw [hrun]
    exact (sound_empty budget).run ops
  have h' : s'.Sound := by
    rw [hrun']
    exact (sound_empty budget').run ops'
  obtain ⟨hresults, hsame⟩ := e.run h h' later
  have hwf := (h.run later).wellFormed
  have hwf' := (h'.run later).wellFormed
  exact ⟨hresults, hsame, hsame.sameAnswers hwf hwf', Snapshot.unordered_render hsame hwf hwf'⟩

/-- The visit of a client that was not there leaves the content as it was, where the flag of change is
set already. The layout may remember it. -/
theorem sameContent_visit (key : ClientKey) (h : s.Sound) (hchanged : s.changed = true) (hnone : s.clientAt key = none) :
    SameContent s
      (Action.disconnect.perform key ((Action.connect none).perform key s).2).2 := by
  have h₁ := h.perform (.connect none) key
  have h₂ := h₁.perform .disconnect key
  have hsucceeds : Succeeds (.connect none) key s := connect_succeeds h none
  obtain ⟨m, s₁, c, hanswer, o⟩ := hsucceeds
  rw [hanswer] at h₁ h₂ ⊢
  have hcome := o.respond
  rw [hnone] at hcome
  obtain ⟨-, rfl⟩ := Prod.mk.inj (Option.some.inj hcome)
  have hfind := o.clientAt key
  rw [if_pos rfl] at hfind
  obtain ⟨m', s₂, c', hanswer', o'⟩ := disconnect_succeeds h₁ hfind
  rw [hanswer'] at h₂ ⊢
  have hgo := o'.respond
  rw [hfind] at hgo
  obtain ⟨-, rfl⟩ := Prod.mk.inj (Option.some.inj hgo)
  refine sameContent_of_sound h h₂ (fun other => ?_) (fun name => ?_) ?_ ?_
  · have hsame : s₂.clientAt other = s.clientAt other := by
      rw [o'.clientAt, o.clientAt]
      split
      · rename_i hkey
        rw [hkey, hnone]
      · rfl
    rw [hsame]
    cases hother : s.clientAt other with
    | none => exact .none
    | some c => exact .some (Client.SameContent.refl (h.wellFormed.of_clientAt hother))
  · rw [o'.ledger, o.ledger]
    rfl
  · rw [o'.idleBudget, o.idleBudget]
  · rw [hchanged, o'.changed.mpr (Or.inl (o.changed.mpr (Or.inl hchanged)))]

/-- A client publishes to a topic and is interested in it itself. -/
def alone : List Operation :=
  [.addClient "10.0.0.1" "p" none, .addSubscription "p" "10.0.0.1" "a/#",
    .addPublish "p" "10.0.0.1" "a/b" true 5]

/-- Another client has come and gone since. -/
def visited : List Operation :=
  alone ++ [.addClient "10.0.0.2" "q" none, .removeClient "q" "10.0.0.2"]

/-- The visit has left room for a second address, but the next operations have the same results, and the
documents are the same. -/
theorem bisimulation_run_visited :
    ((empty 3).run alone).hosts.capacity = 1 ∧
      ((empty 3).run visited).hosts.capacity = 2 ∧
      SameContent ((empty 3).run alone) ((empty 3).run visited) ∧
      ((empty 3).run alone).results [.sample 1, .removeClient "p" "10.0.0.1", .sample 2, .takeChanged] =
        ((empty 3).run visited).results
          [.sample 1, .removeClient "p" "10.0.0.1", .sample 2, .takeChanged] := by
  have hvisit : SameContent ((empty 3).run alone) ((empty 3).run visited) :=
    sameContent_visit ⟨"10.0.0.2", "q"⟩ ((sound_empty 3).run alone) (by decide +kernel)
      (by decide +kernel)
  exact ⟨by decide +kernel, by decide +kernel, hvisit, (bisimulation_run rfl rfl hvisit _).1⟩

end Topology

end BrokerTopology
