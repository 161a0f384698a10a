import BrokerTopology.Proofs.Graph.Lifetime
/-!
# A topology that is left alone comes to rest

When nothing but samples happens, two countdowns follow each other. Every edge has at most the budget of
idle samples left, and from the second effective sample on it is idle, so that all edges are gone after
as many samples as the budget says, or two if it says less. From then on every effective sample takes a
tick from every topic, and no topic has more ticks than the budget. What is left has nothing to report:
a sample finds the rates and latencies that the sample before it has found.
-/

namespace BrokerTopology

/-! ## Zero rates -/

section Rates

open Float.Model Float.Model.UnpackedFloat

variable {secs : Float}

/-- The seconds of an effective sample are a positive number. -/
theorem unpack_of_isEffective (h : Topology.isEffective secs = true) :
    ∃ m e hm, secs.toModel.unpack = .finite .positive m e hm := by
  rw [Topology.isEffective, Bool.and_eq_true, Bool.not_eq_true', decide_eq_false_iff_not] at h
  obtain ⟨hpositive, hfinite⟩ := h
  have hfinite : secs.toModel.unpack.isFinite = true := hfinite
  have hzero : (0 : Float).toModel.unpack = .zero .positive := rfl
  have hgreater : ¬ secs.toModel.unpack.le (.zero .positive) = true := by
    rw [← hzero]
    exact fun hle => hpositive (decide_eq_true hle)
  cases hunpack : secs.toModel.unpack with
  | infinity sign =>
    rw [hunpack] at hfinite
    cases hfinite
  | notANumber =>
    rw [hunpack] at hfinite
    cases hfinite
  | zero sign =>
    rw [hunpack] at hgreater
    exact absurd rfl hgreater
  | finite sign m e hm =>
    cases sign with
    | positive => exact ⟨m, e, hm, rfl⟩
    | negative =>
      rw [hunpack] at hgreater
      exact absurd rfl hgreater

/-- No bytes in the time of an effective sample make a rate of zero. -/
theorem zero_div_of_isEffective (h : Topology.isEffective secs = true) :
    Float.ofNat 0 / secs = 0 := by
  obtain ⟨m, e, hm, hunpack⟩ := unpack_of_isEffective h
  have hzero : (Float.ofNat 0).toModel.unpack = .zero .positive := rfl
  have hpack : Float.ofModel (pack (.zero .positive)) = 0 := rfl
  rw [← hpack]
  refine congrArg (fun u => Float.ofModel (pack u)) ?_
  show UnpackedFloat.div Format.binary64 (Float.ofNat 0).toModel.unpack secs.toModel.unpack = _
  rw [hzero, hunpack]
  rfl

end Rates

/-! ## Idle edges -/

namespace Edge

variable {windows : List Float} {e e' : Edge}

/-- Samples do not bring an edge back. -/
theorem outlastAll_none (windows : List Float) : outlastAll windows none = none := by
  induction windows with
  | nil => rfl
  | cons secs windows ih => exact ih

/-- After a sample an edge has sent nothing. -/
theorem bytes_of_outlastAll (h : outlastAll windows (some e) = some e') (hsome : windows ≠ []) :
    e'.bytes = 0 := by
  cases windows using List.reverseRecOn with
  | nil => exact absurd rfl hsome
  | append_singleton windows secs =>
    rw [outlastAll, List.foldl_append, List.foldl_cons, List.foldl_nil,
      Option.bind_eq_some_iff] at h
    obtain ⟨e₁, -, hlast⟩ := h
    obtain ⟨-, rfl⟩ := outlast_eq_some_iff.mp hlast
    rfl

/-- An edge does not outlast as many effective samples as its budget says, or two. -/
theorem outlastAll_eq_none {budget : Nat} (httl : e.ttl ≤ budget)
    (heffective : ∀ secs ∈ windows, Topology.isEffective secs = true)
    (hlong : max budget 2 ≤ windows.length) : outlastAll windows (some e) = none := by
  cases windows using List.reverseRecOn with
  | nil =>
    rw [List.length_nil] at hlong
    omega
  | append_singleton windows secs =>
    rw [List.length_append, List.length_singleton] at hlong
    rw [outlastAll, List.foldl_append, List.foldl_cons, List.foldl_nil, ← outlastAll]
    cases hfind : outlastAll windows (some e) with
    | none => rfl
    | some e₁ =>
      -- the samples before the last one have found what was sent
      have hsome : windows ≠ [] := by
        rintro rfl
        rw [List.length_nil] at hlong
        omega
      have hcount := ttl_of_outlastAll hfind
      refine (outlast_eq_none_iff secs e₁).mpr ⟨by omega, ?_⟩
      rw [bytes_of_outlastAll hfind hsome, zero_div_of_isEffective (heffective secs (by simp))]
      decide +kernel

end Edge

/-! ## Clients without edges -/

/-- A client that has no edge and has completed no probe has nothing to report. -/
theorem Client.changed_sampled_eq_false {c : Client} (hnone : c.publications = [])
    (hlatency : c.latency.fold.1 = false) (secs : Float) : (c.sampled secs).changed = false := by
  have hvalues : c.published.values = [] := List.map_eq_nil_iff.mp hnone
  rw [Client.sampled]
  dsimp only
  rw [hvalues, hlatency]
  rfl

namespace Topology

variable {s : Topology} {rest : List Operation} {topic : String}

/-! ## Nothing has more than the budget -/

/-- No edge has more idle samples left than the budget says, and no topic more ticks. -/
structure Bounded (s : Topology) : Prop where
  ttl_le : ∀ key topic e, s.edgeAt key topic = some e → e.ttl ≤ s.idleBudget
  grace_le : ∀ topic n, s.grace? topic = some n → n ≤ s.idleBudget

/-- An edge that an action leaves has no more than the budget, if it had no more before. -/
theorem Action.ttl_onEdge_le {budget : Nat} {a : Action} {e : Option Edge} {e' : Edge}
    (h : a.onEdge budget topic e = some e') (hle : ∀ e₀, e = some e₀ → e₀.ttl ≤ budget) :
    e'.ttl ≤ budget := by
  cases a with
  | disconnect => cases h
  | publish name retain bytes =>
    rw [onEdge] at h
    split at h
    · obtain rfl := Option.some.inj h
      exact Int.le_refl _
    · exact hle e' h
  | _ => exact hle e' h

/-- A ledger that an action leaves has no more ticks than the budget, if it had no more before. -/
theorem Action.ticks_onLedger_le {budget : Nat} {a : Action} {l : Option Ledger} {l' : Ledger}
    (h : a.onLedger budget topic l = some l') (hle : ∀ l₀, l = some l₀ → l₀.rest.ticks ≤ budget) :
    l'.rest.ticks ≤ budget := by
  cases a with
  | publish name retain bytes =>
    rw [onLedger] at h
    split at h
    · obtain rfl := Option.some.inj h
      cases retain with
      | true => exact Nat.le_refl _
      | false => exact Nat.zero_le _
    · exact hle l' h
  | _ => exact hle l' h

namespace Bounded

/-- A topology without nodes is bounded. -/
theorem empty (idleBudget : Nat) : (Topology.empty idleBudget).Bounded where
  ttl_le key topic e he := by
    rw [edgeAt, clientAt, client?, Topology.empty, Dict.find?_empty] at he
    cases he
  grace_le topic n hn := by
    rw [grace?, Topology.empty, Dict.find?_empty] at hn
    cases hn

/-- An action starts an edge or a drain with the budget, if at all. -/
theorem perform (hb : s.Bounded) (h : s.Sound) (a : Action) (key : ClientKey) :
    (a.perform key s).2.Bounded := by
  rcases outcome_or_refused h a key with ⟨m, after, -, o⟩ | ⟨-, hsame⟩
  · constructor
    · intro other topic e he
      rw [o.edgeAt h.wellFormed] at he
      rw [o.idleBudget]
      split at he
      · exact Action.ttl_onEdge_le he fun e₀ he₀ => hb.ttl_le _ _ _ he₀
      · exact hb.ttl_le _ _ _ he
    · intro topic n hn
      rw [grace?_eq, o.ledger, Option.map_eq_some_iff] at hn
      obtain ⟨l, hl, rfl⟩ := hn
      rw [o.idleBudget]
      refine Action.ticks_onLedger_le hl fun l₀ hl₀ => hb.grace_le topic _ ?_
      rw [grace?_eq, hl₀]
      rfl
  · rw [hsame]
    exact hb

/-- A sample counts down. -/
theorem sample (hb : s.Bounded) (h : s.Sound) {secs : Float} (heffective : isEffective secs = true) :
    (s.sample secs).2.Bounded := by
  have hbudget : (s.sample secs).2.idleBudget = s.idleBudget := idleBudget_apply h (.sample secs)
  constructor
  · intro key topic e he
    rw [edgeAt_sample h.wellFormed heffective, Option.bind_eq_some_iff] at he
    obtain ⟨e₀, he₀, hlast⟩ := he
    obtain ⟨-, rfl⟩ := Edge.outlast_eq_some_iff.mp hlast
    have hle := hb.ttl_le _ _ _ he₀
    have hless : (e₀.sampled secs).ttl = e₀.ttl - 1 := rfl
    rw [hbudget, hless]
    omega
  · intro topic n hn
    rw [grace?_sample h heffective] at hn
    rw [hbudget]
    split at hn
    · exact hb.grace_le _ _ hn
    · obtain ⟨k, hk, hpred⟩ := Option.bind_eq_some_iff.mp hn
      have hle := hb.grace_le _ _ hk
      have hticks := Nat.ppred_eq_some.mp hpred
      omega

/-- Every operation keeps a topology bounded. -/
theorem apply (hb : s.Bounded) (h : s.Sound) (op : Operation) : (op.apply s).Bounded := by
  rcases op.cases_action with ⟨key, a, rfl⟩ | ⟨secs, rfl⟩ | rfl
  · rw [Action.apply_operation]
    exact hb.perform h a key
  · cases heffective : isEffective secs with
    | true => exact hb.sample h heffective
    | false =>
      rw [Operation.apply, sample_of_not_effective heffective]
      exact hb
  · exact ⟨hb.ttl_le, hb.grace_le⟩

/-- After every run a topology is bounded. -/
theorem run (hb : s.Bounded) (h : s.Sound) (ops : List Operation) : (s.run ops).Bounded := by
  induction ops generalizing s with
  | nil => exact hb
  | cons op ops ih => exact ih (hb.apply h op) (h.apply op)

end Bounded

/-! ## Operations without a client -/

/-- Whether an operation is a sample or takes the flag of change, and so no action of a client. -/
def Operation.isPassive : Operation → Bool
  | .sample _ => true
  | .takeChanged => true
  | _ => false

/-- Without the actions of clients no edge is used or given up. -/
theorem Operation.spares_of_isPassive {op : Operation} (h : op.isPassive = true) (key : ClientKey)
    (topic : String) : op.spares key topic = true := by
  cases op with
  | sample secs => rfl
  | takeChanged => rfl
  | _ => cases h

/-- The samples that count are effective. -/
theorem isEffective_of_mem_windows {secs : Float} (h : secs ∈ windows rest) :
    isEffective secs = true := by
  obtain ⟨op, -, hwindow⟩ := List.mem_filterMap.mp h
  exact (Operation.window?_eq_some_iff.mp hwindow).1

section Rest

variable (h : s.Sound) (hb : s.Bounded) (hpassive : ∀ op ∈ rest, op.isPassive = true)

include h hb hpassive

/-- After as many effective samples as the budget says, or two, no edge is left. -/
theorem publications_run_eq_nil (hlong : max s.idleBudget 2 ≤ (windows rest).length) :
    (s.run rest).publications = [] := by
  refine List.eq_nil_iff_forall_not_mem.mpr fun topic hmem => ?_
  obtain ⟨key, hedge⟩ := (mem_publications_iff (h.run rest).wellFormed).mp hmem
  rw [edgeAt_run h fun op hop => Operation.spares_of_isPassive (hpassive op hop) key topic] at hedge
  cases hfind : s.edgeAt key topic with
  | none =>
    rw [hfind, Edge.outlastAll_none] at hedge
    cases hedge
  | some e =>
    rw [hfind, Edge.outlastAll_eq_none (hb.ttl_le _ _ _ hfind)
      (fun secs hsecs => isEffective_of_mem_windows hsecs) hlong] at hedge
    cases hedge

/-- From the sample on that finds the last edge gone, every sample takes a tick from every topic. -/
theorem grace_run_le (hlong : max s.idleBudget 2 ≤ (windows rest).length) {n : Nat}
    (hgrace : (s.run rest).grace? topic = some n) :
    n + (windows rest).length < s.idleBudget + max s.idleBudget 2 := by
  induction rest using List.reverseRecOn generalizing n with
  | nil =>
    rw [windows, List.filterMap_nil, List.length_nil] at hlong
    omega
  | append_singleton rest op ih =>
    have hgone := publications_run_eq_nil h hb hpassive hlong
    have hpassive : ∀ op ∈ rest, op.isPassive = true := fun op hop => hpassive op (by simp [hop])
    have hbefore : (s.run rest).Sound := h.run rest
    rw [run_append_singleton] at hgrace hgone
    rw [windows_append_singleton, List.length_append] at hlong ⊢
    rw [grace?_apply hbefore (by simp [hgone]), Option.bind_eq_some_iff] at hgrace
    obtain ⟨k, hk, hticks⟩ := hgrace
    have hticks := Nat.psub_eq_some.mp hticks
    by_cases hedges : max s.idleBudget 2 ≤ (windows rest).length
    · have hless := ih hpassive hedges hk
      omega
    · -- the last operation is the sample that finds the last edge gone
      have hle := (hb.run h rest).grace_le topic k hk
      rw [idleBudget_run h] at hle
      have hone : op.window?.toList.length ≤ 1 := by
        cases op.window? with
        | none => exact Nat.zero_le 1
        | some secs => exact Nat.le_refl 1
      omega

end Rest

/-! ## Nothing to report -/

/-- Nothing is left that a sample could remove, and no latency that it could report. -/
structure Quiet (s : Topology) : Prop where
  publications : s.publications = []
  topics : s.topics.values = []
  latencies : ∀ c ∈ s.clients, c.latency.fold.1 = false

/-- Clients and topics like that have nothing to report, and stay as they are. -/
theorem Quiet.sample (hq : s.Quiet) (hs : s.WellFormed) (secs : Float) :
    (s.sample secs).1 = .none ∧ (s.sample secs).2.changed = s.changed := by
  cases heffective : isEffective secs with
  | false =>
    rw [sample_of_not_effective heffective]
    exact ⟨rfl, rfl⟩
  | true =>
    have hexpired : s.expiredEdges secs = [] := by
      obtain ⟨report, s', -, -, hclients, -⟩ := sample_spec hs heffective
      have hperm := publications_perm_sampled hs hclients
      rw [hq.publications] at hperm
      exact (List.append_eq_nil_iff.mp hperm.symm.eq_nil).1
    obtain ⟨-, hkept, hremoved⟩ := hs.topics.removeIf_spec Topic.isDrained
    rw [hq.topics] at hkept hremoved
    have hleft : ((s.topics.removeIf Topic.isDrained).dict.map Topic.drain).values = [] := by
      rw [Dict.values_map, hkept.eq_nil]
      rfl
    have hclients : s.clients.any (fun c => (c.sampled secs).changed) = false := by
      rw [List.any_eq_false]
      intro c hc
      rw [Client.changed_sampled_eq_false ?_ (hq.latencies c hc)]
      · exact Bool.false_ne_true
      · exact List.flatMap_eq_nil_iff.mp hq.publications c hc
    have hreport : (s.sample secs).1 = .none := by
      rw [Topology.sample, if_pos heffective]
      dsimp only
      rw [hexpired, detachAll, List.foldl_nil, hremoved, hleft, hclients]
      rfl
    refine ⟨hreport, ?_⟩
    rw [sample_of_effective heffective, hreport]
    exact Bool.or_false _

/-- An effective sample folds all latencies, and without the actions of clients they stay so. -/
theorem fold_latency_run (h : s.Sound) (hpassive : ∀ op ∈ rest, op.isPassive = true)
    (hsome : windows rest ≠ []) : ∀ c ∈ (s.run rest).clients, c.latency.fold.1 = false := by
  induction rest using List.reverseRecOn with
  | nil => exact absurd rfl hsome
  | append_singleton rest op ih =>
    have ih := ih fun op hop => hpassive op (by simp [hop])
    have hlast := hpassive op (by simp)
    rw [windows_append_singleton] at hsome
    rw [run_append_singleton]
    have hidle : op.window? = none →
        ∀ c ∈ (s.run rest).clients, c.latency.fold.1 = false := by
      intro hnone
      rw [hnone, Option.toList_none, List.append_nil] at hsome
      exact ih hsome
    cases op with
    | sample secs =>
      rw [Operation.apply]
      cases heffective : isEffective secs with
      | false =>
        rw [sample_of_not_effective heffective]
        exact hidle (if_neg (by rw [heffective]; exact Bool.false_ne_true))
      | true =>
        obtain ⟨report, s', hanswer, -, hclients, -⟩ := sample_spec (h.run rest).wellFormed heffective
        rw [hanswer]
        dsimp only
        rw [hclients]
        intro c' hc'
        obtain ⟨c, -, rfl⟩ := List.mem_map.mp hc'
        exact congrArg Prod.fst c.latency.fold_fold
    | takeChanged => exact hidle rfl
    | _ => cases hlast

section Rest

variable (h : s.Sound) (hb : s.Bounded) (hpassive : ∀ op ∈ rest, op.isPassive = true)

include h hb hpassive

/-- After as many effective samples as both countdowns need a topology is quiet. -/
theorem quiet_run (hlong : s.idleBudget + max s.idleBudget 2 ≤ (windows rest).length) : (s.run rest).Quiet where
  publications := publications_run_eq_nil h hb hpassive (by omega)
  topics := by
    refine List.eq_nil_iff_forall_not_mem.mpr fun t ht => ?_
    have hfind := (h.run rest).wellFormed.topics.find?_eq_some_iff.mpr ⟨ht, rfl⟩
    have hgrace : (s.run rest).grace? t.name = some (t.grace (s.run rest).idleBudget) := by
      rw [grace?, hfind]
      rfl
    have hless := grace_run_le h hb hpassive (by omega) hgrace
    omega
  latencies := by
    refine fold_latency_run h hpassive ?_
    intro hnone
    rw [hnone, List.length_nil] at hlong
    omega

/-- A sample sets the flag of change only if it is one of those that are missing until the topology is
quiet. -/
theorem toNat_changed_sample_le (secs : Float) :
    ((s.run rest).sample secs).2.changed.toNat +
        (s.idleBudget + max s.idleBudget 2 - (windows (rest ++ [.sample secs])).length) ≤
      s.idleBudget + max s.idleBudget 2 - (windows rest).length + (s.run rest).changed.toNat := by
  have hbit := ((s.run rest).sample secs).2.changed.toNat_le
  rw [windows_append_singleton, List.length_append]
  cases heffective : isEffective secs with
  | false =>
    rw [sample_of_not_effective heffective]
    dsimp only
    omega
  | true =>
    rw [Operation.window?, if_pos heffective, Option.toList_some, List.length_singleton]
    by_cases hlong : s.idleBudget + max s.idleBudget 2 ≤ (windows rest).length
    · rw [((quiet_run h hb hpassive hlong).sample (h.run rest).wellFormed secs).2]
      omega
    · omega

end Rest

end Topology

end BrokerTopology
