import Mathlib.Data.List.Induction
import BrokerTopology.Proofs.Graph.EdgeAt
/-!
# Idle edges expire

Every publication gives its edge as many idle samples as the budget says. From then on, while its
client stays and does not publish to the topic again, the edge is changed by effective samples only:
each takes one idle sample away, and the edge goes with the first that finds none left and next to
nothing sent. So when an edge expires depends on the publication and on the effective samples since,
and on nothing else that happens meanwhile.
-/

namespace BrokerTopology

namespace Edge

/-- An edge after several samples, given by their seconds, unless it expires in one of them. -/
def outlastAll (windows : List Float) (e : Option Edge) : Option Edge :=
  windows.foldl (fun e secs => e.bind (outlast secs)) e

/-- An edge that stays has as many idle samples less as there were samples. -/
theorem ttl_of_outlastAll {windows : List Float} {e e' : Edge}
    (h : outlastAll windows (some e) = some e') : e'.ttl = e.ttl - windows.length := by
  induction windows using List.reverseRecOn generalizing e' with
  | nil =>
    obtain rfl := Option.some.inj h
    simp
  | append_singleton windows secs ih =>
    rw [outlastAll, List.foldl_append, List.foldl_cons, List.foldl_nil,
      Option.bind_eq_some_iff] at h
    obtain ⟨e₁, he₁, hlast⟩ := h
    obtain ⟨-, rfl⟩ := outlast_eq_some_iff.mp hlast
    have hcount := ih he₁
    have hless : (e₁.sampled secs).ttl = e₁.ttl - 1 := rfl
    rw [hless, List.length_append, List.length_singleton]
    omega

end Edge

namespace Topology

variable {s : Topology} {key : ClientKey} {topic : String} {ops : List Operation} {op : Operation}

/-! ## Operations that spare an edge -/

/-- An operation neither disconnects a client nor publishes to a topic in its name. -/
def Operation.spares (key : ClientKey) (topic : String) : Operation → Bool
  | .removeClient id address => decide (key ≠ ⟨address, id⟩)
  | .addPublish id address name _ _ => decide (key = ⟨address, id⟩ → topic ≠ name)
  | _ => true

/-- The seconds of the effective samples among some operations, in their order. -/
def windows (ops : List Operation) : List Float :=
  ops.filterMap Operation.window?

/-- The first operation is a sample that counts, or none. -/
theorem windows_cons (op : Operation) (ops : List Operation) :
    windows (op :: ops) = op.window?.toList ++ windows ops := by
  rw [windows, List.filterMap_cons, windows]
  cases op.window? with
  | none => rfl
  | some secs => rfl

/-- One operation more is one sample more, or none. -/
theorem windows_append_singleton (ops : List Operation) (op : Operation) :
    windows (ops ++ [op]) = windows ops ++ op.window?.toList := by
  induction ops with
  | nil =>
    rw [List.nil_append, windows_cons]
    exact List.append_nil _
  | cons o ops ih => rw [List.cons_append, windows_cons, ih, windows_cons, List.append_assoc]

/-- An action that spares an edge does nothing to it. -/
theorem onEdge_of_spares {a : Action} {other : ClientKey}
    (hspares : (a.operation other).spares key topic = true) (hsame : key = other) (budget : Nat)
    (e : Option Edge) : a.onEdge budget topic e = e := by
  cases a with
  | disconnect => exact absurd hsame (of_decide_eq_true hspares)
  | publish name retain bytes => exact if_neg (of_decide_eq_true hspares hsame)
  | _ => rfl

/-- An operation that spares an edge leaves it as it is, unless it is an effective sample. -/
theorem edgeAt_apply (h : s.Sound) (hspares : op.spares key topic = true) :
    (op.apply s).edgeAt key topic = Edge.outlastAll op.window?.toList (s.edgeAt key topic) := by
  rcases op.cases_action with ⟨other, a, rfl⟩ | ⟨secs, rfl⟩ | rfl
  · rw [Action.apply_operation, Action.window?_operation]
    exact edgeAt_perform h fun hsame e => onEdge_of_spares hspares hsame s.idleBudget e
  · cases heffective : isEffective secs with
    | true =>
      rw [Operation.window?, if_pos heffective]
      exact edgeAt_sample h.wellFormed heffective key topic
    | false =>
      rw [Operation.window?, if_neg (Bool.not_eq_true _ ▸ heffective), Operation.apply,
        sample_of_not_effective heffective]
      rfl
  · rfl

/-- Over operations that spare an edge nothing but the effective samples counts. -/
theorem edgeAt_run (h : s.Sound) (hspares : ∀ op ∈ ops, op.spares key topic = true) :
    (s.run ops).edgeAt key topic = Edge.outlastAll (windows ops) (s.edgeAt key topic) := by
  induction ops generalizing s with
  | nil => rfl
  | cons op ops ih =>
    obtain ⟨hop, hops⟩ := List.forall_mem_cons.mp hspares
    rw [run, List.foldl_cons, ← run, ih (h.apply op) hops, edgeAt_apply h hop, windows_cons,
      Edge.outlastAll, Edge.outlastAll, Edge.outlastAll, List.foldl_append]

/-! ## Every run -/

/-- A publication that is not refused leaves an edge with the whole budget. -/
theorem edgeAt_addPublish (h : s.Sound) {id address : String} {retain : Bool} {bytes : Nat}
    (hok : (s.addPublish id address topic retain bytes).1.isOk = true) :
    ∃ e, (s.addPublish id address topic retain bytes).2.edgeAt ⟨address, id⟩ topic = some e ∧
      e.ttl = s.idleBudget := by
  have hsucceeds : Succeeds (.publish topic retain bytes) ⟨address, id⟩ s := succeeds_of_isOk h hok
  obtain ⟨m, s', after, hanswer, o⟩ := hsucceeds
  have hedge := o.edgeAt h.wellFormed ⟨address, id⟩ topic
  rw [if_pos rfl, Action.onEdge, if_pos rfl] at hedge
  rw [Action.perform] at hanswer
  rw [hanswer]
  exact ⟨_, hedge, rfl⟩

/-- In every run a client publishes to a topic and is not refused; then come operations that neither
disconnect it nor publish to the topic in its name. An effective sample that follows deletes the edge
exactly if the edge is still there, the sample is at least the `idleBudget`-th effective one since the
publication, and the rate that it finds is under the tolerance. Nothing else changes the edge:
operations with the same effective samples among them leave it in the same state. -/
theorem expiry_run {idleBudget : Nat} {before after : List Operation} {id address topic : String}
    {retain : Bool} {bytes : Nat}
    (hpublished : (((empty idleBudget).run before).addPublish id address topic retain bytes).1.isOk =
      true)
    (hspares : ∀ op ∈ after, op.spares ⟨address, id⟩ topic = true)
    (hrun : s = (empty idleBudget).run
      (before ++ .addPublish id address topic retain bytes :: after)) :
    (∀ secs, isEffective secs = true →
      ((s.edgeAt ⟨address, id⟩ topic).isSome = true ∧
          (s.sample secs).2.edgeAt ⟨address, id⟩ topic = none ↔
        ∃ e, s.edgeAt ⟨address, id⟩ topic = some e ∧ idleBudget ≤ (windows after).length + 1 ∧
          (Float.ofNat e.bytes / secs).abs < tolerance)) ∧
    (windows after = [] → (s.edgeAt ⟨address, id⟩ topic).isSome = true) ∧
    ∀ after', (∀ op ∈ after', op.spares ⟨address, id⟩ topic = true) →
      windows after' = windows after →
      ((empty idleBudget).run
          (before ++ .addPublish id address topic retain bytes :: after')).edgeAt ⟨address, id⟩ topic =
        s.edgeAt ⟨address, id⟩ topic := by
  have hbefore : ((empty idleBudget).run before).Sound := (sound_empty idleBudget).run before
  obtain ⟨e₀, he₀, hwhole⟩ := edgeAt_addPublish hbefore hpublished
  have httl : e₀.ttl = idleBudget := by
    rw [hwhole, idleBudget_run (sound_empty idleBudget)]
    rfl
  -- whatever spares the edge, only the effective samples count
  have hedge : ∀ later : List Operation, (∀ op ∈ later, op.spares ⟨address, id⟩ topic = true) →
      ((empty idleBudget).run
          (before ++ .addPublish id address topic retain bytes :: later)).edgeAt ⟨address, id⟩ topic =
        Edge.outlastAll (windows later) (some e₀) := by
    intro later hlater
    rw [run, List.foldl_append, List.foldl_cons, ← run, ← run, ← he₀]
    exact edgeAt_run (hbefore.apply (.addPublish id address topic retain bytes)) hlater
  have hs : s.Sound := by
    rw [hrun]
    exact (sound_empty idleBudget).run _
  refine ⟨fun secs heffective => ?_, fun hnone => ?_, fun after' hspares' hsame => ?_⟩
  · rw [edgeAt_sample hs.wellFormed heffective]
    cases hfind : s.edgeAt ⟨address, id⟩ topic with
    | none => simp
    | some e =>
      have hcount : e.ttl = idleBudget - (windows after).length := by
        rw [hrun, hedge after hspares] at hfind
        rw [Edge.ttl_of_outlastAll hfind, httl]
      have hbudget : e.ttl ≤ 1 ↔ idleBudget ≤ (windows after).length + 1 := by omega
      rw [Option.bind_some, Edge.outlast_eq_none_iff, hbudget]
      simp
  · rw [hrun, hedge after hspares, hnone]
    rfl
  · rw [hrun, hedge after hspares, hedge after' hspares', hsame]

/-- Two clients publish to one topic, the first of them for the second time. -/
def shared : List Operation :=
  [.addClient "10.0.0.1" "p" none, .addClient "10.0.0.2" "q" none,
    .addPublish "p" "10.0.0.1" "a/b" false 9, .sample 1]

/-- Then the other one goes on publishing, a sample finds that the first has sent something, and one
over no time has no effect. -/
def busy : List Operation :=
  [.addPublish "q" "10.0.0.2" "a/b" false 7, .sample 1, .addPublish "q" "10.0.0.2" "a/b" false 7,
    .sample 0]

/-- With a budget of two samples the next effective one deletes the edge of the first client, and
leaves that of the other. -/
theorem expiry_run_busy :
    (((empty 2).run shared).addPublish "p" "10.0.0.1" "a/b" false 5).1.isOk = true ∧
      (∀ op ∈ busy, op.spares ⟨"10.0.0.1", "p"⟩ "a/b" = true) ∧
      isEffective 1 = true ∧
      (((empty 2).run (shared ++ .addPublish "p" "10.0.0.1" "a/b" false 5 :: busy)).edgeAt
          ⟨"10.0.0.1", "p"⟩ "a/b").isSome = true ∧
      (((empty 2).run (shared ++ .addPublish "p" "10.0.0.1" "a/b" false 5 :: busy)).sample 1).2.edgeAt
          ⟨"10.0.0.1", "p"⟩ "a/b" = none ∧
      ((((empty 2).run (shared ++ .addPublish "p" "10.0.0.1" "a/b" false 5 :: busy)).sample
          1).2.edgeAt ⟨"10.0.0.2", "q"⟩ "a/b").isSome = true := by
  have hpublished :
      (((empty 2).run shared).addPublish "p" "10.0.0.1" "a/b" false 5).1.isOk = true := by
    decide +kernel
  have hspares : ∀ op ∈ busy, op.spares ⟨"10.0.0.1", "p"⟩ "a/b" = true := by decide
  have heffective : isEffective 1 = true := by decide +kernel
  obtain ⟨hexpires, -, -⟩ := expiry_run hpublished hspares rfl
  -- nothing has been sent along the edge since the sample
  have hidle : ∃ e, ((empty 2).run (shared ++ .addPublish "p" "10.0.0.1" "a/b" false 5 :: busy)).edgeAt
      ⟨"10.0.0.1", "p"⟩ "a/b" = some e ∧ 2 ≤ (windows busy).length + 1 ∧
        (Float.ofNat e.bytes / 1).abs < tolerance :=
    ⟨⟨"a/b", 0, 5, 1⟩, by decide +kernel, by decide +kernel, by decide +kernel⟩
  obtain ⟨hthere, hgone⟩ := (hexpires 1 heffective).mpr hidle
  exact ⟨hpublished, hspares, heffective, hthere, hgone, by decide +kernel⟩

end Topology

end BrokerTopology
