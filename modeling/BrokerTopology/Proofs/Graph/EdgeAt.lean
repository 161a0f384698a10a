import BrokerTopology.Proofs.Graph.Refusals
/-!
# The edge of a client to a topic

An edge is found by the key of its client and the name of its topic. An action changes the edges of
its own client only, by disconnecting it or by publishing, and then only the edge to the topic
published to. A sample that has an effect measures every edge and lets some expire. What a sample
makes of an edge does not depend on anything else.
-/

namespace BrokerTopology

/-! ## Edges over samples -/

namespace Edge

/-- A new edge is one along which nothing has been sent, and then what is sent first. -/
theorem send_fresh (topic : String) (ttl : Int) (bytes : Nat) :
    (fresh topic ttl 0).send ttl bytes = fresh topic ttl bytes := by
  rw [send, fresh, fresh, Word.count]
  exact congrArg (Edge.mk topic · 0 ttl) (UInt64.zero_add _)

/-- The edge after a sample, unless it expires. -/
def outlast (secs : Float) (e : Edge) : Option Edge :=
  if (e.sampled secs).isExpired then none else some (e.sampled secs)

/-- An edge expires if it has no idle sample left and next to nothing was sent along it. -/
theorem outlast_eq_none_iff (secs : Float) (e : Edge) :
    e.outlast secs = none ↔ e.ttl ≤ 1 ∧ (Float.ofNat e.bytes / secs).abs < tolerance := by
  have hcount : e.ttl - 1 ≤ 0 ↔ e.ttl ≤ 1 := by omega
  have hexpired : (e.sampled secs).isExpired = true ↔
      (Float.ofNat e.bytes / secs).abs < tolerance ∧ e.ttl - 1 ≤ 0 := by
    rw [isExpired, Bool.and_eq_true, decide_eq_true_iff, decide_eq_true_iff]
    exact Iff.rfl
  rw [outlast, ite_eq_left_iff, hexpired, hcount, and_comm]
  simp

/-- An edge that stays has an idle sample less. -/
theorem outlast_eq_some_iff {secs : Float} {e e' : Edge} :
    e.outlast secs = some e' ↔ (e.sampled secs).isExpired = false ∧ e.sampled secs = e' := by
  rw [outlast]
  split
  · rename_i hexpired
    simp [hexpired]
  · rename_i hstays
    simp [hstays]

end Edge

/-! ## The edges of one client -/

namespace Client

variable {c : Client}

/-- After a sample a client has the edges that outlast it. -/
theorem find?_published_sampled (hc : c.WellFormed) (secs : Float) (topic : String) :
    (c.sampled secs).client.published.find? topic =
      (c.published.find? topic).bind (Edge.outlast secs) := by
  have hnamed : (c.published.map (Edge.sampled secs)).NamedBy Edge.topic :=
    hc.published.map fun e _ => rfl
  refine (hnamed.find?_removeIf Edge.isExpired topic).trans ?_
  rw [hc.published.find?_map (f := Edge.sampled secs) fun e => rfl]
  cases c.published.find? topic with
  | none => rfl
  | some e =>
    rw [Option.map_some, Option.bind_some, Edge.outlast, Option.filter_some]
    cases (e.sampled secs).isExpired with
    | true => rfl
    | false => rfl

end Client

namespace Topology

variable {s s' : Topology} {c : Client} {a : Action} {key other : ClientKey} {topic : String}

/-- After sending to a topic a client has an edge to it along which the bytes were sent, and its other
edges as before. -/
theorem find?_published_sent (hc : c.WellFormed) (topic : String) (ttl : Int) (bytes : Nat)
    (name : String) :
    (sent c topic ttl bytes).published.find? name =
      if name = topic
      then some (((c.published.find? topic).getD (.fresh topic ttl 0)).send ttl bytes)
      else c.published.find? name := by
  obtain ⟨published, hsend, hnamed, hedges⟩ := sendAlong_spec hc topic ttl bytes
  rw [sent, hsend]
  dsimp only
  rcases hedges with ⟨hknown, hvalues⟩ | ⟨hnew, hperm⟩
  · obtain ⟨e, he⟩ := Option.isSome_iff_exists.mp hknown
    have htopic := (hc.published.find?_eq_some_iff.mp he).2
    rw [hc.published.find?_of_map hnamed (fun e => by split <;> rfl) hvalues]
    split
    · rename_i hsame
      rw [hsame, he, Option.map_some, if_pos htopic, Option.getD_some]
    · rename_i hother
      cases hfind : c.published.find? name with
      | none => rfl
      | some e' =>
        have hname := (hc.published.find?_eq_some_iff.mp hfind).2
        rw [Option.map_some, hname, if_neg hother]
  · rw [Dict.contains, Option.isSome_eq_false_iff, Option.isNone_iff_eq_none] at hnew
    rw [hc.published.find?_of_perm_cons hnamed hperm, hnew, Option.getD_none, Edge.send_fresh]
    rfl

/-! ## The edge under a key -/

/-- The edge of the client with a given key to a topic. -/
def edgeAt (s : Topology) (key : ClientKey) (topic : String) : Option Edge :=
  (s.clientAt key).bind fun c => c.published.find? topic

/-- What an action that is not refused makes of the edge of its client to a topic. -/
def Action.onEdge (budget : Nat) (topic : String) (a : Action) (e : Option Edge) : Option Edge :=
  match a with
  | .disconnect => none
  | .publish name _ bytes =>
    if topic = name then some ((e.getD (.fresh name budget 0)).send budget bytes) else e
  | _ => e

/-- What an action does to its client: one that connects is new, one that disconnects is gone, one that
publishes has sent, and any other one keeps its edges and the latency that is reported. -/
inductive Response (budget : Nat) (key : ClientKey) :
    Action → Option Client → Option Client → Prop where
  | connected (bridge : Option String) :
      Response budget key (.connect bridge) none (some (.fresh key.address key.id bridge))
  | disconnected (c : Client) : Response budget key .disconnect (some c) none
  | published (c : Client) (name : String) (retain : Bool) (bytes : Nat) :
      Response budget key (.publish name retain bytes) (some c) (some (sent c name budget bytes))
  | kept {a : Action} {c c' : Client} (published : c'.published = c.published)
      (average : c'.latency.average = c.latency.average)
      (onEdge : ∀ topic e, a.onEdge budget topic e = e) : Response budget key a (some c) (some c')

/-- A completed probe is reported with the next sample only. -/
theorem average_finish (l : Latency) (now : Nat) : (l.finish now).2.average = l.average := by
  rw [Latency.finish]
  split
  · rfl
  · rfl

/-- Every action that is not refused responds so. -/
theorem Outcome.response {m : Mutation} {after : Option Client} (o : Outcome a key s s' m after) :
    Response s.idleBudget key a (s.clientAt key) after := by
  have hrespond := o.respond
  cases hfind : s.clientAt key with
  | none =>
    rw [hfind] at hrespond
    cases a with
    | connect bridge =>
      obtain ⟨-, rfl⟩ := Prod.mk.inj (Option.some.inj hrespond)
      exact .connected bridge
    | _ => cases hrespond
  | some c =>
    rw [hfind] at hrespond
    cases a with
    | connect bridge =>
      obtain ⟨-, rfl⟩ := Prod.mk.inj (Option.some.inj hrespond)
      exact .kept rfl rfl fun _ _ => rfl
    | disconnect =>
      obtain ⟨-, rfl⟩ := Prod.mk.inj (Option.some.inj hrespond)
      exact .disconnected c
    | publish name retain bytes =>
      obtain ⟨-, rfl⟩ := Prod.mk.inj (Option.some.inj hrespond)
      exact .published c name retain bytes
    | startProbe now =>
      obtain ⟨-, rfl⟩ := Prod.mk.inj (Option.some.inj hrespond)
      exact .kept rfl rfl fun _ _ => rfl
    | finishProbe now =>
      rw [Action.respond] at hrespond
      split at hrespond
      · obtain ⟨-, rfl⟩ := Prod.mk.inj (Option.some.inj hrespond)
        exact .kept rfl (average_finish c.latency now) fun _ _ => rfl
      · obtain ⟨-, rfl⟩ := Prod.mk.inj (Option.some.inj hrespond)
        exact .kept rfl rfl fun _ _ => rfl
    | _ =>
      -- a filter that is known already, or is not known, is ignored
      rw [Action.respond] at hrespond
      split at hrespond
      · obtain ⟨-, rfl⟩ := Prod.mk.inj (Option.some.inj hrespond)
        exact .kept rfl rfl fun _ _ => rfl
      · obtain ⟨-, rfl⟩ := Prod.mk.inj (Option.some.inj hrespond)
        exact .kept rfl rfl fun _ _ => rfl

/-- An action changes the edges of its own client only. -/
theorem Outcome.edgeAt {m : Mutation} {after : Option Client} (o : Outcome a key s s' m after)
    (hs : s.WellFormed) (other : ClientKey) (topic : String) :
    s'.edgeAt other topic =
      if other = key then a.onEdge s.idleBudget topic (s.edgeAt key topic)
      else s.edgeAt other topic := by
  rw [Topology.edgeAt, Topology.edgeAt, Topology.edgeAt, o.clientAt]
  split
  · have hresponse := o.response
    generalize hfind : s.clientAt key = before at hresponse ⊢
    cases hresponse with
    | connected => exact Dict.find?_empty topic
    | disconnected => rfl
    | published c name retain bytes =>
      have hc := hs.client ((clientAt_eq_some_iff hs).mp hfind).1
      rw [Option.bind_some, Option.bind_some, find?_published_sent hc, Action.onEdge]
      split
      · rename_i hsame
        rw [hsame]
      · rfl
    | kept hpublished _ honEdge => rw [Option.bind_some, Option.bind_some, hpublished, honEdge]
  · rfl

/-- An action of another client, or one that would leave the edge as it is, does so. -/
theorem edgeAt_perform (h : s.Sound)
    (hspares : other = key → ∀ e, a.onEdge s.idleBudget topic e = e) :
    (a.perform key s).2.edgeAt other topic = s.edgeAt other topic := by
  rcases outcome_or_refused h a key with ⟨m, after, -, o⟩ | ⟨-, hsame⟩
  · rw [o.edgeAt h.wellFormed]
    split
    · rename_i hkey
      rw [hspares hkey, hkey]
    · rfl
  · rw [hsame]

/-! ## Samples -/

/-- The seconds of an effective sample. -/
def Operation.window? : Operation → Option Float
  | .sample secs => if isEffective secs then some secs else none
  | _ => none

/-- Only an effective sample has seconds. -/
theorem Operation.window?_eq_some_iff {op : Operation} {secs : Float} :
    op.window? = some secs ↔ isEffective secs = true ∧ op = .sample secs := by
  constructor
  · intro h
    cases op with
    | sample secs' =>
      rw [window?] at h
      split at h
      · rename_i heffective
        obtain rfl := Option.some.inj h
        exact ⟨heffective, rfl⟩
      · cases h
    | _ => cases h
  · rintro ⟨heffective, rfl⟩
    exact if_pos heffective

/-- An action is no sample. -/
@[simp] theorem Action.window?_operation (a : Action) (key : ClientKey) :
    (a.operation key).window? = none := by
  cases a with
  | _ => rfl

/-- After an effective sample every client is found as the sample leaves it. -/
theorem clientAt_sample (hs : s.WellFormed) {secs : Float} (h : isEffective secs = true)
    (key : ClientKey) :
    (s.sample secs).2.clientAt key = (s.clientAt key).map fun c => (c.sampled secs).client := by
  obtain ⟨report, s', hanswer, hwf, hclients, -⟩ := sample_spec hs h
  rw [hanswer]
  refine Option.ext fun d => ?_
  rw [clientAt_eq_some_iff hwf, hclients, List.mem_map, Option.map_eq_some_iff]
  constructor
  · rintro ⟨⟨c, hc, rfl⟩, hkey⟩
    exact ⟨c, (clientAt_eq_some_iff hs).mpr ⟨hc, hkey⟩, rfl⟩
  · rintro ⟨c, hfind, rfl⟩
    obtain ⟨hc, hkey⟩ := (clientAt_eq_some_iff hs).mp hfind
    exact ⟨⟨c, hc, rfl⟩, hkey⟩

/-- After an effective sample the edges are found that outlast it. -/
theorem edgeAt_sample (hs : s.WellFormed) {secs : Float} (h : isEffective secs = true)
    (key : ClientKey) (topic : String) :
    (s.sample secs).2.edgeAt key topic = (s.edgeAt key topic).bind (Edge.outlast secs) := by
  rw [edgeAt, edgeAt, clientAt_sample hs h]
  cases hfind : s.clientAt key with
  | none => rfl
  | some c =>
    have hc := hs.client ((clientAt_eq_some_iff hs).mp hfind).1
    exact Client.find?_published_sampled hc secs topic

end Topology

end BrokerTopology
