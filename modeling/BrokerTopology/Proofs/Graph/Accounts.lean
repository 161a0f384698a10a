import Mathlib.Algebra.GroupWithZero.Nat
import Mathlib.Algebra.Order.BigOperators.Group.List
import Mathlib.Data.List.DropRight
import BrokerTopology.Proofs.Graph.EdgeAt
/-!
# Every byte is accounted for

A publication is counted twice: along the edge of its client and at its topic. Both counters begin
anew with every effective sample, and that of an edge also with every connection of its client. So
what a counter shows can be read off the log of the run, from the last moment at which it began anew.
The edges to a topic count no more than the topic, and they count as much unless a client with an edge
to it has left since the last effective sample. The counters are words, so they show the sums of the log
modulo their size, and the sums themselves as long as these fit.
-/

namespace BrokerTopology

/-- What a client has sent to a topic since the last sample. -/
def Client.bytesTo (c : Client) (topic : String) : Nat :=
  ((c.published.find? topic).map Edge.bytes).getD 0

namespace Topic

variable {budget n : Nat} {t : Topic}

/-- Publishers that go leave the counter alone. -/
@[simp] theorem bytes_detachTimes : (t.detachTimes budget n).bytes = t.bytes := by
  induction n generalizing t with
  | zero => rfl
  | succ n ih => exact ih

end Topic

namespace Topology

/-! ## The log of a run -/

/-- A moment of a run: an operation and the topology that it finds. -/
structure Moment where
  found : Topology
  op : Operation

/-- The moments of a run, in their order. -/
def moments (s : Topology) : List Operation → List Moment
  | [] => []
  | op :: ops => ⟨s, op⟩ :: moments (op.apply s) ops

/-- One operation more is one moment more. -/
theorem moments_append_singleton (s : Topology) (ops : List Operation) (op : Operation) :
    s.moments (ops ++ [op]) = s.moments ops ++ [⟨s.run ops, op⟩] := by
  induction ops generalizing s with
  | nil => rfl
  | cons o ops ih => exact congrArg (List.cons _) (ih (o.apply s))

/-- One operation more is applied last. -/
theorem run_append_singleton (s : Topology) (ops : List Operation) (op : Operation) :
    s.run (ops ++ [op]) = op.apply (s.run ops) :=
  List.foldl_concat Operation.apply s op ops

namespace Moment

/-- The bytes that a client sends to a topic at a moment, by a publication that is not refused. -/
def bytesFrom (key : ClientKey) (topic : String) (m : Moment) : Nat :=
  match m.op with
  | .addPublish id address name retain bytes =>
    if (key = ⟨address, id⟩ ∧ topic = name) ∧
        (m.found.addPublish id address name retain bytes).1.isOk = true
    then bytes else 0
  | _ => 0

/-- The bytes that a topic receives at a moment, from whichever client. -/
def bytesTo (topic : String) (m : Moment) : Nat :=
  match m.op with
  | .addPublish id address _ _ _ => m.bytesFrom ⟨address, id⟩ topic
  | _ => 0

/-- Whether an effective sample is taken. -/
def samples (m : Moment) : Bool :=
  m.op.window?.isSome

/-- Whether a client connects that has not been there. -/
def connects (key : ClientKey) (m : Moment) : Bool :=
  match m.op with
  | .addClient address id _ => decide (key = ⟨address, id⟩) && (m.found.client? address id).isNone
  | _ => false

/-- Whether a client disconnects that has an edge to a topic. -/
def drops (topic : String) (m : Moment) : Bool :=
  match m.op with
  | .removeClient id address => (m.found.edgeAt ⟨address, id⟩ topic).isSome
  | _ => false

end Moment

/-- The moments since the last effective sample. -/
def sinceSample (log : List Moment) : List Moment :=
  log.rtakeWhile fun m => !m.samples

/-- The moments since a client connected for the last time. -/
def sinceConnection (key : ClientKey) (log : List Moment) : List Moment :=
  log.rtakeWhile fun m => !m.connects key

/-- The bytes that a topic has received since the last effective sample. -/
def receivedSince (log : List Moment) (topic : String) : Nat :=
  ((sinceSample log).map (Moment.bytesTo topic)).sum

/-- The bytes that a client has sent to a topic since the last effective sample, or since it connected if
that was later. -/
def sentSince (log : List Moment) (key : ClientKey) (topic : String) : Nat :=
  ((sinceConnection key (sinceSample log)).map (Moment.bytesFrom key topic)).sum

/-! ## The counters -/

variable {s s' : Topology} {c : Client} {a : Action} {key other : ClientKey} {topic : String}

/-- The counter of a topic, which is zero if the topic is not listed. -/
def bytesAt (s : Topology) (topic : String) : Nat :=
  ((s.ledger? topic).map Ledger.bytes).getD 0

/-- The counter of an edge, which is zero if there is none. -/
def bytesAlong (s : Topology) (key : ClientKey) (topic : String) : Nat :=
  ((s.edgeAt key topic).map Edge.bytes).getD 0

/-- The sum of the counters of all edges to a topic. -/
def bytesSent (s : Topology) (topic : String) : Nat :=
  (s.clients.map fun c => c.bytesTo topic).sum

/-- The counter of a listed topic. -/
theorem bytesAt_of_mem (hs : s.WellFormed) {t : Topic} (ht : t ∈ s.topics.values) :
    s.bytesAt t.name = t.bytes := by
  rw [bytesAt, ledger?, hs.topics.find?_eq_some_iff.mpr ⟨ht, rfl⟩]
  rfl

/-- What a listed client has sent is counted along its edge. -/
theorem bytesAlong_of_mem (hs : s.WellFormed) (hc : c ∈ s.clients) (topic : String) :
    s.bytesAlong c.key topic = c.bytesTo topic := by
  rw [bytesAlong, edgeAt, (clientAt_eq_some_iff hs).mpr ⟨hc, rfl⟩]
  rfl

/-- The counter of a topic shows a word. -/
theorem bytesAt_lt (s : Topology) (topic : String) : s.bytesAt topic < UInt64.size := by
  rw [bytesAt]
  cases s.ledger? topic with
  | none => exact Nat.zero_lt_succ _
  | some l => exact l.counter.toNat_lt_size

/-- The counter of an edge shows a word. -/
theorem bytesAlong_lt (s : Topology) (key : ClientKey) (topic : String) :
    s.bytesAlong key topic < UInt64.size := by
  rw [bytesAlong]
  cases s.edgeAt key topic with
  | none => exact Nat.zero_lt_succ _
  | some e => exact e.counter.toNat_lt_size

/-- Nothing more leaves the counter of a topic as it is. -/
theorem bytesAt_add_zero (s : Topology) (topic : String) :
    (s.bytesAt topic + 0) % UInt64.size = s.bytesAt topic :=
  Nat.mod_eq_of_lt (s.bytesAt_lt topic)

/-- Nothing more leaves the counter of an edge as it is. -/
theorem bytesAlong_add_zero (s : Topology) (key : ClientKey) (topic : String) :
    (s.bytesAlong key topic + 0) % UInt64.size = s.bytesAlong key topic :=
  Nat.mod_eq_of_lt (s.bytesAlong_lt key topic)

/-- A client that is not found has sent nothing. -/
theorem bytesAlong_of_clientAt_eq_none (h : s.clientAt key = none) (topic : String) :
    s.bytesAlong key topic = 0 := by
  rw [bytesAlong, edgeAt, h]
  rfl

/-! ## Clients apart from the others -/

/-- The clients but the one with a given key. -/
def clientsBut (s : Topology) (key : ClientKey) : List Client :=
  s.clients.filter fun c => c.key != key

/-- The others are found under other keys. -/
theorem mem_clientsBut_iff (hs : s.WellFormed) :
    c ∈ s.clientsBut key ↔ s.clientAt c.key = some c ∧ c.key ≠ key := by
  rw [clientsBut, List.mem_filter, bne_iff_ne, clientAt_eq_some_iff hs, and_iff_left (Eq.refl c.key)]

/-- None of the others is listed twice. -/
theorem clientsBut_nodup (hs : s.WellFormed) (key : ClientKey) : (s.clientsBut key).Nodup :=
  (hs.keys_nodup.of_map _).filter _

/-- A client with a key is listed beside the others. -/
theorem clients_perm_clientsBut (hs : s.WellFormed) (key : ClientKey) :
    s.clients.Perm ((s.clientAt key).toList ++ s.clientsBut key) := by
  have hothers := clientsBut_nodup hs key
  have hsplit : ∀ d, d ∈ s.clients ↔ s.clientAt key = some d ∨ d ∈ s.clientsBut key := by
    intro d
    rw [mem_clientsBut_iff hs, clientAt_eq_some_iff hs, clientAt_eq_some_iff hs]
    tauto
  cases hfind : s.clientAt key with
  | none =>
    refine (List.perm_ext_iff_of_nodup (hs.keys_nodup.of_map _) hothers).mpr fun d => ?_
    rw [hsplit d, hfind]
    exact or_iff_right (Option.some_ne_none d).symm
  | some c =>
    have hkey := ((clientAt_eq_some_iff hs).mp hfind).2
    have hnew : c ∉ s.clientsBut key := fun hc => ((mem_clientsBut_iff hs).mp hc).2 hkey
    refine (List.perm_ext_iff_of_nodup (hs.keys_nodup.of_map _) (hothers.cons hnew)).mpr fun d => ?_
    rw [hsplit d, hfind, List.mem_cons, Option.some.injEq, eq_comm]

/-- Where all other clients are found as before, they are listed as before. -/
theorem clientsBut_perm (hs : s.WellFormed) (hs' : s'.WellFormed)
    (hothers : ∀ other, other ≠ key → s'.clientAt other = s.clientAt other) :
    (s'.clientsBut key).Perm (s.clientsBut key) := by
  refine (List.perm_ext_iff_of_nodup (clientsBut_nodup hs' key) (clientsBut_nodup hs key)).mpr
    fun d => ?_
  rw [mem_clientsBut_iff hs', mem_clientsBut_iff hs]
  refine and_congr_left fun hother => ?_
  rw [hothers d.key hother]

/-- What all clients have sent is what one has sent and what the others have. -/
theorem bytesSent_eq (hs : s.WellFormed) (key : ClientKey) (topic : String) :
    s.bytesSent topic =
      s.bytesAlong key topic + ((s.clientsBut key).map fun c => c.bytesTo topic).sum := by
  have hone : ((s.clientAt key).toList.map fun c => c.bytesTo topic).sum = s.bytesAlong key topic := by
    rw [bytesAlong, edgeAt]
    cases s.clientAt key with
    | none => rfl
    | some c => exact Nat.add_zero _
  rw [bytesSent, ((clients_perm_clientsBut hs key).map _).sum_eq, List.map_append, List.sum_append,
    hone]

/-- What one client has sent is part of what all have sent. -/
theorem bytesAlong_le_bytesSent (hs : s.WellFormed) (key : ClientKey) (topic : String) :
    s.bytesAlong key topic ≤ s.bytesSent topic := by
  rw [bytesSent_eq hs key]
  exact Nat.le_add_right _ _

/-- What all clients have sent changes by as much as what one has sent. -/
theorem bytesSent_add (hs : s.WellFormed) (hs' : s'.WellFormed)
    (hothers : ∀ other, other ≠ key → s'.clientAt other = s.clientAt other) (topic : String) :
    s'.bytesSent topic + s.bytesAlong key topic = s.bytesSent topic + s'.bytesAlong key topic := by
  rw [bytesSent_eq hs key, bytesSent_eq hs' key,
    ((clientsBut_perm hs hs' hothers).map fun c => c.bytesTo topic).sum_eq]
  omega

/-- Where one client sends, all clients have sent at most as much more; and just as much more if the sum
fits a word, for then the counter of the one does not wrap around. -/
theorem bytesSent_of_bytesAlong (hs : s.WellFormed) (hs' : s'.WellFormed)
    (hothers : ∀ other, other ≠ key → s'.clientAt other = s.clientAt other) {bytes : Nat}
    (halong : s'.bytesAlong key topic = (s.bytesAlong key topic + bytes) % UInt64.size) :
    s'.bytesSent topic ≤ s.bytesSent topic + bytes ∧
      (s.bytesSent topic + bytes < UInt64.size → s'.bytesSent topic = s.bytesSent topic + bytes) := by
  have hadd := bytesSent_add hs hs' hothers topic
  constructor
  · have hmod := Nat.mod_le (s.bytesAlong key topic + bytes) UInt64.size
    rw [← halong] at hmod
    omega
  · intro hfits
    have hone : s.bytesAlong key topic + bytes < UInt64.size :=
      (Nat.add_le_add_right (bytesAlong_le_bytesSent hs key topic) bytes).trans_lt hfits
    rw [Nat.mod_eq_of_lt hone] at halong
    omega

/-! ## What a moment enters in the books -/

/-- Between two effective samples the counters move by what a moment enters: a topic gains what it
receives, an edge what its client sends, unless the client has just connected, and all edges to a
topic at most what it receives; they gain as much if no client with such an edge leaves and no edge wraps
around. -/
structure Moment.Entered (m : Moment) (s' : Topology) : Prop where
  received : ∀ topic, s'.bytesAt topic = (m.found.bytesAt topic + m.bytesTo topic) % UInt64.size
  connected : ∀ key topic, m.connects key = true → s'.bytesAlong key topic = 0
  sent : ∀ key topic, (s'.clientAt key).isSome = true → m.connects key = false →
    (m.found.clientAt key).isSome = true ∧
      s'.bytesAlong key topic = (m.found.bytesAlong key topic + m.bytesFrom key topic) % UInt64.size
  le : ∀ topic, s'.bytesSent topic ≤ m.found.bytesSent topic + m.bytesTo topic
  eq : ∀ topic, m.drops topic = false → m.found.bytesSent topic + m.bytesTo topic < UInt64.size →
    s'.bytesSent topic = m.found.bytesSent topic + m.bytesTo topic

/-- A publication that is not refused sends its bytes to its topic, in the name of its client. -/
theorem bytesFrom_publish {retain : Bool} {bytes : Nat} {name : String}
    (hok : ((Action.publish name retain bytes).perform key s).1.isOk = true) (other : ClientKey)
    (topic : String) :
    Moment.bytesFrom other topic ⟨s, (Action.publish name retain bytes).operation key⟩ =
      if other = key ∧ topic = name then bytes else 0 :=
  if_congr (and_iff_left hok) rfl rfl

/-- A refused action sends nothing. -/
theorem bytesFrom_of_refused (hrefused : (a.perform key s).1.isOk = false) (other : ClientKey)
    (topic : String) : Moment.bytesFrom other topic ⟨s, a.operation key⟩ = 0 := by
  cases a with
  | publish name retain bytes =>
    refine if_neg fun hsent => ?_
    rw [Action.perform, hsent.2] at hrefused
    cases hrefused
  | _ => rfl

/-- What a topic receives comes from the client that acts. -/
theorem bytesTo_operation (a : Action) (key : ClientKey) (s : Topology) (topic : String) :
    Moment.bytesTo topic ⟨s, a.operation key⟩ = Moment.bytesFrom key topic ⟨s, a.operation key⟩ := by
  cases a with
  | _ => rfl

section Outcomes

variable {m : Mutation} {after : Option Client} (h : s.Sound) (hok : (a.perform key s).1.isOk = true)
  (o : Outcome a key s s' m after)

include hok o

/-- The counter of a topic moves by what the topic receives. -/
theorem Outcome.bytesAt (topic : String) :
    s'.bytesAt topic =
      (s.bytesAt topic + Moment.bytesFrom key topic ⟨s, a.operation key⟩) % UInt64.size := by
  have hsame : s.bytesAt topic = (s.bytesAt topic + 0) % UInt64.size := (s.bytesAt_add_zero topic).symm
  rw [Topology.bytesAt] at hsame
  rw [Topology.bytesAt, Topology.bytesAt, o.ledger]
  cases a with
  | publish name retain bytes =>
    rw [bytesFrom_publish hok, Action.onLedger]
    by_cases htopic : topic = name
    · rw [if_pos htopic, if_pos ⟨rfl, htopic⟩]
      cases s.ledger? topic with
      | none => exact Word.toNat_count 0 bytes
      | some l => exact Word.toNat_count l.counter bytes
    · rw [if_neg htopic, if_neg fun hboth => htopic hboth.2]
      exact hsame
  | _ => exact hsame

include h

/-- The counter of an edge moves by what its client sends, unless the client leaves. -/
theorem Outcome.bytesAlong (ha : a ≠ .disconnect) (other : ClientKey) (topic : String) :
    s'.bytesAlong other topic =
      (s.bytesAlong other topic + Moment.bytesFrom other topic ⟨s, a.operation key⟩) % UInt64.size := by
  have hsame : s.bytesAlong other topic = (s.bytesAlong other topic + 0) % UInt64.size :=
    (s.bytesAlong_add_zero other topic).symm
  rw [Topology.bytesAlong] at hsame
  rw [Topology.bytesAlong, Topology.bytesAlong, o.edgeAt h.wellFormed]
  cases a with
  | disconnect => exact absurd rfl ha
  | publish name retain bytes =>
    rw [bytesFrom_publish hok]
    by_cases hkey : other = key
    · rw [if_pos hkey, Action.onEdge, hkey]
      by_cases htopic : topic = name
      · rw [if_pos htopic, if_pos ⟨rfl, htopic⟩]
        cases s.edgeAt key topic with
        | none => exact Word.toNat_count 0 bytes
        | some e => exact Word.toNat_count e.counter bytes
      · rw [if_neg htopic, if_neg fun hboth => htopic hboth.2, ← hkey]
        exact hsame
    · rw [if_neg hkey, if_neg fun hboth => hkey hboth.1]
      exact hsame
  | _ =>
    split
    · rename_i hkey
      rw [← hkey]
      exact hsame
    · exact hsame

/-- An action that does not take its client away is entered in the books. -/
theorem Outcome.entered (hs' : s'.WellFormed) (ha : a ≠ .disconnect) :
    Moment.Entered ⟨s, a.operation key⟩ s' := by
  have halong := o.bytesAlong h hok ha
  have hsent : ∀ topic,
      s'.bytesSent topic ≤ s.bytesSent topic + Moment.bytesTo topic ⟨s, a.operation key⟩ ∧
        (s.bytesSent topic + Moment.bytesTo topic ⟨s, a.operation key⟩ < UInt64.size →
          s'.bytesSent topic = s.bytesSent topic + Moment.bytesTo topic ⟨s, a.operation key⟩) := by
    intro topic
    rw [bytesTo_operation]
    exact bytesSent_of_bytesAlong h.wellFormed hs'
      (fun other hother => by rw [o.clientAt, if_neg hother]) (halong key topic)
  refine ⟨fun topic => ?_, fun other topic hconnects => ?_, fun other topic hthere hknown =>
    ⟨?_, halong other topic⟩, fun topic => (hsent topic).1, fun topic _ => (hsent topic).2⟩
  · rw [bytesTo_operation]
    exact o.bytesAt hok topic
  · rw [halong]
    cases a with
    | connect bridge =>
      obtain ⟨hsame, hnew⟩ := Bool.and_eq_true_iff.mp hconnects
      rw [of_decide_eq_true hsame,
        bytesAlong_of_clientAt_eq_none (Option.isNone_iff_eq_none.mp hnew) topic]
      rfl
    | _ => cases hconnects
  · rw [o.clientAt] at hthere
    split at hthere
    · rename_i hsame
      rw [hsame]
      have hresponse := o.response
      generalize hfind : s.clientAt key = before at hresponse ⊢
      cases hresponse with
      | connected bridge =>
        -- this client has not been there, so it connects
        have hnew : (s.client? key.address key.id).isNone = true := Option.isNone_iff_eq_none.mpr hfind
        have hconnects : Moment.connects other ⟨s, (Action.connect bridge).operation key⟩ = true :=
          Bool.and_eq_true_iff.mpr ⟨decide_eq_true hsame, hnew⟩
        rw [hconnects] at hknown
        cases hknown
      | disconnected | published | kept => rfl
    · exact hthere

end Outcomes

/-- A client that leaves takes its counters with it. -/
theorem entered_disconnect {m : Mutation} {after : Option Client} (h : s.Sound)
    (o : Outcome .disconnect key s s' m after) (hs' : s'.WellFormed)
    (hok : (Action.disconnect.perform key s).1.isOk = true) :
    Moment.Entered ⟨s, Action.disconnect.operation key⟩ s' := by
  have hgone : s'.clientAt key = none := by
    rw [o.clientAt, if_pos rfl]
    have hrespond := o.respond
    cases hfind : s.clientAt key with
    | none =>
      rw [hfind] at hrespond
      cases hrespond
    | some c =>
      rw [hfind] at hrespond
      exact (Prod.mk.inj (Option.some.inj hrespond)).2.symm
  have hsent : ∀ topic, s'.bytesSent topic + s.bytesAlong key topic = s.bytesSent topic := by
    intro topic
    rw [bytesSent_add h.wellFormed hs' (fun other hother => by rw [o.clientAt, if_neg hother]),
      bytesAlong_of_clientAt_eq_none hgone, Nat.add_zero]
  refine ⟨o.bytesAt hok, fun _ _ => Bool.noConfusion, fun other topic hthere _ => ?_,
    fun topic => ?_, fun topic hkept _ => ?_⟩
  · have hother : other ≠ key := by
      rintro rfl
      rw [hgone] at hthere
      cases hthere
    rw [o.clientAt, if_neg hother] at hthere
    refine ⟨hthere, ?_⟩
    rw [bytesAlong, o.edgeAt h.wellFormed, if_neg hother]
    exact (s.bytesAlong_add_zero other topic).symm
  · exact (hsent topic ▸ Nat.le_add_right _ _)
  · have hnone : s.bytesAlong key topic = 0 := by
      have hedge : s.edgeAt key topic = none := by
        rwa [Moment.drops, Action.operation, Option.isSome_eq_false_iff, Option.isNone_iff_eq_none]
          at hkept
      rw [bytesAlong, hedge]
      rfl
    have htotal := hsent topic
    rw [hnone] at htotal
    exact htotal

/-- Where nothing is sent and nobody comes or goes, nothing is entered in the books. -/
theorem entered_of_idle {op : Operation} (hfrom : ∀ key topic, Moment.bytesFrom key topic ⟨s, op⟩ = 0)
    (hto : ∀ topic, Moment.bytesTo topic ⟨s, op⟩ = 0)
    (hconnects : ∀ key, Moment.connects key ⟨s, op⟩ = false) :
    Moment.Entered ⟨s, op⟩ s where
  received := fun topic => by
    rw [hto]
    exact (s.bytesAt_add_zero topic).symm
  connected := fun key _ hconnected => by
    rw [hconnects] at hconnected
    cases hconnected
  sent := fun key topic hthere _ => by
    rw [hfrom]
    exact ⟨hthere, (s.bytesAlong_add_zero key topic).symm⟩
  le := fun topic => Nat.le_add_right _ _
  eq := fun topic _ _ => by rw [hto, Nat.add_zero]

/-- Every operation but an effective sample is entered in the books. -/
theorem entered_apply (h : s.Sound) {op : Operation} (hop : op.window? = none) :
    Moment.Entered ⟨s, op⟩ (op.apply s) := by
  rcases op.cases_action with ⟨key, a, rfl⟩ | ⟨secs, rfl⟩ | rfl
  · have hs' := (h.perform a key).wellFormed
    rw [Action.apply_operation]
    rcases outcome_or_refused h a key with ⟨m, after, hanswer, o⟩ | ⟨hrefused, hsame⟩
    · have hok : (a.perform key s).1.isOk = true := by
        rw [hanswer]
        rfl
      by_cases ha : a = .disconnect
      · subst ha
        exact entered_disconnect h o hs' hok
      · exact o.entered h hok hs' ha
    · rw [hsame]
      refine entered_of_idle (bytesFrom_of_refused hrefused) (fun topic => ?_) fun other => ?_
      · rw [bytesTo_operation, bytesFrom_of_refused hrefused]
      · have hother := ((isOk_perform_eq_false_iff h).mp hrefused).1
        cases a with
        | connect bridge => exact absurd rfl (hother bridge)
        | _ => rfl
  · have hidle : isEffective secs = false := by
      rw [Operation.window?, ite_eq_right_iff] at hop
      rw [← Bool.not_eq_true]
      exact fun heffective => Option.some_ne_none _ (hop heffective)
    rw [Operation.apply, sample_of_not_effective hidle]
    exact entered_of_idle (fun _ _ => rfl) (fun _ => rfl) fun _ => rfl
  · -- the flag of change is not in the books
    have hidle : Moment.Entered ⟨s, .takeChanged⟩ s :=
      entered_of_idle (fun _ _ => rfl) (fun _ => rfl) fun _ => rfl
    exact ⟨hidle.received, hidle.connected, hidle.sent, hidle.le, hidle.eq⟩

/-! ## Samples -/

section Samples

variable {secs : Float}

/-- An effective sample measures every edge that stays, and its counter begins anew. -/
theorem edgeAt_of_sample (hs : s.WellFormed) (heffective : isEffective secs = true) {e' : Edge}
    (h : (s.sample secs).2.edgeAt key topic = some e') :
    ∃ e, s.edgeAt key topic = some e ∧ e'.rate = Float.ofNat e.bytes / secs ∧ e'.bytes = 0 := by
  rw [edgeAt_sample hs heffective, Option.bind_eq_some_iff] at h
  obtain ⟨e, he, hlast⟩ := h
  obtain ⟨-, rfl⟩ := Edge.outlast_eq_some_iff.mp hlast
  exact ⟨e, he, rfl, rfl⟩

/-- An effective sample measures every topic that stays, and its counter begins anew. -/
theorem topic_of_sample (hs : s.WellFormed) (heffective : isEffective secs = true) {t' : Topic}
    (ht' : t' ∈ (s.sample secs).2.topics.values) :
    ∃ t ∈ s.topics.values, t.name = t'.name ∧ t'.rate = Float.ofNat t.bytes / secs ∧
      t'.bytes = 0 := by
  obtain ⟨report, s', hanswer, -, -, htopics, -⟩ := sample_spec hs heffective
  rw [hanswer] at ht'
  obtain ⟨u, hu, rfl⟩ := List.mem_map.mp (htopics.mem_iff.mp ht')
  obtain ⟨t, ht, rfl⟩ := List.mem_map.mp (List.mem_of_mem_filter hu)
  refine ⟨t, ht, ?_, ?_, rfl⟩
  · rw [Topic.sampled, Topic.name_drain, Topic.name_detachTimes]
  · rw [Topic.sampled, Topic.measured, Topic.bytes_drain, Topic.bytes_detachTimes]

/-- After an effective sample no counter shows anything. -/
theorem counters_sample (hs : s.WellFormed) (heffective : isEffective secs = true) :
    (∀ topic, (s.sample secs).2.bytesAt topic = 0) ∧
      (∀ key topic, (s.sample secs).2.bytesAlong key topic = 0) ∧
      ∀ topic, (s.sample secs).2.bytesSent topic = 0 := by
  have hs' : (s.sample secs).2.WellFormed := (sample_effect hs secs).1
  have halong : ∀ key topic, (s.sample secs).2.bytesAlong key topic = 0 := by
    intro key topic
    rw [bytesAlong]
    cases hfind : (s.sample secs).2.edgeAt key topic with
    | none => rfl
    | some e' =>
      obtain ⟨e, -, -, hzero⟩ := edgeAt_of_sample hs heffective hfind
      exact hzero
  refine ⟨fun topic => ?_, halong, fun topic => ?_⟩
  · rw [bytesAt, ledger?]
    cases hfind : (s.sample secs).2.topics.find? topic with
    | none => rfl
    | some t' =>
      obtain ⟨t, -, -, -, hzero⟩ :=
        topic_of_sample hs heffective (hs'.topics.find?_eq_some_iff.mp hfind).1
      exact hzero
  · refine List.sum_eq_zero fun n hn => ?_
    obtain ⟨c, hc, rfl⟩ := List.mem_map.mp hn
    rw [← bytesAlong_of_mem hs' hc, halong]

end Samples

/-! ## Books that are in order -/

/-- The counters show what the log says. -/
structure Accounted (log : List Moment) (s : Topology) : Prop where
  received : ∀ topic, s.bytesAt topic = receivedSince log topic % UInt64.size
  sent : ∀ key topic, (s.clientAt key).isSome = true →
    s.bytesAlong key topic = sentSince log key topic % UInt64.size
  le : ∀ topic, s.bytesSent topic ≤ receivedSince log topic
  eq : ∀ topic, (∀ m ∈ sinceSample log, m.drops topic = false) → receivedSince log topic < UInt64.size →
    s.bytesSent topic = receivedSince log topic

/-- What a moment enters keeps the books in order. -/
theorem Accounted.enter {log : List Moment} {op : Operation} (h : Accounted log s)
    (hop : op.window? = none) (hentered : Moment.Entered ⟨s, op⟩ s') :
    Accounted (log ++ [⟨s, op⟩]) s' := by
  have hsince : sinceSample (log ++ [⟨s, op⟩]) = sinceSample log ++ [⟨s, op⟩] :=
    List.rtakeWhile_concat_pos _ _ _ (by rw [Moment.samples, hop]; rfl)
  have hreceived : ∀ topic, receivedSince (log ++ [⟨s, op⟩]) topic =
      receivedSince log topic + Moment.bytesTo topic ⟨s, op⟩ := by
    intro topic
    rw [receivedSince, hsince, List.map_append, List.sum_append]
    rfl
  constructor
  · intro topic
    rw [hentered.received, h.received, hreceived, Nat.mod_add_mod]
  · intro key topic hthere
    rw [sentSince, hsince]
    cases hconnects : Moment.connects key ⟨s, op⟩ with
    | true =>
      have hnone : sinceConnection key (sinceSample log ++ [⟨s, op⟩]) = [] :=
        List.rtakeWhile_concat_neg _ _ _ (by simp [hconnects])
      rw [hentered.connected key topic hconnects, hnone]
      rfl
    | false =>
      have hmore : sinceConnection key (sinceSample log ++ [⟨s, op⟩]) =
          sinceConnection key (sinceSample log) ++ [⟨s, op⟩] :=
        List.rtakeWhile_concat_pos _ _ _ (by simp [hconnects])
      obtain ⟨hbefore, hsent⟩ := hentered.sent key topic hthere hconnects
      rw [hsent, h.sent key topic hbefore, hmore, List.map_append, List.sum_append, Nat.mod_add_mod]
      rfl
  · intro topic
    rw [hreceived]
    exact (hentered.le topic).trans (Nat.add_le_add_right (h.le topic) _)
  · intro topic hkept hfits
    rw [hsince] at hkept
    rw [hreceived] at hfits ⊢
    have hbefore : s.bytesSent topic = receivedSince log topic :=
      h.eq topic (fun m hm => hkept m (List.mem_append_left _ hm)) (Nat.lt_of_add_right_lt hfits)
    rw [← hbefore] at hfits ⊢
    exact hentered.eq topic (hkept _ (List.mem_append_right _ (List.mem_singleton_self _))) hfits

/-- Every operation keeps the books in order. -/
theorem Accounted.apply {log : List Moment} (h : Accounted log s) (hs : s.Sound) (op : Operation) :
    Accounted (log ++ [⟨s, op⟩]) (op.apply s) := by
  cases hop : op.window? with
  | none => exact h.enter hop (entered_apply hs hop)
  | some secs =>
    -- with an effective sample new books are opened
    have hsince : sinceSample (log ++ [⟨s, op⟩]) = [] :=
      List.rtakeWhile_concat_neg _ _ _ (by simp [Moment.samples, hop])
    obtain ⟨heffective, rfl⟩ := Operation.window?_eq_some_iff.mp hop
    obtain ⟨hreceived, hsent, htotal⟩ := counters_sample hs.wellFormed heffective
    refine ⟨fun topic => ?_, fun key topic _ => ?_, fun topic => ?_, fun topic _ _ => ?_⟩
    · rw [receivedSince, hsince]
      exact hreceived topic
    · rw [sentSince, hsince]
      exact hsent key topic
    · exact (htotal topic).trans_le (Nat.zero_le _)
    · rw [receivedSince, hsince]
      exact htotal topic

/-- The books of a topology without nodes are empty. -/
theorem accounted_empty (idleBudget : Nat) : Accounted [] (empty idleBudget) := by
  have hclient : ∀ key, (empty idleBudget).clientAt key = none := fun key =>
    (client?_eq_none_iff (wellFormed_empty idleBudget)).mpr fun c hc => absurd hc List.not_mem_nil
  refine ⟨fun topic => ?_, fun key topic hthere => ?_, fun topic => Nat.zero_le _, fun topic _ _ => rfl⟩
  · rw [bytesAt, ledger?, empty, Dict.find?_empty]
    rfl
  · rw [hclient] at hthere
    cases hthere

/-- The books are in order after every run. -/
theorem accounted_run (idleBudget : Nat) (ops : List Operation) :
    Accounted ((empty idleBudget).moments ops) ((empty idleBudget).run ops) := by
  induction ops using List.reverseRecOn with
  | nil => exact accounted_empty idleBudget
  | append_singleton ops op ih =>
    rw [moments_append_singleton, run_append_singleton]
    exact ih.apply ((sound_empty idleBudget).run ops) op

/-- In every run, from the last effective sample on, the counter of a topic is the sum of all bytes
that were published to it, and the counter of an edge the sum of those that its client has published
to the topic since it connected for the last time: modulo the size of a word, and so exactly where the
sum fits one. Where the sum of a topic does, the edges to the topic count no more than the topic, and as
much if no client with an edge to it has disconnected. The next effective sample makes rates of the
counters, and sets those of the edges and topics that stay to zero. -/
theorem accounts_run (idleBudget : Nat) (ops : List Operation) :
    (∀ t ∈ ((empty idleBudget).run ops).topics.values,
      t.bytes = receivedSince ((empty idleBudget).moments ops) t.name % UInt64.size ∧
        (receivedSince ((empty idleBudget).moments ops) t.name < UInt64.size →
          t.bytes = receivedSince ((empty idleBudget).moments ops) t.name)) ∧
    (∀ key topic e, ((empty idleBudget).run ops).edgeAt key topic = some e →
      e.bytes = sentSince ((empty idleBudget).moments ops) key topic % UInt64.size ∧
        (sentSince ((empty idleBudget).moments ops) key topic < UInt64.size →
          e.bytes = sentSince ((empty idleBudget).moments ops) key topic)) ∧
    (∀ t ∈ ((empty idleBudget).run ops).topics.values,
      receivedSince ((empty idleBudget).moments ops) t.name < UInt64.size →
        ((empty idleBudget).run ops).bytesSent t.name ≤ t.bytes ∧
          ((∀ m ∈ sinceSample ((empty idleBudget).moments ops), m.drops t.name = false) →
            ((empty idleBudget).run ops).bytesSent t.name = t.bytes)) ∧
    ∀ secs, isEffective secs = true →
      (∀ t' ∈ (((empty idleBudget).run ops).sample secs).2.topics.values,
        ∃ t ∈ ((empty idleBudget).run ops).topics.values, t.name = t'.name ∧
          t'.rate = Float.ofNat t.bytes / secs ∧ t'.bytes = 0) ∧
      ∀ key topic e', (((empty idleBudget).run ops).sample secs).2.edgeAt key topic = some e' →
        ∃ e, ((empty idleBudget).run ops).edgeAt key topic = some e ∧
          e'.rate = Float.ofNat e.bytes / secs ∧ e'.bytes = 0 := by
  have hs : ((empty idleBudget).run ops).WellFormed := ((sound_empty idleBudget).run ops).wellFormed
  have hbooks := accounted_run idleBudget ops
  have hreceived : ∀ t ∈ ((empty idleBudget).run ops).topics.values,
      t.bytes = receivedSince ((empty idleBudget).moments ops) t.name % UInt64.size := by
    intro t ht
    rw [← bytesAt_of_mem hs ht]
    exact hbooks.received t.name
  refine ⟨fun t ht => ⟨hreceived t ht, fun hfits => ?_⟩, fun key topic e he => ?_,
    fun t ht hfits => ?_, fun secs heffective => ?_⟩
  · rw [hreceived t ht, Nat.mod_eq_of_lt hfits]
  · have hthere : (((empty idleBudget).run ops).clientAt key).isSome = true := by
      obtain ⟨c, hc, -⟩ := Option.bind_eq_some_iff.mp he
      rw [hc]
      rfl
    have hsent := hbooks.sent key topic hthere
    rw [bytesAlong, he] at hsent
    exact ⟨hsent, fun hfits => hsent.trans (Nat.mod_eq_of_lt hfits)⟩
  · rw [hreceived t ht, Nat.mod_eq_of_lt hfits]
    exact ⟨hbooks.le t.name, fun hkept => hbooks.eq t.name hkept hfits⟩
  · exact ⟨fun t' ht' => topic_of_sample hs heffective ht',
      fun key topic e' he' => edgeAt_of_sample hs heffective he'⟩

/-- Two clients publish to one topic after a sample. One of them connects anew, publishes again and
lets a sample over no time pass. -/
def reconnected : List Operation :=
  [.addClient "10.0.0.1" "p" none, .addClient "10.0.0.2" "q" none,
    .addPublish "p" "10.0.0.1" "a/b" false 9, .sample 1, .addPublish "p" "10.0.0.1" "a/b" false 5,
    .addPublish "q" "10.0.0.2" "a/b" false 7, .removeClient "p" "10.0.0.1",
    .addClient "10.0.0.1" "p" none, .addPublish "p" "10.0.0.1" "a/b" false 2, .sample 0]

/-- The topic has received what both clients have sent, before and after the new connection, and shows
it at the next sample. Along the edge of the client that came back only the last publication counts. -/
theorem accounts_run_reconnected :
    (∀ t ∈ ((empty 3).run reconnected).topics.values, t.name = "a/b" ∧ t.bytes = 5 + 7 + 2) ∧
      (∀ e, ((empty 3).run reconnected).edgeAt ⟨"10.0.0.1", "p"⟩ "a/b" = some e → e.bytes = 2) ∧
      (∃ e, ((empty 3).run reconnected).edgeAt ⟨"10.0.0.1", "p"⟩ "a/b" = some e) ∧
      ((empty 3).run reconnected).bytesSent "a/b" = 7 + 2 ∧
      isEffective 2 = true ∧
      ∀ t ∈ (((empty 3).run reconnected).sample 2).2.topics.values, t.rate = 7 ∧ t.bytes = 0 := by
  obtain ⟨hreceived, hsent, -, hmeasured⟩ := accounts_run 3 reconnected
  have hname : ∀ t ∈ ((empty 3).run reconnected).topics.values, t.name = "a/b" := by decide +kernel
  have hthere : (((empty 3).run reconnected).edgeAt ⟨"10.0.0.1", "p"⟩ "a/b").isSome = true := by
    decide +kernel
  have hbytes : ∀ t ∈ ((empty 3).run reconnected).topics.values, t.bytes = 5 + 7 + 2 := by
    intro t ht
    rw [(hreceived t ht).1, hname t ht]
    decide +kernel
  have heffective : isEffective 2 = true := by decide +kernel
  refine ⟨fun t ht => ⟨hname t ht, hbytes t ht⟩, fun e he => ?_, Option.isSome_iff_exists.mp hthere,
    by decide +kernel, heffective, fun t' ht' => ?_⟩
  · rw [(hsent ⟨"10.0.0.1", "p"⟩ "a/b" e he).1]
    decide +kernel
  · obtain ⟨t, ht, -, hrate, hzero⟩ := (hmeasured 2 heffective).1 t' ht'
    rw [hrate, hbytes t ht]
    exact ⟨by decide +kernel, hzero⟩

end Topology

end BrokerTopology
