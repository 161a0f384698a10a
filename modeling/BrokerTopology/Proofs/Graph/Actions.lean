import BrokerTopology.Proofs.Graph.Ledger
/-!
# Actions of one client

A client acts on the topology under its own key. What an action answers and what it makes of the
client depends on the client alone, all other clients stay, and the ledgers change only where the
action publishes. The flag of change is set exactly if a document would show the client differently.
So an action is described here by the client before and after it, whatever else the topology holds.
-/

namespace BrokerTopology

namespace Topology

/-! ## Sound topologies -/

/-- The topology is well formed, its topics count their publishers and list the interested clients. -/
structure Sound (s : Topology) : Prop where
  wellFormed : s.WellFormed
  counted : Counted s.topics.values s.publications
  joined : Joined s.topics.values s.clients

/-- A topology without nodes is sound. -/
theorem sound_empty (idleBudget : Nat) : (empty idleBudget).Sound :=
  ⟨wellFormed_empty idleBudget, Counted.nil, Joined.nil _⟩

/-- Every operation keeps a topology sound. -/
theorem Sound.apply {s : Topology} (h : s.Sound) (op : Operation) : (op.apply s).Sound := by
  obtain ⟨hwf, heffect⟩ := apply_spec h.wellFormed op
  exact ⟨hwf, counted_of_effect h.wellFormed heffect h.counted,
    joined_of_effect h.wellFormed heffect h.joined⟩

/-- A topology stays sound over every run. -/
theorem Sound.run {s : Topology} (h : s.Sound) (ops : List Operation) : (s.run ops).Sound := by
  induction ops generalizing s with
  | nil => exact h
  | cons op ops ih => exact ih (h.apply op)

/-! ## The client with a key -/

/-- The client with a given key. -/
def clientAt (s : Topology) (key : ClientKey) : Option Client :=
  s.client? key.address key.id

/-- Whether a topic is listed. -/
def Listed (s : Topology) (topic : String) : Prop :=
  s.topics.contains topic = true

variable {s s' : Topology} {c c' : Client} {key : ClientKey}

theorem clientAt_eq_some_iff (hs : s.WellFormed) :
    s.clientAt key = some c ↔ c ∈ s.clients ∧ c.key = key :=
  client?_eq_some_iff hs

/-- A client seen apart from the others is found under its key, and the others under theirs. -/
theorem clientAt_eq_some_iff_of_perm {others : List Client} (hs : s.WellFormed)
    (hperm : s.clients.Perm (c :: others)) {d : Client} :
    s.clientAt key = some d ↔ if key = c.key then c = d else d ∈ others ∧ d.key = key := by
  have hnodup := (hperm.map Client.key).nodup_iff.mp hs.keys_nodup
  rw [clientAt_eq_some_iff hs, hperm.mem_iff, List.mem_cons]
  split
  · rename_i hsame
    subst hsame
    constructor
    · rintro ⟨rfl | hd, hkey⟩
      · rfl
      · -- no other client has the key
        exact absurd ⟨d, hd, hkey, trivial⟩ (not_keyed_self (P := fun _ => True) hnodup)
    · rintro rfl
      exact ⟨Or.inl rfl, rfl⟩
  · rename_i hother
    refine and_congr_left fun hkey => or_iff_right ?_
    rintro rfl
    exact hother hkey.symm

/-- A client that is added is found, and the others as before. -/
theorem clientAt_of_added (hs : s.WellFormed) (hs' : s'.WellFormed)
    (hperm : s'.clients.Perm (c :: s.clients)) (key : ClientKey) :
    s'.clientAt key = if key = c.key then some c else s.clientAt key := by
  refine Option.ext fun d => ?_
  rw [clientAt_eq_some_iff_of_perm hs' hperm]
  split
  · rw [Option.some.injEq]
  · rw [clientAt_eq_some_iff hs]

/-- A client that is taken out is not found any more, and the others as before. -/
theorem clientAt_of_removed (hs : s.WellFormed) (hs' : s'.WellFormed)
    (hperm : s.clients.Perm (c :: s'.clients)) (hkey : c.key = key) (other : ClientKey) :
    s'.clientAt other = if other = key then none else s.clientAt other := by
  subst hkey
  split
  · rename_i hsame
    have hnodup := (hperm.map Client.key).nodup_iff.mp hs.keys_nodup
    rw [hsame]
    refine (client?_eq_none_iff hs').mpr fun d hd hkey => ?_
    exact not_keyed_self (P := fun _ => True) hnodup ⟨d, hd, hkey, trivial⟩
  · rename_i hother
    rw [clientAt_of_added hs' hs hperm, if_neg hother]

/-- A client that is replaced by one with the same key is found in its new form. -/
theorem Replaces.clientAt (hs : s.WellFormed) (hs' : s'.WellFormed) (h : Replaces s s' c c')
    (hsame : c'.key = c.key) (hkey : c.key = key) (other : ClientKey) :
    s'.clientAt other = if other = key then some c' else s.clientAt other := by
  obtain ⟨others, hbefore, hafter⟩ := h
  subst hkey
  refine Option.ext fun d => ?_
  rw [clientAt_eq_some_iff_of_perm hs' hafter, hsame]
  split
  · rw [Option.some.injEq]
  · rename_i hother
    rw [clientAt_eq_some_iff_of_perm hs hbefore, if_neg hother]

/-- A topic lists a client as its subscriber if a filter of the client covers it. -/
theorem Sound.hasSubscriber_iff (h : s.Sound) (hfind : s.clientAt key = some c) {t : Topic}
    (ht : t ∈ s.topics.values) : t.hasSubscriber key = true ↔ c.subscribesTo t.name = true := by
  rw [Topic.hasSubscriber, List.contains_iff_mem, h.joined.mem_iff t ht,
    wanted_clients_iff h.wellFormed, Client.subscribesTo_iff]
  constructor
  · rintro ⟨d, hd, hwants⟩
    obtain rfl := Option.some.inj (hfind.symm.trans hd)
    exact hwants
  · exact fun hwants => ⟨c, hfind, hwants⟩

/-- A topic is listed if it is found among the values. -/
theorem listed_iff (hs : s.WellFormed) {topic : String} :
    s.Listed topic ↔ ∃ t ∈ s.topics.values, t.name = topic :=
  hs.topics.contains_iff

/-- A topic is listed if it has a ledger. -/
theorem listed_iff_ledger? {topic : String} : s.Listed topic ↔ (s.ledger? topic).isSome = true := by
  rw [Listed, Dict.contains, ledger?, Option.isSome_map]

/-! ## Actions -/

/-- What a client may do under its key. -/
inductive Action where
  | connect (bridge : Option String)
  | disconnect
  | publish (topic : String) (retain : Bool) (bytes : Nat)
  | subscribe (filter : String)
  | unsubscribe (filter : String)
  | startProbe (now : Nat)
  | finishProbe (now : Nat)

/-- A client after it has sent bytes along its edge to a topic. -/
def sent (c : Client) (topic : String) (ttl : Int) (bytes : Nat) : Client :=
  match sendAlong c topic ttl bytes with
  | .error _ => c
  | .ok (c', _) => c'

namespace Action

/-- The operation on the topology that an action is. -/
def perform (key : ClientKey) (s : Topology) : Action → Answer
  | .connect bridge => s.addClient key.address key.id bridge
  | .disconnect => s.removeClient key.id key.address
  | .publish topic retain bytes => s.addPublish key.id key.address topic retain bytes
  | .subscribe filter => s.addSubscription key.id key.address filter
  | .unsubscribe filter => s.removeSubscription key.id key.address filter
  | .startProbe now => s.startProbe key.id key.address now
  | .finishProbe now => s.finishProbe key.id key.address now

/-- The answer to an action that is not refused and the client after it, given the client before it. -/
def respond (budget : Nat) (key : ClientKey) : Action → Option Client → Option (Mutation × Option Client)
  | .connect bridge, none => some (.applied, some (.fresh key.address key.id bridge))
  | .connect _, some c => some (.ignored, some c)
  | _, none => none
  | .disconnect, some _ => some (.applied, none)
  | .publish topic _ bytes, some c => some (.applied, some (sent c topic budget bytes))
  | .subscribe filter, some c =>
    if filter ∈ c.filters then some (.ignored, some c)
    else some (.applied, some { c with filters := c.filters ++ [filter] })
  | .unsubscribe filter, some c =>
    if filter ∈ c.filters then some (.applied, some (withoutFilter c filter))
    else some (.ignored, some c)
  | .startProbe now, some c => some (.applied, some { c with latency := c.latency.start now })
  | .finishProbe now, some c =>
    if c.latency.isPending then some (.applied, some { c with latency := (c.latency.finish now).2 })
    else some (.ignored, some c)

/-- The ledger of a topic after an action. -/
def onLedger (budget : Nat) (a : Action) (name : String) (l : Option Ledger) : Option Ledger :=
  match a with
  | .publish topic retain bytes =>
    if name = topic then some ((l.getD .fresh).receive budget retain bytes) else l
  | _ => l

end Action

/-- Whether a document with the listed topics shows a client differently after a change: it has come
or gone, its edges are other ones, or it subscribes to other topics. -/
def Visible (listed : String → Prop) : Option Client → Option Client → Prop
  | none, none => False
  | some c, some c' =>
    (∃ topic, c.published.contains topic ≠ c'.published.contains topic) ∨
      ∃ topic, listed topic ∧ c.subscribesTo topic ≠ c'.subscribesTo topic
  | _, _ => True

/-- A client that stays the same is not shown differently. -/
theorem not_visible_self (listed : String → Prop) (o : Option Client) : ¬ Visible listed o o := by
  cases o with
  | none => exact id
  | some c =>
    rintro (⟨topic, hne⟩ | ⟨topic, -, hne⟩)
    · exact hne rfl
    · exact hne rfl

/-- What is visible with some topics is visible with more. -/
theorem Visible.mono {listed listed' : String → Prop} (hle : ∀ topic, listed topic → listed' topic)
    {before after : Option Client} (h : Visible listed before after) :
    Visible listed' before after := by
  match before, after with
  | none, none => exact h
  | none, some c => trivial
  | some c, none => trivial
  | some c, some c' =>
    rcases h with hedge | ⟨topic, hlisted, hne⟩
    · exact Or.inl hedge
    · exact Or.inr ⟨topic, hle topic hlisted, hne⟩

/-- A client that sends has an edge to the topic afterwards, and its other edges as before. -/
theorem sent_spec (hc : c.WellFormed) (topic : String) (ttl : Int) (bytes : Nat) :
    (∀ name, (sent c topic ttl bytes).subscribesTo name = c.subscribesTo name) ∧
      ∀ name, (sent c topic ttl bytes).published.contains name = true ↔
        name = topic ∨ c.published.contains name = true := by
  obtain ⟨published, hsend, hnamed, hedges⟩ := sendAlong_spec hc topic ttl bytes
  have hsent : sent c topic ttl bytes = { c with published := published } := by rw [sent, hsend]
  rw [hsent]
  refine ⟨fun name => rfl, fun name => ?_⟩
  rw [hnamed.contains_iff, hc.published.contains_iff]
  rcases hedges with ⟨hknown, hvalues⟩ | ⟨-, hperm⟩
  · -- the edge has been there already
    have hname : ∀ e : Edge, (if e.topic = topic then e.send ttl bytes else e).topic = e.topic := by
      intro e
      split
      · rfl
      · rfl
    simp only [hvalues, List.mem_map, exists_exists_and_eq_and, hname]
    refine (or_iff_right_of_imp ?_).symm
    rintro rfl
    exact hc.published.contains_iff.mp hknown
  · simp only [hperm.mem_iff, List.mem_cons, exists_eq_or_imp]
    exact or_congr_left eq_comm

/-- Sending is visible if the edge is new. -/
theorem visible_sent_iff (hc : c.WellFormed) (topic : String) (ttl : Int) (bytes : Nat)
    (listed : String → Prop) :
    Visible listed (some c) (some (sent c topic ttl bytes)) ↔ c.published.contains topic = false := by
  obtain ⟨hsubscribes, hcontains⟩ := sent_spec hc topic ttl bytes
  constructor
  · rintro (⟨name, hne⟩ | ⟨name, -, hne⟩)
    · rw [← Bool.not_eq_true]
      intro hknown
      refine hne (Bool.eq_iff_iff.mpr ?_)
      rw [hcontains, or_iff_right_of_imp]
      rintro rfl
      exact hknown
    · exact absurd (hsubscribes name).symm hne
  · intro hnew
    refine Or.inl ⟨topic, ?_⟩
    rw [hnew, (hcontains topic).mpr (Or.inl rfl)]
    exact Bool.false_ne_true

section Subscriptions

variable (h : s.Sound) (hfind : s.clientAt key = some c) (filter : String)

include h hfind

/-- A new filter is visible if a listed topic gains the client. -/
theorem visible_subscribed_iff :
    Visible s.Listed (some c) (some { c with filters := c.filters ++ [filter] }) ↔
      (s.topics.values.any fun t => Filter.covers filter t.name && !t.hasSubscriber c.key) = true := by
  have hkey := ((clientAt_eq_some_iff h.wellFormed).mp hfind).2
  have hgains : ∀ t ∈ s.topics.values,
      (Filter.covers filter t.name && !t.hasSubscriber c.key) = true ↔
        c.subscribesTo t.name ≠
          Client.subscribesTo { c with filters := c.filters ++ [filter] } t.name := by
    intro t ht
    refine Iff.trans ?_ Bool.eq_iff_iff.not.symm
    rw [Bool.and_eq_true, Bool.not_eq_true', ← Bool.not_eq_true, hkey, h.hasSubscriber_iff hfind ht,
      Client.subscribesTo_append]
    tauto
  rw [List.any_eq_true]
  constructor
  · rintro (⟨topic, hne⟩ | ⟨topic, hlisted, hne⟩)
    · exact absurd rfl hne
    · obtain ⟨t, ht, rfl⟩ := (listed_iff h.wellFormed).mp hlisted
      exact ⟨t, ht, (hgains t ht).mpr hne⟩
  · rintro ⟨t, ht, hgain⟩
    exact Or.inr ⟨t.name, (listed_iff h.wellFormed).mpr ⟨t, ht, rfl⟩, (hgains t ht).mp hgain⟩

/-- A filter that is forgotten is visible if a listed topic loses the client. -/
theorem visible_unsubscribed_iff :
    Visible s.Listed (some c) (some (withoutFilter c filter)) ↔
      (s.topics.values.any fun t =>
        (Filter.covers filter t.name && !(withoutFilter c filter).subscribesTo t.name) &&
          t.hasSubscriber c.key) = true := by
  have hkey := ((clientAt_eq_some_iff h.wellFormed).mp hfind).2
  have hloses : ∀ t ∈ s.topics.values,
      ((Filter.covers filter t.name && !(withoutFilter c filter).subscribesTo t.name) &&
          t.hasSubscriber c.key) = true ↔
        c.subscribesTo t.name ≠ (withoutFilter c filter).subscribesTo t.name := by
    intro t ht
    have hless : (withoutFilter c filter).subscribesTo t.name = true → c.subscribesTo t.name = true :=
      Client.subscribesTo_of_withoutFilter
    have hcovers : c.subscribesTo t.name = true → ¬ Filter.covers filter t.name = true →
        (withoutFilter c filter).subscribesTo t.name = true :=
      fun hwants hnot => Client.withoutFilter_subscribesTo hwants (by simpa using hnot)
    refine Iff.trans ?_ Bool.eq_iff_iff.not.symm
    rw [Bool.and_eq_true, Bool.and_eq_true, Bool.not_eq_true', ← Bool.not_eq_true, hkey,
      h.hasSubscriber_iff hfind ht]
    tauto
  rw [List.any_eq_true]
  constructor
  · rintro (⟨topic, hne⟩ | ⟨topic, hlisted, hne⟩)
    · exact absurd rfl hne
    · obtain ⟨t, ht, rfl⟩ := (listed_iff h.wellFormed).mp hlisted
      exact ⟨t, ht, (hloses t ht).mpr hne⟩
  · rintro ⟨t, ht, hloss⟩
    exact Or.inr ⟨t.name, (listed_iff h.wellFormed).mpr ⟨t, ht, rfl⟩, (hloses t ht).mp hloss⟩

end Subscriptions

/-! ## Outcomes -/

/-- What an action that is not refused leaves: it has answered `m` and made `after` of the client. -/
structure Outcome (a : Action) (key : ClientKey) (s s' : Topology) (m : Mutation)
    (after : Option Client) : Prop where
  respond : a.respond s.idleBudget key (s.clientAt key) = some (m, after)
  clientAt : ∀ other, s'.clientAt other = if other = key then after else s.clientAt other
  ledger : ∀ name, s'.ledger? name = a.onLedger s.idleBudget name (s.ledger? name)
  idleBudget : s'.idleBudget = s.idleBudget
  changed : s'.changed = true ↔ s.changed = true ∨ Visible s.Listed (s.clientAt key) after

/-- An action is not refused, and has an outcome. -/
def Succeeds (a : Action) (key : ClientKey) (s : Topology) : Prop :=
  ∃ m s' after, a.perform key s = (.ok m, s') ∧ Outcome a key s s' m after

variable {a : Action}

/-- An action that repeats what is known changes nothing. -/
theorem succeeds_of_ignored (hanswer : a.perform key s = (.ok .ignored, s))
    (hrespond : a.respond s.idleBudget key (s.clientAt key) = some (.ignored, s.clientAt key))
    (hledger : ∀ name l, a.onLedger s.idleBudget name l = l) : Succeeds a key s := by
  refine ⟨_, s, s.clientAt key, hanswer, hrespond, fun other => ?_, fun name => (hledger name _).symm,
    rfl, ?_⟩
  · split
    · rename_i hsame
      rw [hsame]
    · rfl
  · rw [or_iff_left (not_visible_self _ _)]

section Outcomes

variable (h : s.Sound)

include h

theorem connect_succeeds (bridge : Option String) : Succeeds (.connect bridge) key s := by
  cases hfind : s.clientAt key with
  | some c =>
    refine succeeds_of_ignored (addClient_of_client? hfind bridge) ?_ fun _ _ => rfl
    rw [hfind]
    rfl
  | none =>
    obtain ⟨s', hanswer, hwf, hperm, htopics, hbudget, hchanged⟩ :=
      addClient_spec h.wellFormed hfind bridge
    refine ⟨_, s', some (.fresh key.address key.id bridge), hanswer, ?_,
      clientAt_of_added h.wellFormed hwf hperm, fun name => ?_, hbudget, ?_⟩
    · rw [hfind]
      rfl
    · rw [ledger?, htopics, hbudget]
      rfl
    · rw [hfind]
      exact iff_of_true hchanged (Or.inr trivial)

variable (hfind : s.clientAt key = some c)

include hfind

/-- The edges of a client that leaves are detached one by one, and the ledgers stay. -/
theorem disconnect_succeeds : Succeeds .disconnect key s := by
  have hkey := ((clientAt_eq_some_iff h.wellFormed).mp hfind).2
  obtain ⟨s', hanswer, hwf, hperm, htopics, hbudget, hchanged⟩ := removeClient_spec h.wellFormed hfind
  refine ⟨_, s', none, hanswer, ?_, clientAt_of_removed h.wellFormed hwf hperm hkey, ?_, hbudget, ?_⟩
  · rw [hfind]
    rfl
  · refine ledger?_of_map h.wellFormed hwf hbudget htopics (fun t => Topic.name_detachTimes) ?_
    intro t ht
    exact Topic.ledger_detachTimes (t := t.removeSubscriber c.key)
      (count_publications_le hperm h.counted ht)
  · rw [hfind]
    exact iff_of_true hchanged (Or.inr trivial)

theorem publish_succeeds (topic : String) (retain : Bool) (bytes : Nat) :
    Succeeds (.publish topic retain bytes) key s := by
  obtain ⟨hc, hkey⟩ := (clientAt_eq_some_iff h.wellFormed).mp hfind
  obtain ⟨s', published, topics, hanswer, hwf, hreplaces, -, -, -, hbudget, hchanged, hsend⟩ :=
    addPublish_spec h.wellFormed hfind topic retain bytes
  have hsent : sent c topic s.idleBudget bytes = { c with published := published } := by
    rw [sent, hsend]
  have hledger := ledger?_addPublish h.wellFormed h.counted hfind topic retain bytes
  rw [hanswer] at hledger
  refine ⟨_, s', some (sent c topic s.idleBudget bytes), hanswer, ?_, ?_, fun name => ?_, hbudget, ?_⟩
  · rw [hfind]
    rfl
  · rw [hsent]
    exact hreplaces.clientAt h.wellFormed hwf rfl hkey
  · rw [hledger name, Action.onLedger]
    split
    · rename_i hsame
      rw [hsame]
    · rfl
  · rw [hchanged, Bool.or_eq_true, Bool.not_eq_true', hfind,
      visible_sent_iff (h.wellFormed.client hc)]

theorem subscribe_succeeds (filter : String) : Succeeds (.subscribe filter) key s := by
  obtain ⟨hc, hkey⟩ := (clientAt_eq_some_iff h.wellFormed).mp hfind
  by_cases hmem : filter ∈ c.filters
  · refine succeeds_of_ignored (addSubscription_of_mem hfind hmem) ?_ fun _ _ => rfl
    rw [hfind]
    exact if_pos hmem
  · obtain ⟨s', hanswer, hwf, hreplaces, htopics, hbudget, hchanged⟩ :=
      addSubscription_spec h.wellFormed hfind hmem
    refine ⟨_, s', some { c with filters := c.filters ++ [filter] }, hanswer, ?_,
      hreplaces.clientAt h.wellFormed hwf rfl hkey, ?_, hbudget, ?_⟩
    · rw [hfind]
      exact if_neg hmem
    · refine ledger?_of_map h.wellFormed hwf hbudget htopics (name_gained filter c.key) fun t _ => ?_
      rw [gained]
      split
      · exact Topic.ledger_addSubscriber c.key
      · rfl
    · rw [hchanged, Bool.or_eq_true, hfind, visible_subscribed_iff h hfind]

theorem unsubscribe_succeeds (filter : String) : Succeeds (.unsubscribe filter) key s := by
  have hkey := ((clientAt_eq_some_iff h.wellFormed).mp hfind).2
  by_cases hmem : filter ∈ c.filters
  · obtain ⟨s', hanswer, hwf, hreplaces, htopics, hbudget, hchanged⟩ :=
      removeSubscription_spec h.wellFormed hfind hmem
    refine ⟨_, s', some (withoutFilter c filter), hanswer, ?_,
      hreplaces.clientAt h.wellFormed hwf rfl hkey, ?_, hbudget, ?_⟩
    · rw [hfind]
      exact if_pos hmem
    · refine ledger?_of_map h.wellFormed hwf hbudget htopics (name_lost filter _) fun t _ => ?_
      rw [lost]
      split
      · rfl
      · rfl
    · rw [hchanged, Bool.or_eq_true, hfind, visible_unsubscribed_iff h hfind]
  · refine succeeds_of_ignored (removeSubscription_of_not_mem hfind hmem) ?_ fun _ _ => rfl
    rw [hfind]
    exact if_neg hmem

/-- A change of the latency is neither seen nor does it concern the topics. -/
theorem outcome_of_latency {s' : Topology} {m : Mutation} {latency : Latency} (hwf : s'.WellFormed)
    (hreplaces : Replaces s s' c { c with latency := latency }) (htopics : s'.topics = s.topics)
    (hbudget : s'.idleBudget = s.idleBudget) (hchanged : s'.changed = s.changed)
    (hrespond : a.respond s.idleBudget key (some c) = some (m, some { c with latency := latency }))
    (hledger : ∀ name l, a.onLedger s.idleBudget name l = l) :
    Outcome a key s s' m (some { c with latency := latency }) where
  respond := by rw [hfind, hrespond]
  clientAt :=
    hreplaces.clientAt h.wellFormed hwf rfl ((clientAt_eq_some_iff h.wellFormed).mp hfind).2
  ledger := fun name => by rw [ledger?, htopics, hbudget, hledger, ledger?]
  idleBudget := hbudget
  changed := by
    rw [hchanged, hfind]
    exact (or_iff_left (not_visible_self _ (some c))).symm

theorem startProbe_succeeds (now : Nat) : Succeeds (.startProbe now) key s := by
  obtain ⟨s', hanswer, hwf, hreplaces, htopics, hbudget, hchanged⟩ :=
    startProbe_spec h.wellFormed hfind now
  exact ⟨_, s', _, hanswer,
    outcome_of_latency h hfind hwf hreplaces htopics hbudget hchanged rfl fun _ _ => rfl⟩

theorem finishProbe_succeeds (now : Nat) : Succeeds (.finishProbe now) key s := by
  cases hpending : c.latency.pending with
  | none =>
    refine succeeds_of_ignored (finishProbe_of_pending_eq_none hfind hpending now) ?_ fun _ _ => rfl
    rw [hfind, Action.respond, Latency.isPending, hpending]
    rfl
  | some started =>
    obtain ⟨s', hanswer, hwf, hreplaces, htopics, hbudget, hchanged⟩ :=
      finishProbe_spec h.wellFormed hfind hpending now
    refine ⟨_, s', _, hanswer,
      outcome_of_latency h hfind hwf hreplaces htopics hbudget hchanged ?_ fun _ _ => rfl⟩
    rw [Action.respond, Latency.isPending, hpending]
    rfl

end Outcomes

/-- Without the client only connecting is not refused. -/
theorem perform_of_clientAt_eq_none (hfind : s.clientAt key = none)
    (ha : ∀ bridge, a ≠ .connect bridge) : ∃ e, a.perform key s = (.error e, s) := by
  cases a with
  | connect bridge => exact absurd rfl (ha bridge)
  | disconnect => exact removeClient_of_client?_eq_none hfind
  | publish topic retain bytes => exact addPublish_of_client?_eq_none hfind topic retain bytes
  | subscribe filter => exact addSubscription_of_client?_eq_none hfind filter
  | unsubscribe filter => exact removeSubscription_of_client?_eq_none hfind filter
  | startProbe now => exact startProbe_of_client?_eq_none hfind now
  | finishProbe now => exact finishProbe_of_client?_eq_none hfind now

/-- Every action of a client that is found has its outcome. -/
theorem succeeds_of_clientAt (h : s.Sound) (hfind : s.clientAt key = some c) : Succeeds a key s := by
  cases a with
  | connect bridge => exact connect_succeeds h bridge
  | disconnect => exact disconnect_succeeds h hfind
  | publish topic retain bytes => exact publish_succeeds h hfind topic retain bytes
  | subscribe filter => exact subscribe_succeeds h hfind filter
  | unsubscribe filter => exact unsubscribe_succeeds h hfind filter
  | startProbe now => exact startProbe_succeeds h hfind now
  | finishProbe now => exact finishProbe_succeeds h hfind now

/-- Every action that is not refused has its outcome. -/
theorem succeeds_of_isOk (h : s.Sound) (hok : (a.perform key s).1.isOk = true) : Succeeds a key s := by
  by_cases hconnect : ∃ bridge, a = .connect bridge
  · obtain ⟨bridge, rfl⟩ := hconnect
    exact connect_succeeds h bridge
  · cases hfind : s.clientAt key with
    | none =>
      obtain ⟨e, he⟩ := perform_of_clientAt_eq_none hfind fun bridge hsame => hconnect ⟨bridge, hsame⟩
      rw [he] at hok
      cases hok
    | some c => exact succeeds_of_clientAt h hfind

/-! ## Actions among the operations -/

/-- An action under a key, as an operation. -/
def Action.operation (key : ClientKey) : Action → Operation
  | .connect bridge => .addClient key.address key.id bridge
  | .disconnect => .removeClient key.id key.address
  | .publish topic retain bytes => .addPublish key.id key.address topic retain bytes
  | .subscribe filter => .addSubscription key.id key.address filter
  | .unsubscribe filter => .removeSubscription key.id key.address filter
  | .startProbe now => .startProbe key.id key.address now
  | .finishProbe now => .finishProbe key.id key.address now

/-- The operation is the action, but for the answer. -/
@[simp] theorem Action.apply_operation (a : Action) (key : ClientKey) (s : Topology) :
    (a.operation key).apply s = (a.perform key s).2 := by
  cases a with
  | _ => rfl

/-- No action takes the flag of change back. -/
theorem Action.operation_ne_takeChanged (a : Action) (key : ClientKey) :
    a.operation key ≠ .takeChanged := by
  cases a with
  | _ => exact Operation.noConfusion

/-- Every operation is an action under some key, or a sample, or it takes the flag of change. -/
theorem Operation.cases_action (op : Operation) :
    (∃ key a, op = Action.operation key a) ∨ (∃ secs, op = .sample secs) ∨ op = .takeChanged := by
  cases op with
  | addClient address id bridge => exact Or.inl ⟨⟨address, id⟩, .connect bridge, rfl⟩
  | removeClient id address => exact Or.inl ⟨⟨address, id⟩, .disconnect, rfl⟩
  | addPublish id address topic retain bytes =>
    exact Or.inl ⟨⟨address, id⟩, .publish topic retain bytes, rfl⟩
  | addSubscription id address filter => exact Or.inl ⟨⟨address, id⟩, .subscribe filter, rfl⟩
  | removeSubscription id address filter => exact Or.inl ⟨⟨address, id⟩, .unsubscribe filter, rfl⟩
  | startProbe id address now => exact Or.inl ⟨⟨address, id⟩, .startProbe now, rfl⟩
  | finishProbe id address now => exact Or.inl ⟨⟨address, id⟩, .finishProbe now, rfl⟩
  | sample secs => exact Or.inr (Or.inl ⟨secs, rfl⟩)
  | takeChanged => exact Or.inr (Or.inr rfl)

/-- Every action keeps a topology sound, whatever it answers. -/
theorem Sound.perform (h : s.Sound) (a : Action) (key : ClientKey) : (a.perform key s).2.Sound := by
  rw [← Action.apply_operation]
  exact h.apply (a.operation key)

end Topology

end BrokerTopology
