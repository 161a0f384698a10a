import BrokerTopology.Proofs.Graph.Run
/-!
# Topics are delivered to the interested clients

The subscribers that a topic lists are a join, kept by hand, of the filters of the clients with the
names of the topics. After every run of operations the list holds the key of a client, once, exactly
when the client is connected and one of its filters covers the topic. The invariant `Joined` says so
of the list of topics and the list of clients.
-/

namespace BrokerTopology

/-! ## Interest in a topic -/

/-- Among some clients, the one with a given key has a filter that covers a topic. -/
def Wanted (clients : List Client) (key : ClientKey) (topic : String) : Prop :=
  Keyed clients key fun c => c.subscribesTo topic = true

section Interest

variable {c : Client} {topic filter : String}

/-- A client is interested in a topic when one of its filters covers it. -/
theorem Client.subscribesTo_iff :
    c.subscribesTo topic = true ↔ ∃ f ∈ c.filters, Filter.covers f topic = true :=
  List.any_eq_true

/-- One more filter adds the topics that it covers. -/
theorem Client.subscribesTo_append :
    subscribesTo { c with filters := c.filters ++ [filter] } topic = true ↔
      c.subscribesTo topic = true ∨ Filter.covers filter topic = true := by
  rw [subscribesTo, List.any_append, Bool.or_eq_true, List.any_cons, List.any_nil, Bool.or_false]
  exact Iff.rfl

/-- One filter less can only take the topics that it covers. -/
theorem Client.subscribesTo_of_withoutFilter
    (h : (Topology.withoutFilter c filter).subscribesTo topic = true) : c.subscribesTo topic = true := by
  obtain ⟨f, hf, hcovers⟩ := Client.subscribesTo_iff.mp h
  exact Client.subscribesTo_iff.mpr ⟨f, List.mem_of_mem_filter hf, hcovers⟩

/-- A topic that the forgotten filter does not cover is covered by the others. -/
theorem Client.withoutFilter_subscribesTo (h : c.subscribesTo topic = true)
    (hnot : Filter.covers filter topic = false) :
    (Topology.withoutFilter c filter).subscribesTo topic = true := by
  obtain ⟨f, hf, hcovers⟩ := Client.subscribesTo_iff.mp h
  refine Client.subscribesTo_iff.mpr ⟨f, List.mem_filter.mpr ⟨hf, ?_⟩, hcovers⟩
  rw [bne_iff_ne]
  rintro rfl
  rw [hcovers] at hnot
  cases hnot

end Interest

/-! ## Topics and clients that agree -/

/-- Every topic lists the keys of the interested clients, each of them once. -/
structure Joined (topics : List Topic) (clients : List Client) : Prop where
  nodup : ∀ t ∈ topics, t.subscribers.Nodup
  mem_iff : ∀ t ∈ topics, ∀ key, key ∈ t.subscribers ↔ Wanted clients key t.name

namespace Joined

variable {topics topics' : List Topic} {clients clients' : List Client}

/-- Without topics there is nothing to list. -/
theorem nil (clients : List Client) : Joined [] clients where
  nodup := fun _ ht => by cases ht
  mem_iff := fun _ ht => by cases ht

/-- The order of the topics does not matter, and the clients only matter for their interest. -/
theorem congr (h : Joined topics clients) (htopics : topics'.Perm topics)
    (hclients : ∀ key topic, Wanted clients' key topic ↔ Wanted clients key topic) :
    Joined topics' clients' where
  nodup := fun t ht => h.nodup t (htopics.mem_iff.mp ht)
  mem_iff := by
    intro t ht key
    rw [hclients]
    exact h.mem_iff t (htopics.mem_iff.mp ht) key

/-- Some topics may go. -/
theorem filter (h : Joined topics clients) (p : Topic → Bool) : Joined (topics.filter p) clients where
  nodup := fun t ht => h.nodup t (List.mem_of_mem_filter ht)
  mem_iff := fun t ht => h.mem_iff t (List.mem_of_mem_filter ht)

/-- A change of the topics that keeps their names may follow a change of the clients, if it brings
every list of subscribers up to date. -/
theorem map (h : Joined topics clients) {f : Topic → Topic} (hname : ∀ t, (f t).name = t.name)
    (hnodup : ∀ t, t.subscribers.Nodup → (f t).subscribers.Nodup)
    (hmem : ∀ t, (∀ key, key ∈ t.subscribers ↔ Wanted clients key t.name) →
      ∀ key, key ∈ (f t).subscribers ↔ Wanted clients' key t.name) :
    Joined (topics.map f) clients' where
  nodup := by
    intro t' ht'
    obtain ⟨t, ht, rfl⟩ := List.mem_map.mp ht'
    exact hnodup t (h.nodup t ht)
  mem_iff := by
    intro t' ht' key
    obtain ⟨t, ht, rfl⟩ := List.mem_map.mp ht'
    rw [hname]
    exact hmem t (h.mem_iff t ht) key

/-- A change of the topics that keeps their names and subscribers changes nothing here. -/
theorem map_of_same (h : Joined topics clients) {f : Topic → Topic}
    (hname : ∀ t, (f t).name = t.name) (hsame : ∀ t, (f t).subscribers = t.subscribers) :
    Joined (topics.map f) clients := by
  refine h.map hname (fun t hnodup => ?_) (fun t hmem => ?_)
  · rwa [hsame]
  · rwa [hsame]

/-- A new topic that lists the interested clients may be added. -/
theorem cons (h : Joined topics clients) {t : Topic} (hnodup : t.subscribers.Nodup)
    (hmem : ∀ key, key ∈ t.subscribers ↔ Wanted clients key t.name) : Joined (t :: topics) clients where
  nodup := List.forall_mem_cons.mpr ⟨hnodup, h.nodup⟩
  mem_iff := List.forall_mem_cons.mpr ⟨hmem, h.mem_iff⟩

end Joined

/-! ## The subscribers of one topic -/

namespace Topic

variable {t : Topic} {key k : ClientKey}

/-- After a client has been added it is a subscriber beside those before. -/
theorem mem_addSubscriber :
    k ∈ (t.addSubscriber key).subscribers ↔ k ∈ t.subscribers ∨ k = key := by
  rw [addSubscriber]
  split
  · rename_i hknown
    rw [hasSubscriber, List.contains_iff_mem] at hknown
    constructor
    · exact Or.inl
    · rintro (hk | rfl)
      · exact hk
      · exact hknown
  · rw [List.mem_append, List.mem_singleton]

/-- Adding a client that is a subscriber already does not list it twice. -/
theorem nodup_addSubscriber (h : t.subscribers.Nodup) : (t.addSubscriber key).subscribers.Nodup := by
  rw [addSubscriber]
  split
  · exact h
  · rename_i hnew
    rw [hasSubscriber, List.contains_iff_mem] at hnew
    simpa using h.concat hnew

/-- After a client has been taken out the others are left. -/
theorem mem_removeSubscriber :
    k ∈ (t.removeSubscriber key).subscribers ↔ k ∈ t.subscribers ∧ k ≠ key := by
  rw [removeSubscriber, List.mem_filter, bne_iff_ne]

/-- Taking a client out leaves the others listed once. -/
theorem nodup_removeSubscriber (h : t.subscribers.Nodup) :
    (t.removeSubscriber key).subscribers.Nodup :=
  h.filter _

end Topic

namespace Topology

variable {s s' : Topology} {c c' : Client} {topic filter : String}

/-- Receiving bytes leaves the subscribers of a topic alone. -/
@[simp] theorem subscribers_received (retain : Bool) (bytes : Nat) (isNew : Bool) (t : Topic) :
    (received retain bytes isNew t).subscribers = t.subscribers := by
  rw [received]
  split <;> rfl

/-- The clients that a new topic is delivered to are the interested ones. -/
theorem mem_interested_iff {key : ClientKey} :
    key ∈ s.interested topic ↔ Wanted s.clients key topic := by
  rw [interested, List.mem_map]
  constructor
  · rintro ⟨c, hc, hkey⟩
    obtain ⟨hc, hwants⟩ := List.mem_filter.mp hc
    exact ⟨c, hc, hkey, hwants⟩
  · rintro ⟨c, hc, hkey, hwants⟩
    exact ⟨c, List.mem_filter.mpr ⟨hc, hwants⟩, hkey⟩

/-! ## Every effect keeps the lists up to date -/

/-- Replacing a client by one with the same key and filters keeps the interest of all clients. -/
theorem Replaces.wanted_iff (h : Replaces s s' c c') (hkey : c'.key = c.key)
    (hfilters : c'.filters = c.filters) (key : ClientKey) (topic : String) :
    Wanted s'.clients key topic ↔ Wanted s.clients key topic := by
  obtain ⟨others, hbefore, hafter⟩ := h
  rw [Wanted, Wanted, keyed_congr hbefore, keyed_congr hafter, keyed_cons, keyed_cons, hkey,
    Client.subscribesTo, Client.subscribesTo, hfilters]

/-- A client that leaves is no longer listed. -/
theorem joined_disconnected (hs : s.WellFormed) (hclients : s.clients.Perm (c :: s'.clients))
    (h : Joined s.topics.values s.clients) :
    Joined (s.topics.values.map fun t =>
      (t.removeSubscriber c.key).detachTimes s.idleBudget (c.publications.count t.name))
      s'.clients := by
  refine h.map (fun t => Topic.name_detachTimes) (fun t hnodup => ?_) (fun t hmem key => ?_)
  · rw [Topic.subscribers_detachTimes]
    exact Topic.nodup_removeSubscriber hnodup
  · have hnodup := (hclients.map Client.key).nodup_iff.mp hs.keys_nodup
    rw [Topic.subscribers_detachTimes, Topic.mem_removeSubscriber, hmem, Wanted, Wanted,
      keyed_congr hclients, keyed_cons]
    constructor
    · rintro ⟨⟨hsame, -⟩ | hwants, hother⟩
      · exact absurd hsame.symm hother
      · exact hwants
    · intro hwants
      refine ⟨Or.inr hwants, ?_⟩
      rintro rfl
      exact not_keyed_self hnodup hwants

/-- A client that remembers one more filter is listed with the topics that it covers. -/
theorem joined_subscribed (hreplaces : Replaces s s' c { c with filters := c.filters ++ [filter] })
    (h : Joined s.topics.values s.clients) :
    Joined (s.topics.values.map (gained filter c.key)) s'.clients := by
  obtain ⟨others, hbefore, hafter⟩ := hreplaces
  refine h.map (name_gained filter c.key) (fun t hnodup => ?_) (fun t hmem key => ?_)
  · rw [gained]
    split
    · exact Topic.nodup_addSubscriber hnodup
    · exact hnodup
  · have hsame : Client.key { c with filters := c.filters ++ [filter] } = c.key := rfl
    rw [Wanted, keyed_congr hafter, keyed_cons, hsame, Client.subscribesTo_append]
    have hmem' := hmem key
    rw [Wanted, keyed_congr hbefore, keyed_cons] at hmem'
    rw [gained]
    split
    · rename_i hcovers
      rw [Topic.mem_addSubscriber, hmem', hcovers, eq_comm (a := key)]
      tauto
    · rename_i hnot
      rw [hmem', or_iff_left hnot]

/-- A client that forgets a filter is no longer listed with the topics that no other of its filters
covers. -/
theorem joined_unsubscribed (hs : s.WellFormed) (hreplaces : Replaces s s' c (withoutFilter c filter))
    (h : Joined s.topics.values s.clients) :
    Joined (s.topics.values.map (lost filter (withoutFilter c filter))) s'.clients := by
  obtain ⟨others, hbefore, hafter⟩ := hreplaces
  have hnodup := (hbefore.map Client.key).nodup_iff.mp hs.keys_nodup
  have hkey : (withoutFilter c filter).key = c.key := rfl
  refine h.map (name_lost filter _) (fun t hlisted => ?_) (fun t hmem key => ?_)
  · rw [lost]
    split
    · exact Topic.nodup_removeSubscriber hlisted
    · exact hlisted
  · have hmem' := hmem key
    rw [Wanted, keyed_congr hbefore, keyed_cons] at hmem'
    rw [Wanted, keyed_congr hafter, keyed_cons, hkey, lost]
    split
    · rename_i hlost
      rw [Bool.and_eq_true, Bool.not_eq_true'] at hlost
      -- the client is no longer interested, and no other client has its key
      rw [Topic.mem_removeSubscriber, hmem', hkey, hlost.2]
      constructor
      · rintro ⟨⟨hsame, -⟩ | hwants, hother⟩
        · exact absurd hsame.symm hother
        · exact Or.inr hwants
      · rintro (⟨-, hnever⟩ | hwants)
        · cases hnever
        · refine ⟨Or.inr hwants, ?_⟩
          rintro rfl
          exact not_keyed_self hnodup hwants
    · rename_i hkept
      rw [Bool.and_eq_true, Bool.not_eq_true', not_and, Bool.not_eq_false] at hkept
      -- the client is interested after the change exactly if it was before
      have hiff : c.subscribesTo t.name = true ↔
          (withoutFilter c filter).subscribesTo t.name = true := by
        refine ⟨fun hwants => ?_, Client.subscribesTo_of_withoutFilter⟩
        cases hcovers : Filter.covers filter t.name with
        | true => exact hkept hcovers
        | false => exact Client.withoutFilter_subscribesTo hwants hcovers
      rw [hmem', hiff]

/-- A topic that is published to for the first time is listed with the interested clients. -/
theorem joined_listed (hs : s.WellFormed) {topics : List Topic} {retain : Bool}
    (hknown : s.topics.contains topic = true ∧ topics = s.topics.values ∨
      s.topics.contains topic = false ∧ topics.Perm (s.newTopic topic retain :: s.topics.values))
    (h : Joined s.topics.values s.clients) : Joined topics s.clients := by
  rcases hknown with ⟨-, rfl⟩ | ⟨-, hperm⟩
  · exact h
  · -- clients that subscribed before the topic was known are listed at once
    refine Joined.congr (h.cons ?_ ?_) hperm fun key topic => Iff.rfl
    · rw [newTopic_eq hs]
      exact hs.interested_nodup topic
    · intro key
      rw [newTopic_eq hs]
      exact mem_interested_iff

/-- Every effect of an operation keeps the lists of subscribers up to date. -/
theorem joined_of_effect (hs : s.WellFormed) {op : Operation} (heffect : Effect op s s')
    (h : Joined s.topics.values s.clients) : Joined s'.topics.values s'.clients := by
  cases heffect with
  | nothing clients topics =>
    rwa [topics, clients]
  | connected address id bridge op_eq clients topics =>
    rw [topics]
    refine h.congr (List.Perm.refl _) fun key topic => ?_
    rw [Wanted, keyed_congr clients, keyed_cons]
    -- a client that has just connected has no filter
    exact or_iff_right fun hfresh => Bool.false_ne_true hfresh.2
  | disconnected c id address op_eq clients topics =>
    rw [topics]
    exact joined_disconnected hs clients h
  | published c published id address topic retain bytes topics op_eq replaces edges known topics_eq =>
    rw [topics_eq]
    have hlisted := joined_listed hs known h
    refine (hlisted.map_of_same (fun t => ?_) (fun t => ?_)).congr (List.Perm.refl _)
      (replaces.wanted_iff rfl rfl)
    · split
      · exact name_received _ _ _ t
      · rfl
    · split
      · exact subscribers_received _ _ _ t
      · rfl
  | subscribed c id address filter op_eq replaces topics =>
    rw [topics]
    exact joined_subscribed replaces h
  | unsubscribed c id address filter op_eq replaces topics =>
    rw [topics]
    exact joined_unsubscribed hs replaces h
  | probed c latency replaces topics =>
    rw [topics]
    exact h.congr (List.Perm.refl _) (replaces.wanted_iff rfl rfl)
  | sampled secs clients topics =>
    have hdetached : Joined (s.topics.values.map fun t =>
        t.detachTimes s.idleBudget ((s.expiredEdges secs).count t.name)) s.clients :=
      h.map_of_same (fun t => Topic.name_detachTimes) (fun t => Topic.subscribers_detachTimes)
    have hleft := (hdetached.filter fun t => !t.isDrained).map_of_same
      (f := fun t => t.drain.sampled secs) (fun t => Topic.name_drain)
      (fun t => Topic.subscribers_drain)
    refine hleft.congr topics fun key topic => ?_
    rw [clients]
    exact keyed_map (fun c => Client.key_sampled c secs) fun c => Iff.rfl

/-! ## Every run -/

/-- The lists of subscribers are up to date after every run. -/
theorem joined_run (idleBudget : Nat) (ops : List Operation) :
    ((empty idleBudget).run ops).WellFormed ∧
      Joined ((empty idleBudget).run ops).topics.values ((empty idleBudget).run ops).clients :=
  run_induction (P := fun s => Joined s.topics.values s.clients) (wellFormed_empty idleBudget)
    (Joined.nil _) (fun _ _ _ hs heffect h => joined_of_effect hs heffect h) ops

/-- A client is interested in a topic when a look-up finds it with a filter that covers the topic. -/
theorem wanted_clients_iff (hs : s.WellFormed) {key : ClientKey} :
    Wanted s.clients key topic ↔
      ∃ c, s.client? key.address key.id = some c ∧ ∃ f ∈ c.filters, Filter.covers f topic = true := by
  constructor
  · rintro ⟨c, hc, hkey, hwants⟩
    exact ⟨c, (client?_eq_some_iff hs).mpr ⟨hc, hkey⟩, Client.subscribesTo_iff.mp hwants⟩
  · rintro ⟨c, hfind, hwants⟩
    obtain ⟨hc, hkey⟩ := (client?_eq_some_iff hs).mp hfind
    exact ⟨c, hc, hkey, Client.subscribesTo_iff.mpr hwants⟩

/-- Lists of subscribers that are up to date name the clients with a filter that covers the topic. -/
theorem subscribers_of_joined (hs : s.WellFormed) (hjoined : Joined s.topics.values s.clients)
    {t : Topic} (ht : t ∈ s.topics.values) :
    t.subscribers.Nodup ∧ ∀ key : ClientKey, key ∈ t.subscribers ↔
      ∃ c, s.client? key.address key.id = some c ∧ ∃ f ∈ c.filters, Filter.covers f t.name = true := by
  refine ⟨hjoined.nodup t ht, fun key => ?_⟩
  rw [hjoined.mem_iff t ht, wanted_clients_iff hs]

/-- After every run a topic lists a client as its subscriber, and only once, exactly if the client
is connected and one of the filters that it remembers covers the topic. -/
theorem subscribers_run (idleBudget : Nat) (ops : List Operation) :
    ∀ t ∈ ((empty idleBudget).run ops).topics.values,
      t.subscribers.Nodup ∧ ∀ key : ClientKey, key ∈ t.subscribers ↔
        ∃ c, ((empty idleBudget).run ops).client? key.address key.id = some c ∧
          ∃ f ∈ c.filters, Filter.covers f t.name = true := by
  obtain ⟨hwf, hjoined⟩ := joined_run idleBudget ops
  exact fun t ht => subscribers_of_joined hwf hjoined ht

/-- A client subscribes with two filters that cover one topic, and takes one of them back. -/
def overlapping : List Operation :=
  [.addClient "10.0.0.1" "p" none, .addClient "10.0.0.2" "c" none,
    .addSubscription "c" "10.0.0.2" "a/#", .addPublish "p" "10.0.0.1" "a/b" false 5,
    .addSubscription "c" "10.0.0.2" "+/b", .removeSubscription "c" "10.0.0.2" "a/#"]

/-- The topic is still delivered to the client, for the sake of the other filter. -/
theorem subscribers_run_overlapping :
    ∃ t ∈ ((empty 3).run overlapping).topics.values, t.subscribers = [⟨"10.0.0.2", "c"⟩] ∧
      ∃ c, ((empty 3).run overlapping).client? "10.0.0.2" "c" = some c ∧
        ∃ f ∈ c.filters, Filter.covers f t.name = true := by
  have hlisted : ∃ t ∈ ((empty 3).run overlapping).topics.values,
      t.subscribers = [⟨"10.0.0.2", "c"⟩] := by decide +kernel
  obtain ⟨t, ht, hsubscribers⟩ := hlisted
  refine ⟨t, ht, hsubscribers, ?_⟩
  refine ((subscribers_run 3 overlapping t ht).2 ⟨"10.0.0.2", "c"⟩).mp ?_
  rw [hsubscribers]
  exact List.mem_singleton_self _

end Topology

end BrokerTopology
