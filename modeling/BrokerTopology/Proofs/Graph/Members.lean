import BrokerTopology.Proofs.Graph.Run
/-!
# Members and names

For the broker a client of the topology is its key with the filters that it remembers, a member, and
a topic is its name. This file says which members there are after an operation, and which names the
topics may have.
-/

namespace BrokerTopology

namespace Topology

/-! ## Members -/

/-- Some client has a given key and remembers given filters. -/
def Member (s : Topology) (key : ClientKey) (filters : List String) : Prop :=
  Keyed s.clients key fun c => c.filters = filters

variable {s s' : Topology} {c c' : Client} {address id : String} {key : ClientKey}
  {filters : List String}

/-- A client that a look-up finds is the only member with its key. -/
theorem member_iff_of_client? (hs : s.WellFormed) (hfind : s.client? key.address key.id = some c) :
    s.Member key filters ↔ c.filters = filters := by
  obtain ⟨hc, hkey⟩ := (client?_eq_some_iff hs).mp hfind
  constructor
  · rintro ⟨d, hd, hsame, hfilters⟩
    rw [hs.eq_of_key_eq hc hd (hkey.trans hsame.symm)]
    exact hfilters
  · intro hfilters
    exact ⟨c, hc, hkey, hfilters⟩

/-- Where a client is replaced by one with the same key, only that member changes. -/
theorem Replaces.member_iff (hs : s.WellFormed) (h : Replaces s s' c c') (hkey : c'.key = c.key) :
    s'.Member key filters ↔ if key = c.key then c'.filters = filters else s.Member key filters := by
  obtain ⟨others, hbefore, hafter⟩ := h
  have hnodup := (hbefore.map Client.key).nodup_iff.mp hs.keys_nodup
  rw [Member, Member, keyed_congr hafter, keyed_congr hbefore, keyed_cons, keyed_cons, hkey]
  by_cases hsame : key = c.key
  · -- the others have other keys
    subst hsame
    rw [if_pos rfl, or_iff_left (not_keyed_self hnodup), and_iff_right rfl]
  · have hother : c.key ≠ key := fun h => hsame h.symm
    simp [hsame, hother]

/-- Where the replacement remembers the same filters, the members stay. -/
theorem Replaces.member_iff_of_eq (h : Replaces s s' c c') (hkey : c'.key = c.key)
    (hfilters : c'.filters = c.filters) : s'.Member key filters ↔ s.Member key filters := by
  obtain ⟨others, hbefore, hafter⟩ := h
  rw [Member, Member, keyed_congr hafter, keyed_congr hbefore, keyed_cons, keyed_cons, hkey, hfilters]

/-! ## Members after an operation -/

/-- A client that connects is a new member without filters. -/
theorem member_addClient (hs : s.WellFormed) (hnew : s.client? address id = none)
    (bridge : Option String) :
    (s.addClient address id bridge).2.Member key filters ↔
      (key = ⟨address, id⟩ ∧ filters = []) ∨ s.Member key filters := by
  obtain ⟨s', hanswer, -, hclients, -⟩ := addClient_spec hs hnew bridge
  rw [hanswer, Member, keyed_congr hclients, keyed_cons]
  exact or_congr_left (and_congr eq_comm eq_comm)

/-- A client that disconnects is no member any more. -/
theorem member_removeClient (hs : s.WellFormed) (hfind : s.client? address id = some c) :
    (s.removeClient id address).2.Member key filters ↔
      key ≠ ⟨address, id⟩ ∧ s.Member key filters := by
  obtain ⟨hc, hkey⟩ := (client?_eq_some_iff hs).mp hfind
  obtain ⟨s', hanswer, -, hclients, -⟩ := removeClient_spec hs hfind
  have hnodup := (hclients.map Client.key).nodup_iff.mp hs.keys_nodup
  rw [hanswer, Member, Member, keyed_congr hclients, keyed_cons, hkey]
  constructor
  · intro hmember
    refine ⟨?_, Or.inr hmember⟩
    rintro rfl
    rw [← hkey] at hmember
    exact not_keyed_self hnodup hmember
  · rintro ⟨hother, ⟨hsame, -⟩ | hmember⟩
    · exact absurd hsame.symm hother
    · exact hmember

/-- A client that subscribes remembers the filter, once. -/
theorem member_addSubscription (hs : s.WellFormed) (hfind : s.client? address id = some c)
    (filter : String) :
    (s.addSubscription id address filter).2.Member key filters ↔
      if key = ⟨address, id⟩
      then (if c.filters.contains filter then c.filters else c.filters ++ [filter]) = filters
      else s.Member key filters := by
  obtain ⟨hc, hkey⟩ := (client?_eq_some_iff hs).mp hfind
  by_cases hmem : filter ∈ c.filters
  · rw [addSubscription_of_mem hfind hmem, if_pos (List.contains_iff_mem.mpr hmem)]
    split
    · rename_i hsame
      subst hsame
      exact member_iff_of_client? hs hfind
    · exact Iff.rfl
  · obtain ⟨s', hanswer, -, hreplaces, -⟩ := addSubscription_spec hs hfind hmem
    rw [hanswer, hreplaces.member_iff hs rfl, hkey,
      if_neg (mt List.contains_iff_mem.mp hmem)]

/-- A client that unsubscribes forgets the filter. -/
theorem member_removeSubscription (hs : s.WellFormed) (hfind : s.client? address id = some c)
    (filter : String) :
    (s.removeSubscription id address filter).2.Member key filters ↔
      if key = ⟨address, id⟩ then c.filters.filter (· != filter) = filters
      else s.Member key filters := by
  obtain ⟨hc, hkey⟩ := (client?_eq_some_iff hs).mp hfind
  by_cases hmem : filter ∈ c.filters
  · obtain ⟨s', hanswer, -, hreplaces, -⟩ := removeSubscription_spec hs hfind hmem
    rw [hanswer, hreplaces.member_iff hs rfl, hkey]
    rfl
  · -- a filter that is not remembered is not missed
    have hkept : c.filters.filter (· != filter) = c.filters := by
      rw [List.filter_eq_self]
      intro f hf
      rw [bne_iff_ne]
      rintro rfl
      exact hmem hf
    rw [removeSubscription_of_not_mem hfind hmem, hkept]
    split
    · rename_i hsame
      subst hsame
      exact member_iff_of_client? hs hfind
    · exact Iff.rfl

/-- The operations that concern neither connections nor subscriptions. -/
def Operation.keepsMembers : Operation → Bool
  | .addClient .. | .removeClient .. | .addSubscription .. | .removeSubscription .. => false
  | .addPublish .. | .startProbe .. | .finishProbe .. | .sample .. | .takeChanged => true

/-- Publishing, probing and sampling keep the members. -/
theorem Effect.member_iff {op : Operation} (h : Effect op s s') (hop : op.keepsMembers = true) :
    s'.Member key filters ↔ s.Member key filters := by
  cases h with
  | nothing clients topics => rw [Member, Member, clients]
  | connected address id bridge op_eq => subst op_eq; cases hop
  | disconnected c id address op_eq => subst op_eq; cases hop
  | published c published id address topic retain bytes topics op_eq replaces =>
    exact replaces.member_iff_of_eq rfl rfl
  | subscribed c id address filter op_eq => subst op_eq; cases hop
  | unsubscribed c id address filter op_eq => subst op_eq; cases hop
  | probed c latency replaces => exact replaces.member_iff_of_eq rfl rfl
  | sampled secs clients =>
    rw [Member, Member, clients]
    exact keyed_map (fun c => Client.key_sampled c secs) fun c => Iff.rfl

/-! ## Names after an operation -/

/-- The names of some topics are among those of others. -/
theorem exists_name_eq_of_map {topics : List Topic} {f : Topic → Topic}
    (hname : ∀ t, (f t).name = t.name) : ∀ t' ∈ topics.map f, ∃ t ∈ topics, t.name = t'.name := by
  intro t' ht'
  obtain ⟨t, ht, rfl⟩ := List.mem_map.mp ht'
  exact ⟨t, ht, (hname t).symm⟩

/-- Only publishing lists a topic under a new name, which is the one published to. -/
theorem Effect.listed {op : Operation} (h : Effect op s s') (hs : s.WellFormed) :
    ∀ t' ∈ s'.topics.values, (∃ t ∈ s.topics.values, t.name = t'.name) ∨
      ∃ id address retain bytes, op = .addPublish id address t'.name retain bytes := by
  intro t' ht'
  cases h with
  | nothing clients topics =>
    rw [topics] at ht'
    exact Or.inl ⟨t', ht', rfl⟩
  | connected address id bridge op_eq clients topics =>
    rw [topics] at ht'
    exact Or.inl ⟨t', ht', rfl⟩
  | disconnected c id address op_eq clients topics =>
    rw [topics] at ht'
    refine Or.inl (exists_name_eq_of_map (fun t => ?_) t' ht')
    exact Topic.name_detachTimes
  | published c published id address topic retain bytes topics op_eq replaces edges known topics_eq =>
    rw [topics_eq] at ht'
    obtain ⟨t, ht, hname⟩ := exists_name_eq_of_map (fun t => by split <;> simp) t' ht'
    rcases known with ⟨-, rfl⟩ | ⟨-, hperm⟩
    · exact Or.inl ⟨t, ht, hname⟩
    · -- the topic is either the new one or was listed before
      rcases List.mem_cons.mp (hperm.mem_iff.mp ht) with rfl | ht
      · rw [newTopic_eq hs] at hname
        refine Or.inr ⟨id, address, retain, bytes, ?_⟩
        rw [← hname]
        exact op_eq
      · exact Or.inl ⟨t, ht, hname⟩
  | subscribed c id address filter op_eq replaces topics =>
    rw [topics] at ht'
    exact Or.inl (exists_name_eq_of_map (name_gained filter c.key) t' ht')
  | unsubscribed c id address filter op_eq replaces topics =>
    rw [topics] at ht'
    exact Or.inl (exists_name_eq_of_map (name_lost filter _) t' ht')
  | probed c latency replaces topics =>
    rw [topics] at ht'
    exact Or.inl ⟨t', ht', rfl⟩
  | sampled secs clients topics =>
    obtain ⟨t, ht, rfl⟩ := List.mem_map.mp (topics.mem_iff.mp ht')
    have hname : (t.drain.sampled secs).name = t.name := Topic.name_drain
    rw [hname]
    exact Or.inl (exists_name_eq_of_map (fun t => Topic.name_detachTimes) t (List.mem_of_mem_filter ht))

end Topology

end BrokerTopology
