import BrokerTopology.Proofs.Graph.Actions
/-!
# Taking back a subscription

A client that subscribes and at once unsubscribes leaves the topology exactly as it was: the filters,
the subscribers of every topic and their order, and the layout of the dictionaries. This is so because a
topic that lists the client for the sake of another filter is neither given the client twice nor loses
it, and that is known only as the lists of subscribers are up to date. What may be left is the flag of
change, which tells that some topic has had the client for a moment.

Main statement: `undo_run`.
-/

namespace BrokerTopology

/-- What is added at the end of a list and filtered out again leaves the list as it was, if it is new. -/
theorem filter_bne_append_singleton {α : Type} [DecidableEq α] {l : List α} {a : α} (hnew : a ∉ l) :
    (l ++ [a]).filter (· != a) = l := by
  have hothers : ∀ b ∈ l, (b != a) = true := by
    intro b hb
    rw [bne_iff_ne]
    rintro rfl
    exact hnew hb
  rw [List.filter_append, List.filter_eq_self.mpr hothers, List.filter_singleton, bne_self_eq_false,
    cond_false, List.append_nil]

namespace Topic

variable {t : Topic} {key : ClientKey}

/-- A subscriber that is added and taken out again leaves the list as it was, if it is new. -/
theorem removeSubscriber_addSubscriber (hnew : t.hasSubscriber key = false) :
    (t.addSubscriber key).removeSubscriber key = t := by
  have hmem : key ∉ t.subscribers := by
    rwa [hasSubscriber, List.contains_eq_mem, decide_eq_false_iff_not] at hnew
  rw [addSubscriber, hnew, if_neg Bool.false_ne_true, removeSubscriber]
  dsimp only
  rw [filter_bne_append_singleton hmem]

end Topic

namespace Topology

variable {s : Topology} {c : Client} {address id filter : String}

/-! ## The client -/

/-- A filter that is added and taken out again leaves the filters as they were, if it is new. -/
theorem withoutFilter_append (hnew : filter ∉ c.filters) :
    withoutFilter { c with filters := c.filters ++ [filter] } filter = c := by
  rw [withoutFilter]
  dsimp only
  rw [filter_bne_append_singleton hnew]

/-- Two changes of one client are one. -/
theorem modifyClient_modifyClient (s : Topology) (address id : String) (f g : Client → Client) :
    (s.modifyClient address id f).modifyClient address id g = s.modifyClient address id (g ∘ f) := by
  rw [modifyClient, modifyClient, modifyClient]
  dsimp only
  rw [Dict.modify_modify]
  refine congrArg (fun k => { s with hosts := s.hosts.modify address k }) (funext fun host => ?_)
  exact congrArg (Host.mk host.address) (Dict.modify_modify host.clients id f g)

/-- A client that is replaced by itself changes nothing. -/
theorem modifyClient_eq_self (hfind : s.client? address id = some c) :
    (s.modifyClient address id fun _ => c) = s := by
  obtain ⟨host, hhost, hclient⟩ := client?_eq_some_iff_exists.mp hfind
  have hclients : host.clients.modify id (fun _ => c) = host.clients := by
    refine Dict.modify_eq_self fun d hd => ?_
    exact Option.some.inj (hclient.symm.trans hd)
  rw [modifyClient, Dict.modify_eq_self]
  intro h hh
  obtain rfl := Option.some.inj (hhost.symm.trans hh)
  rw [hclients]

/-! ## The topics -/

/-- Whether a topic gains a client that subscribes to a filter: none of the filters that the client
already has covers the topic. -/
def gains (filter : String) (c : Client) (t : Topic) : Bool :=
  Filter.covers filter t.name && !c.subscribesTo t.name

/-- A topic that gains a client and loses it again is what it was. One that had the client already, for
the sake of another filter, does neither. -/
theorem lost_gained (h : s.Sound) (hfind : s.clientAt c.key = some c) {t : Topic}
    (ht : t ∈ s.topics.values) : lost filter c (gained filter c.key t) = t := by
  have hlists := h.hasSubscriber_iff hfind ht
  rw [lost, name_gained, gained]
  cases hcovers : Filter.covers filter t.name with
  | false => rfl
  | true =>
    rw [if_pos rfl]
    cases hwants : c.subscribesTo t.name with
    | true => exact Topic.addSubscriber_of_hasSubscriber (hlists.mpr hwants)
    | false =>
      refine Topic.removeSubscriber_addSubscriber ?_
      rw [← Bool.not_eq_true, hlists, hwants]
      exact Bool.false_ne_true

/-- The topics that gain a client are those that the filter covers and that do not list it. -/
theorem any_gains_eq (h : s.Sound) (hfind : s.clientAt c.key = some c) (filter : String) :
    (s.topics.values.any fun t => Filter.covers filter t.name && !t.hasSubscriber c.key) =
      s.topics.values.any (gains filter c) := by
  rw [Bool.eq_iff_iff, List.any_eq_true, List.any_eq_true]
  refine exists_congr fun t => and_congr_right fun ht => ?_
  rw [gains, Bool.eq_iff_iff.mpr (h.hasSubscriber_iff hfind ht)]

/-- A topic that loses the client has gained it before, so that the flag of change is set already. -/
theorem any_gains_of_any_lost {topics : List Topic}
    (h : ((topics.map (gained filter c.key)).any fun t =>
      (Filter.covers filter t.name && !c.subscribesTo t.name) && t.hasSubscriber c.key) = true) :
    topics.any (gains filter c) = true := by
  obtain ⟨t', ht', hlost⟩ := List.any_eq_true.mp h
  obtain ⟨t, ht, rfl⟩ := List.mem_map.mp ht'
  rw [name_gained, Bool.and_eq_true] at hlost
  exact List.any_eq_true.mpr ⟨t, ht, hlost.1⟩

/-! ## The topology -/

/-- A subscription on a filter that is new to the client may be taken back, and what is left of it is
the flag of change, if some topic has gained the client. -/
theorem removeSubscription_addSubscription (h : s.Sound) (hfind : s.client? address id = some c)
    (hnew : filter ∉ c.filters) :
    ∃ s₁, s.addSubscription id address filter = (.ok .applied, s₁) ∧
      s₁.removeSubscription id address filter =
        (.ok .applied, s.markIf (s.topics.values.any (gains filter c))) := by
  have hs := h.wellFormed
  obtain ⟨-, hkey⟩ := (client?_eq_some_iff hs).mp hfind
  have hfind' : s.clientAt c.key = some c := by
    rw [hkey]
    exact hfind
  obtain ⟨s₁, hadd, hs₁, hreplaces, -⟩ := addSubscription_spec hs hfind hnew
  have hfind₁ : s₁.client? address id = some { c with filters := c.filters ++ [filter] } := by
    have hclientAt := hreplaces.clientAt hs hs₁ rfl hkey ⟨address, id⟩
    rwa [if_pos rfl] at hclientAt
  have hmem : filter ∈ c.filters ++ [filter] := List.mem_append_right _ (List.mem_singleton_self filter)
  obtain rfl := (Prod.mk.inj (hadd.symm.trans (addSubscription_of_not_mem hfind hnew))).2
  have hhosts : ((s.modifyClient address id fun c =>
      { c with filters := c.filters ++ [filter] }).modifyClient address id fun _ => c).hosts =
      s.hosts := by
    rw [modifyClient_modifyClient]
    exact congrArg Topology.hosts (modifyClient_eq_self hfind)
  have htopics : (s.topics.map (gained filter c.key)).map (lost filter c) = s.topics := by
    rw [Dict.map_map]
    exact Dict.map_eq_self fun t ht => lost_gained h hfind' ht
  refine ⟨_, hadd, (removeSubscription_of_mem hfind₁ hmem).trans (congrArg (Prod.mk _) ?_)⟩
  have hchanged : ((s.changed || s.topics.values.any fun t =>
      Filter.covers filter t.name && !t.hasSubscriber c.key) ||
      (s.topics.map (gained filter c.key)).values.any fun t =>
        (Filter.covers filter t.name && !c.subscribesTo t.name) && t.hasSubscriber c.key) =
      (s.changed || s.topics.values.any (gains filter c)) := by
    rw [any_gains_eq h hfind', Dict.values_map, Bool.or_assoc,
      Bool.or_eq_left_iff_imp.mpr any_gains_of_any_lost]
  rw [withoutFilter_append hnew, markIf, Topology.mk.injEq]
  exact ⟨hhosts, htopics, rfl, hchanged⟩

/-- Some topic gains a client if the filter covers it and none of those that the client has does. -/
theorem any_gains_iff {topics : List Topic} :
    topics.any (gains filter c) = true ↔
      ∃ t ∈ topics, Filter.covers filter t.name = true ∧
        ∀ f ∈ c.filters, Filter.covers f t.name = false := by
  rw [List.any_eq_true]
  refine exists_congr fun t => and_congr_right fun _ => ?_
  rw [gains, Bool.and_eq_true, Bool.not_eq_true', Client.subscribesTo, List.any_eq_false]
  simp only [Bool.not_eq_true]

/-- After every run, a client may subscribe on a filter that it does not have and unsubscribe again. The
topology is then exactly what it was, but for the flag of change: this is set if it was set before, or if
the filter covers a listed topic that no other filter of the client covers. -/
theorem undo_run {idleBudget : Nat} {ops : List Operation} (hrun : s = (empty idleBudget).run ops)
    (hfind : s.client? address id = some c) (hnew : filter ∉ c.filters) :
    ∃ s₁ s₂, s.addSubscription id address filter = (.ok .applied, s₁) ∧
      s₁.removeSubscription id address filter = (.ok .applied, s₂) ∧
      s₂ = { s with changed := s₂.changed } ∧
      (s₂.changed = true ↔ s.changed = true ∨
        ∃ t ∈ s.topics.values, Filter.covers filter t.name = true ∧
          ∀ f ∈ c.filters, Filter.covers f t.name = false) := by
  have h : s.Sound := by
    rw [hrun]
    exact (sound_empty idleBudget).run ops
  obtain ⟨s₁, hadd, hremove⟩ := removeSubscription_addSubscription h hfind hnew
  refine ⟨s₁, _, hadd, hremove, rfl, ?_⟩
  rw [markIf, Bool.or_eq_true, any_gains_iff]

/-- A client has a filter that covers one of two topics, and the document is up to date. -/
def halfCovered : List Operation :=
  [.addClient "10.0.0.1" "p" none, .addClient "10.0.0.2" "c" none,
    .addSubscription "c" "10.0.0.2" "a/#", .addPublish "p" "10.0.0.1" "a/b" false 5,
    .addPublish "p" "10.0.0.1" "x/b" false 5, .takeChanged]

/-- It subscribes on a filter that covers both and unsubscribes again. The other topic has had it for a
moment, so that the flag of change is set, and all else is as it was. -/
theorem undo_run_halfCovered :
    ∃ c s₁ s₂, ((empty 3).run halfCovered).client? "10.0.0.2" "c" = some c ∧ "+/b" ∉ c.filters ∧
      ((empty 3).run halfCovered).addSubscription "c" "10.0.0.2" "+/b" = (.ok .applied, s₁) ∧
      s₁.removeSubscription "c" "10.0.0.2" "+/b" = (.ok .applied, s₂) ∧
      ((empty 3).run halfCovered).changed = false ∧
      s₂ = { (empty 3).run halfCovered with changed := true } := by
  have hfilters : (((empty 3).run halfCovered).client? "10.0.0.2" "c").map Client.filters =
      some ["a/#"] := by decide +kernel
  obtain ⟨c, hfind, hc⟩ := Option.map_eq_some_iff.mp hfilters
  have hnew : "+/b" ∉ c.filters := by
    rw [hc]
    decide
  have hlisted : ∃ t ∈ ((empty 3).run halfCovered).topics.values, t.name = "x/b" := by decide +kernel
  obtain ⟨t, ht, hname⟩ := hlisted
  obtain ⟨s₁, s₂, hadd, hremove, hsame, hchanged⟩ := undo_run rfl hfind hnew
  have hgained : Filter.covers "+/b" t.name = true ∧ ∀ f ∈ c.filters, Filter.covers f t.name = false := by
    rw [hname, hc]
    decide +kernel
  rw [hchanged.mpr (Or.inr ⟨t, ht, hgained⟩)] at hsame
  exact ⟨c, s₁, s₂, hfind, hnew, hadd, hremove, by decide +kernel, hsame⟩

end Topology

end BrokerTopology
