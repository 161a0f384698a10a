import Mathlib.Data.Multiset.Basic
import BrokerTopology.Graph.Render
import BrokerTopology.Proofs.Graph.Commute
/-!
# The content of a topology

Two topologies have the same content if they file the same under the same keys. They may differ in the
layout of their dictionaries, which shows in the order in which these are listed, and in the order of the
subscribers of a topic. What can be asked of a topology, and its document, follow from the content up to
order.
-/

namespace BrokerTopology

/-! ## The same content -/

/-- Two clients agree, up to the layout of their edges. -/
structure Client.SameContent (c c' : Client) : Prop where
  id : c.id = c'.id
  address : c.address = c'.address
  bridge : c.bridge = c'.bridge
  filters : c.filters = c'.filters
  published : c.published.Alike Eq c'.published
  latency : c.latency = c'.latency

/-- Two hosts have one address and clients that agree, in any layout. -/
structure Host.SameContent (h h' : Host) : Prop where
  address : h.address = h'.address
  clients : h.clients.Alike Client.SameContent h'.clients

/-- Two topics agree, up to the order of their subscribers. -/
def Topic.SameContent (t t' : Topic) : Prop :=
  Topic.Alike (fun _ => False) t t'

/-- Two topologies agree, up to layout and the order of subscribers. -/
structure Topology.SameContent (s s' : Topology) : Prop where
  hosts : s.hosts.Alike Host.SameContent s'.hosts
  topics : s.topics.Alike Topic.SameContent s'.topics
  idleBudget : s.idleBudget = s'.idleBudget
  changed : s.changed = s'.changed

/-! ## Lists with look-ups -/

/-- Two lists have the same image, up to order, if they have the same names and the same is found under
each name, as far as the image shows it. -/
theorem map_perm_of_lookup {α β κ : Type} {l l' : List α} {name : α → κ} {look look' : κ → Option α}
    {f : α → β} (hl : ∀ v ∈ l, look (name v) = some v) (hl' : ∀ v ∈ l', look' (name v) = some v)
    (hnames : (l.map name).Perm (l'.map name)) (hsame : ∀ k, (look k).map f = (look' k).map f) :
    (l.map f).Perm (l'.map f) := by
  have hlisted : ∀ {l : List α} {look : κ → Option α}, (∀ v ∈ l, look (name v) = some v) →
      l.map f = (l.map name).filterMap fun k => (look k).map f := by
    intro l look hl
    rw [List.filterMap_map, ← List.filterMap_eq_map]
    refine List.filterMap_congr fun v hv => ?_
    simp [hl v hv]
  rw [hlisted hl, hlisted hl', funext hsame]
  exact hnames.filterMap _

/-- Whether some value satisfies a predicate does not depend on the order of its answers. -/
theorem any_eq_of_map_perm {α : Type} {l l' : List α} {p : α → Bool}
    (h : (l.map p).Perm (l'.map p)) : l.any p = l'.any p := by
  have hany := h.any_eq (f := fun b => b)
  rwa [List.any_map, List.any_map] at hany

/-- How many values satisfy a predicate does not depend on the order of its answers. -/
theorem countP_eq_of_map_perm {α : Type} {l l' : List α} {p : α → Bool}
    (h : (l.map p).Perm (l'.map p)) : l.countP p = l'.countP p := by
  have hcount := h.countP_eq fun b => b
  rwa [List.countP_map, List.countP_map] at hcount

/-- Related look-ups have one image under a function that does not tell related values apart. -/
theorem map_eq_of_rel {α β : Type} {R : α → α → Prop} {o o' : Option α} {f : α → β}
    (h : Option.Rel R o o') (hf : ∀ v v', o = some v → o' = some v' → R v v' → f v = f v') :
    o.map f = o'.map f := by
  rcases Dict.rel_cases h with ⟨hnone, hnone'⟩ | ⟨v, v', hv, hv', hrel⟩
  · rw [hnone, hnone']
  · rw [hv, hv', Option.map_some, Option.map_some, hf v v' hv hv' hrel]

/-- Where related values are filed, they have the same image up to order under a function that does not
tell related values apart. -/
theorem Dict.Alike.map_values_perm {α β : Type} {d d' : Dict α} {R : α → α → Prop} {name : α → String}
    (halike : d.Alike R d') (h : d.NamedBy name) (h' : d'.NamedBy name) {f : α → β}
    (hf : ∀ v ∈ d.values, ∀ v' ∈ d'.values, R v v' → f v = f v') :
    (d.values.map f).Perm (d'.values.map f) := by
  have hmem : ∀ {d : Dict α}, d.NamedBy name → ∀ {key v}, d.find? key = some v → v ∈ d.values :=
    fun h _ _ hfind => (h.find?_eq_some_iff.mp hfind).1
  have hfound : ∀ v ∈ d.values, d.find? (name v) = some v :=
    fun v hv => h.find?_eq_some_iff.mpr ⟨hv, rfl⟩
  have hfound' : ∀ v ∈ d'.values, d'.find? (name v) = some v :=
    fun v hv => h'.find?_eq_some_iff.mpr ⟨hv, rfl⟩
  refine map_perm_of_lookup hfound hfound' ?_ fun key => ?_
  · rw [h.names_eq_keys, h'.names_eq_keys]
    exact halike.keys
  · exact map_eq_of_rel (halike.find? key) fun v v' hv hv' => hf v (hmem h hv) v' (hmem h' hv')

/-! ## Nodes with the same content -/

namespace Client.SameContent

variable {c c' : Client}

/-- A client agrees with itself. -/
theorem refl (hc : c.WellFormed) : SameContent c c :=
  ⟨rfl, rfl, rfl, rfl,
    Dict.alike_of_find? hc.published.toWellFormed hc.published.toWellFormed fun _ => Dict.rel_eq_of_eq rfl,
    rfl⟩

/-- Clients that agree have the same edges. -/
theorem find?_published (h : SameContent c c') (topic : String) :
    c.published.find? topic = c'.published.find? topic := by
  rcases Dict.rel_cases (h.published.find? topic) with ⟨hnone, hnone'⟩ | ⟨e, e', he, he', rfl⟩
  · rw [hnone, hnone']
  · rw [he, he']

/-- Clients that agree publish to the same topics. -/
theorem contains_published (h : SameContent c c') (topic : String) :
    c.published.contains topic = c'.published.contains topic := by
  rw [Dict.contains, Dict.contains, h.find?_published]

/-- Clients that agree are interested in the same topics. -/
theorem subscribesTo (h : SameContent c c') (topic : String) :
    c.subscribesTo topic = c'.subscribesTo topic := by
  rw [Client.subscribesTo, Client.subscribesTo, h.filters]

end Client.SameContent

namespace Topic

variable {t t' : Topic}

/-- Topics agree if one is the other with its subscribers in another order. -/
theorem sameContent_iff :
    SameContent t t' ↔ ∃ l, t.subscribers.Perm l ∧ t' = { t with subscribers := l } := by
  constructor
  · intro h
    obtain ⟨hname, hretain, hpublishers, hstate, hbytes, hrate, hperm⟩ := h
    refine ⟨t'.subscribers, hperm, ?_⟩
    rw [hname, hretain not_false, hpublishers, hstate, UInt64.toNat_inj.mp hbytes, hrate]
  · rintro ⟨l, hperm, rfl⟩
    exact ⟨rfl, fun _ => rfl, rfl, rfl, rfl, rfl, hperm⟩

/-- Topics that agree have one ledger. -/
theorem SameContent.ledger (h : SameContent t t') (budget : Nat) : t.ledger budget = t'.ledger budget := by
  obtain ⟨l, -, rfl⟩ := sameContent_iff.mp h
  rfl

end Topic

namespace Topology

variable {s s' : Topology} {key : ClientKey}

namespace SameContent

/-! ## Look-ups -/

/-- Clients that agree are found under the same keys. -/
theorem clientAt (e : SameContent s s') (key : ClientKey) :
    Option.Rel Client.SameContent (s.clientAt key) (s'.clientAt key) := by
  rw [Topology.clientAt, Topology.clientAt, client?, client?]
  rcases Dict.rel_cases (e.hosts.find? key.address) with
    ⟨hnone, hnone'⟩ | ⟨host, host', hhost, hhost', hsame⟩
  · rw [hnone, hnone']
    exact .none
  · rw [hhost, hhost']
    exact hsame.clients.find? key.id

/-- The same is missing. -/
theorem findClient_eq_error (e : SameContent s s') {address id : String} {failure : Failure}
    (h : s.findClient address id = .error failure) : s'.findClient address id = .error failure := by
  rw [findClient] at h ⊢
  rcases Dict.rel_cases (e.hosts.find? address) with
    ⟨hnone, hnone'⟩ | ⟨host, host', hhost, hhost', hsame⟩
  · rw [hnone] at h
    rw [hnone']
    exact h
  · rw [hhost] at h
    rw [hhost']
    dsimp only at h ⊢
    rcases Dict.rel_cases (hsame.clients.find? id) with ⟨hnone, hnone'⟩ | ⟨c, c', hc, -, -⟩
    · rw [hnone] at h
      rw [hnone']
      exact h
    · rw [hc] at h
      cases h

/-- The ledgers are the same. -/
theorem ledger? (e : SameContent s s') (name : String) : s.ledger? name = s'.ledger? name := by
  rw [Topology.ledger?, Topology.ledger?, ← e.idleBudget]
  exact map_eq_of_rel (e.topics.find? name) fun t t' _ _ hsame => hsame.ledger s.idleBudget

/-- The same topics are listed. -/
theorem listed_iff (e : SameContent s s') (topic : String) : s.Listed topic ↔ s'.Listed topic := by
  rw [Listed, Listed, Dict.contains, Dict.contains, Dict.isSome_eq_of_rel (e.topics.find? topic)]

end SameContent

/-! ## All clients -/

section Clients

variable (hs : s.WellFormed) (hs' : s'.WellFormed)
  (hclients : ∀ key, Option.Rel Client.SameContent (s.clientAt key) (s'.clientAt key))

include hs hs' hclients

/-- Where clients that agree are found, they have the same image up to order under a function that does
not tell them apart. -/
theorem map_clients_perm {β : Type} {f : Client → β}
    (hf : ∀ c ∈ s.clients, ∀ c' ∈ s'.clients, Client.SameContent c c' → f c = f c') :
    (s.clients.map f).Perm (s'.clients.map f) := by
  have hkey : ∀ {s : Topology}, s.WellFormed → ∀ key,
      (key ∈ s.clients.map Client.key ↔ (s.clientAt key).isSome = true) := by
    intro s hs key
    simp only [List.mem_map, Option.isSome_iff_exists, clientAt_eq_some_iff hs]
  refine map_perm_of_lookup (fun c hc => (clientAt_eq_some_iff hs).mpr ⟨hc, rfl⟩)
    (fun c hc => (clientAt_eq_some_iff hs').mpr ⟨hc, rfl⟩) ?_ fun key => ?_
  · refine (List.perm_ext_iff_of_nodup hs.keys_nodup hs'.keys_nodup).mpr fun key => ?_
    rw [hkey hs, hkey hs', Dict.isSome_eq_of_rel (hclients key)]
  · exact map_eq_of_rel (hclients key) fun c c' hc hc' =>
      hf c ((clientAt_eq_some_iff hs).mp hc).1 c' ((clientAt_eq_some_iff hs').mp hc').1

/-- Then every topic has the same publishers. -/
theorem publisherCount_eq (topic : String) : s.publisherCount topic = s'.publisherCount topic := by
  have hperm := map_clients_perm hs hs' hclients (f := fun c => c.published.contains topic)
    fun c _ c' _ hsame => hsame.contains_published topic
  rw [publisherCount, publisherCount, ← List.countP_eq_length_filter, ← List.countP_eq_length_filter]
  exact countP_eq_of_map_perm hperm

/-- Then the same edges are there. -/
theorem publications_perm_of_rel : s.publications.Perm s'.publications := by
  rw [List.perm_iff_count]
  intro topic
  rw [← publisherCount_eq_count hs, ← publisherCount_eq_count hs', publisherCount_eq hs hs' hclients]

/-- Then the same clients are interested in a topic. -/
theorem wanted_iff_of_rel (key : ClientKey) (topic : String) :
    Wanted s.clients key topic ↔ Wanted s'.clients key topic := by
  have hrel := hclients key
  rw [clientAt, clientAt] at hrel
  rw [wanted_clients_iff hs, wanted_clients_iff hs']
  rcases Dict.rel_cases hrel with ⟨hnone, hnone'⟩ | ⟨c, c', hc, hc', hsame⟩
  · simp [hnone, hnone']
  · simp [hc, hc', hsame.filters]

end Clients

/-- Sound topologies have the same content if clients that agree are found, and ledgers, budget and flag
are the same. -/
theorem sameContent_of_sound (h : s.Sound) (h' : s'.Sound)
    (hclients : ∀ key, Option.Rel Client.SameContent (s.clientAt key) (s'.clientAt key))
    (hledgers : ∀ name, s.ledger? name = s'.ledger? name) (hbudget : s.idleBudget = s'.idleBudget)
    (hchanged : s.changed = s'.changed) : SameContent s s' where
  hosts := hosts_alike_of_rel h.wellFormed h'.wellFormed hclients fun _ _ => Host.SameContent.mk
  topics := by
    refine topics_alike h h' (publications_perm_of_rel h.wellFormed h'.wellFormed hclients)
      (wanted_iff_of_rel h.wellFormed h'.wellFormed hclients) hbudget (fun name => ?_)
      fun name => False.elim
    rw [hledgers name]
    exact rel_alikeUnless_refl _ _
  idleBudget := hbudget
  changed := hchanged

/-! ## Queries -/

/-- Two topologies answer every query alike, up to layout and order. -/
structure SameAnswers (s s' : Topology) : Prop where
  host : ∀ address, Option.Rel Host.SameContent (s.hosts.find? address) (s'.hosts.find? address)
  client : ∀ address id, Option.Rel Client.SameContent (s.client? address id) (s'.client? address id)
  topic : ∀ name, Option.Rel Topic.SameContent (s.topics.find? name) (s'.topics.find? name)
  hostCount : s.hostCount = s'.hostCount
  clientCount : s.clientCount = s'.clientCount
  topicCount : s.topicCount = s'.topicCount
  publisherCount : ∀ topic, s.publisherCount topic = s'.publisherCount topic
  subscribers : ∀ topic, (s.subscribers topic).Perm (s'.subscribers topic)

/-- The answers follow from the content. -/
theorem SameContent.sameAnswers (e : SameContent s s') (hs : s.WellFormed) (hs' : s'.WellFormed) :
    SameAnswers s s' where
  host := e.hosts.find?
  client address id := e.clientAt ⟨address, id⟩
  topic := e.topics.find?
  hostCount := e.hosts.size_eq
  clientCount := by
    have hperm := e.hosts.map_values_perm hs.hosts hs'.hosts (f := fun h => h.clients.size)
      fun h _ h' _ hsame => hsame.clients.size_eq
    have hsum := hperm.foldr_eq (f := fun n m : Nat => n + m) 0
    rwa [List.foldr_map, List.foldr_map] at hsum
  topicCount := e.topics.size_eq
  publisherCount := publisherCount_eq hs hs' e.clientAt
  subscribers topic := by
    rw [Topology.subscribers, Topology.subscribers]
    rcases Dict.rel_cases (e.topics.find? topic) with ⟨hnone, hnone'⟩ | ⟨t, t', ht, ht', hsame⟩
    · rw [hnone, hnone']
    · rw [ht, ht']
      exact hsame.subscribers

end Topology

/-! ## Documents without order -/

namespace Snapshot

/-- A client in a document without order. -/
structure UnorderedClient where
  name : String
  latency : Option Float
  bridge : Option String
  published : Multiset Publication

/-- An address in a document without order. -/
structure UnorderedAddress where
  id : String
  clients : Multiset UnorderedClient

/-- A topic in a document without order. -/
structure UnorderedTopic where
  name : String
  retain : Bool
  rate : Float
  subscriptions : Multiset Subscription

/-- A document of which all arrays are without order. -/
structure Unordered where
  addresses : Multiset UnorderedAddress
  topics : Multiset UnorderedTopic

/-- A client node without order. -/
def ClientNode.unordered (c : ClientNode) : UnorderedClient :=
  ⟨c.name, c.latency, c.bridge, c.published⟩

/-- An address node without order. -/
def AddressNode.unordered (a : AddressNode) : UnorderedAddress :=
  ⟨a.id, a.clients.map ClientNode.unordered⟩

/-- A topic node without order. -/
def TopicNode.unordered (t : TopicNode) : UnorderedTopic :=
  ⟨t.name, t.retain, t.rate, t.subscriptions⟩

/-- A document without order. -/
def unordered (d : Snapshot) : Unordered :=
  ⟨d.addresses.map AddressNode.unordered, d.topics.map TopicNode.unordered⟩

/-- Clients that agree have one node, up to order. -/
theorem unordered_ofClient {c c' : Client} (h : Client.SameContent c c') (hc : c.WellFormed)
    (hc' : c'.WellFormed) : (ClientNode.ofClient c).unordered = (ClientNode.ofClient c').unordered := by
  have hedges := h.published.map_values_perm hc.published hc'.published (f := Publication.ofEdge)
    fun e _ e' _ hsame => congrArg _ hsame
  rw [ClientNode.unordered, ClientNode.unordered, ClientNode.ofClient, ClientNode.ofClient]
  dsimp only
  rw [h.id, h.latency, h.bridge, Multiset.coe_eq_coe.mpr hedges]

/-- Hosts that agree have one node, up to order. -/
theorem unordered_ofHost {h h' : Host} (hsame : Host.SameContent h h') (hh : h.WellFormed)
    (hh' : h'.WellFormed) : (AddressNode.ofHost h).unordered = (AddressNode.ofHost h').unordered := by
  have hclients := hsame.clients.map_values_perm hh.clients hh'.clients
    (f := fun c => (ClientNode.ofClient c).unordered)
    fun c hc c' hc' hsame => unordered_ofClient hsame (hh.client c hc) (hh'.client c' hc')
  rw [AddressNode.unordered, AddressNode.unordered, AddressNode.ofHost, AddressNode.ofHost]
  dsimp only
  rw [List.map_map, List.map_map, hsame.address]
  exact congrArg _ (Multiset.coe_eq_coe.mpr hclients)

/-- Topics that agree have one node, up to order. -/
theorem unordered_ofTopic {t t' : Topic} (h : Topic.SameContent t t') :
    (TopicNode.ofTopic t).unordered = (TopicNode.ofTopic t').unordered := by
  obtain ⟨l, hperm, rfl⟩ := Topic.sameContent_iff.mp h
  rw [TopicNode.unordered, TopicNode.unordered, TopicNode.ofTopic, TopicNode.ofTopic]
  dsimp only
  rw [Multiset.coe_eq_coe.mpr (hperm.map _)]

/-- Topologies with the same content have one document, up to order. -/
theorem unordered_render {s s' : Topology} (e : s.SameContent s') (hs : s.WellFormed)
    (hs' : s'.WellFormed) : (render s).unordered = (render s').unordered := by
  have hhosts := e.hosts.map_values_perm hs.hosts hs'.hosts
    (f := fun h => (AddressNode.ofHost h).unordered)
    fun h hh h' hh' hsame => unordered_ofHost hsame (hs.host h hh) (hs'.host h' hh')
  have htopics := e.topics.map_values_perm hs.topics hs'.topics
    (f := fun t => (TopicNode.ofTopic t).unordered) fun t _ t' _ hsame => unordered_ofTopic hsame
  rw [unordered, unordered, render, render]
  dsimp only
  rw [List.map_map, List.map_map, List.map_map, List.map_map]
  exact congrArg₂ Unordered.mk (Multiset.coe_eq_coe.mpr hhosts) (Multiset.coe_eq_coe.mpr htopics)

end Snapshot

end BrokerTopology
