import BrokerTopology.Graph.Topology
import BrokerTopology.Proofs.Dict.Named
/-!
# Well-formed topologies

In a well-formed topology every node is filed under its own name, in the place that its fields
name, and no address is without clients. Such a topology may be read as a list of clients, in which
no key is repeated, beside a list of topics: a look-up by address and id finds the client of the list
with that key.
-/

namespace BrokerTopology

/-! ## The nodes -/

/-- The edges of a client are filed under their topics, and no filter is remembered twice. -/
structure Client.WellFormed (c : Client) : Prop where
  published : c.published.NamedBy Edge.topic
  filters_nodup : c.filters.Nodup

/-- The clients of a host are filed under their ids and name the address of the host, and there is
at least one. -/
structure Host.WellFormed (h : Host) : Prop where
  clients : h.clients.NamedBy Client.id
  nonempty : h.clients.values ≠ []
  address_eq : ∀ c ∈ h.clients.values, c.address = h.address
  client : ∀ c ∈ h.clients.values, c.WellFormed

/-- A client that has just connected is well formed. -/
theorem Client.wellFormed_fresh (address id : String) (bridge : Option String) :
    (Client.fresh address id bridge).WellFormed where
  published := Dict.namedBy_empty Edge.topic
  filters_nodup := List.nodup_nil

/-! ## Clients by their keys -/

/-- Among some clients, one with a given key has a property. -/
def Keyed (clients : List Client) (key : ClientKey) (P : Client → Prop) : Prop :=
  ∃ c ∈ clients, c.key = key ∧ P c

section Keyed

variable {clients others : List Client} {c : Client} {key : ClientKey} {P : Client → Prop}

/-- The order of the clients does not matter. -/
theorem keyed_congr (h : clients.Perm others) : Keyed clients key P ↔ Keyed others key P :=
  exists_congr fun _ => and_congr_left' h.mem_iff

/-- It is either the first client or one of the others. -/
theorem keyed_cons : Keyed (c :: clients) key P ↔ (c.key = key ∧ P c) ∨ Keyed clients key P := by
  simp only [Keyed, List.mem_cons, exists_eq_or_imp]

/-- Where the keys are distinct, none of the others has the key of the first client. -/
theorem not_keyed_self (h : ((c :: clients).map Client.key).Nodup) : ¬ Keyed clients c.key P := by
  rintro ⟨d, hd, hkey, -⟩
  rw [List.map_cons, List.nodup_cons] at h
  exact h.1 (List.mem_map.mpr ⟨d, hd, hkey⟩)

/-- A change of the clients that keeps their keys and the property changes nothing. -/
theorem keyed_map {f : Client → Client} (hkey : ∀ c, (f c).key = c.key) (hP : ∀ c, P (f c) ↔ P c) :
    Keyed (clients.map f) key P ↔ Keyed clients key P := by
  constructor
  · rintro ⟨d, hd, hsame, hprop⟩
    obtain ⟨c, hc, rfl⟩ := List.mem_map.mp hd
    exact ⟨c, hc, (hkey c).symm.trans hsame, (hP c).mp hprop⟩
  · rintro ⟨c, hc, hsame, hprop⟩
    exact ⟨f c, List.mem_map_of_mem hc, (hkey c).trans hsame, (hP c).mpr hprop⟩

end Keyed

/-! ## Topologies -/

namespace Topology

/-- Hosts and topics are filed under their names, and the hosts are well formed. -/
structure WellFormed (s : Topology) : Prop where
  hosts : s.hosts.NamedBy Host.address
  topics : s.topics.NamedBy Topic.name
  host : ∀ h ∈ s.hosts.values, h.WellFormed

/-- A topology without nodes is well formed. -/
theorem wellFormed_empty (idleBudget : Nat) : (empty idleBudget).WellFormed where
  hosts := Dict.namedBy_empty Host.address
  topics := Dict.namedBy_empty Topic.name
  host := by
    intro h hh
    cases hh

variable {s : Topology} {address id : String} {c : Client}

/-! ## The list of clients -/

/-- A client is listed with the host at its address. -/
theorem mem_clients_iff : c ∈ s.clients ↔ ∃ h ∈ s.hosts.values, c ∈ h.clients.values :=
  List.mem_flatMap

/-- A listed client is well formed. -/
theorem WellFormed.client (hs : s.WellFormed) (hc : c ∈ s.clients) : c.WellFormed := by
  obtain ⟨h, hh, hc⟩ := mem_clients_iff.mp hc
  exact (hs.host h hh).client c hc

/-- A client is found by way of its host. -/
theorem client?_eq_some_iff_exists :
    s.client? address id = some c ↔
      ∃ h, s.hosts.find? address = some h ∧ h.clients.find? id = some c := by
  simp only [client?, Option.bind_eq_bind, Option.bind_eq_some_iff]

/-- A look-up finds the client with a given key. -/
theorem client?_eq_some_iff (hs : s.WellFormed) :
    s.client? address id = some c ↔ c ∈ s.clients ∧ c.key = ⟨address, id⟩ := by
  rw [client?_eq_some_iff_exists, mem_clients_iff]
  constructor
  · rintro ⟨h, hhost, hclient⟩
    obtain ⟨hh, haddress⟩ := hs.hosts.find?_eq_some_iff.mp hhost
    obtain ⟨hc, hid⟩ := (hs.host h hh).clients.find?_eq_some_iff.mp hclient
    refine ⟨⟨h, hh, hc⟩, ?_⟩
    rw [Client.key, (hs.host h hh).address_eq c hc, haddress, hid]
  · rintro ⟨⟨h, hh, hc⟩, hkey⟩
    obtain ⟨haddress, hid⟩ := ClientKey.mk.inj hkey
    rw [(hs.host h hh).address_eq c hc] at haddress
    exact ⟨h, hs.hosts.find?_eq_some_iff.mpr ⟨hh, haddress⟩,
      (hs.host h hh).clients.find?_eq_some_iff.mpr ⟨hc, hid⟩⟩

/-- No client is known when none has the key. -/
theorem client?_eq_none_iff (hs : s.WellFormed) :
    s.client? address id = none ↔ ∀ c ∈ s.clients, c.key ≠ ⟨address, id⟩ := by
  rw [Option.eq_none_iff_forall_not_mem]
  constructor
  · intro h c hc hkey
    exact h c ((client?_eq_some_iff hs).mpr ⟨hc, hkey⟩)
  · intro h c hfind
    obtain ⟨hc, hkey⟩ := (client?_eq_some_iff hs).mp hfind
    exact h c hc hkey

/-- No two clients have one key. -/
theorem WellFormed.keys_nodup (hs : s.WellFormed) : (s.clients.map Client.key).Nodup := by
  rw [clients, List.map_flatMap, List.nodup_flatMap]
  constructor
  · intro h hh
    have hids := (hs.host h hh).clients.names_nodup
    refine List.Nodup.of_map ClientKey.id ?_
    rwa [List.map_map]
  · have haddresses := List.pairwise_map.mp hs.hosts.names_nodup
    refine haddresses.imp_of_mem fun {h h'} hh hh' hne => ?_
    rintro key hkey hkey'
    obtain ⟨c, hc, rfl⟩ := List.mem_map.mp hkey
    obtain ⟨c', hc', hsame⟩ := List.mem_map.mp hkey'
    apply hne
    rw [← (hs.host h hh).address_eq c hc, ← (hs.host h' hh').address_eq c' hc']
    exact (congrArg ClientKey.address hsame).symm

/-- Clients with one key are one client. -/
theorem WellFormed.eq_of_key_eq (hs : s.WellFormed) {c c' : Client} (hc : c ∈ s.clients)
    (hc' : c' ∈ s.clients) (hkey : c.key = c'.key) : c = c' :=
  List.inj_on_of_nodup_map hs.keys_nodup hc hc' hkey

/-! ## Looking for a client -/

/-- The search that explains what is missing finds what the plain look-up finds. -/
theorem findClient_of_client? (h : s.client? address id = some c) :
    s.findClient address id = .ok c := by
  obtain ⟨host, hhost, hc⟩ := client?_eq_some_iff_exists.mp h
  rw [findClient, hhost]
  dsimp only
  rw [hc]

/-- Without the client the search fails. -/
theorem findClient_of_client?_eq_none (h : s.client? address id = none) :
    ∃ e, s.findClient address id = .error e := by
  rw [findClient]
  cases hhost : s.hosts.find? address with
  | none => exact ⟨_, rfl⟩
  | some host =>
    cases hc : host.clients.find? id with
    | none => exact ⟨_, by dsimp only; rw [hc]⟩
    | some c =>
      rw [client?_eq_some_iff_exists.mpr ⟨host, hhost, hc⟩] at h
      cases h

end Topology

end BrokerTopology
