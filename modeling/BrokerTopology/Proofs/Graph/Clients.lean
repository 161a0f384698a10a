import BrokerTopology.Proofs.Graph.WellFormed
/-!
# Changes of the clients

Connecting, disconnecting and changing a client all work on the dictionaries of the hosts. Seen from
the list of clients each does one thing: a client is added, taken out or replaced, and the others
stay. The list is described up to its order, since a dictionary may be rebuilt.
-/

namespace BrokerTopology

/-! ## The clients of several hosts -/

/-- The clients of all hosts of a dictionary. -/
def clientsOf (hosts : Dict Host) : List Client :=
  hosts.values.flatMap fun h => h.clients.values

section Hosts

variable {hosts : Dict Host} {address : String} {host : Host}

/-- The clients of one host, seen apart from those of the others. -/
theorem clientsOf_perm (h : hosts.NamedBy Host.address) (hfind : hosts.find? address = some host) :
    (clientsOf hosts).Perm (host.clients.values ++ clientsOf (hosts.erase address)) :=
  (h.erase_spec hfind).2.flatMap_right _

/-- Changing one host changes its own clients. -/
theorem clientsOf_modify_perm (h : hosts.NamedBy Host.address)
    (hfind : hosts.find? address = some host) (f : Host → Host) :
    (clientsOf (hosts.modify address f)).Perm
      ((f host).clients.values ++ clientsOf (hosts.erase address)) :=
  (h.values_modify_perm hfind f).flatMap_right _

end Hosts

/-- A host stays well formed when one of its clients is replaced by one with the same key. -/
theorem Host.wellFormed_modify {h : Host} (hh : h.WellFormed) {id : String} {c : Client}
    (hfind : h.clients.find? id = some c) {f : Client → Client} (hkey : (f c).key = c.key)
    (hf : (f c).WellFormed) : Host.WellFormed { h with clients := h.clients.modify id f } := by
  obtain ⟨hc, hid⟩ := hh.clients.find?_eq_some_iff.mp hfind
  obtain ⟨haddress, hid'⟩ := ClientKey.mk.inj hkey
  have hperm := hh.clients.values_modify_perm hfind f
  have hothers : ∀ w ∈ (h.clients.erase id).values, w ∈ h.clients.values :=
    fun w hw => hh.clients.mem_of_mem_erase hfind hw
  refine ⟨hh.clients.modify_of_find? hfind (hid'.trans hid), ?_, ?_, ?_⟩
  · exact List.ne_nil_of_mem (hperm.mem_iff.mpr List.mem_cons_self)
  · exact hh.clients.forall_mem_modify hfind (haddress.trans (hh.address_eq c hc))
      fun w hw => hh.address_eq w (hothers w hw)
  · exact hh.clients.forall_mem_modify hfind hf fun w hw => hh.client w (hothers w hw)

namespace Topology

variable {s : Topology} {address id : String} {c : Client}

/-! ## Replacing a client -/

/-- From one topology to the other a client is replaced, and the others stay. -/
def Replaces (s s' : Topology) (c c' : Client) : Prop :=
  ∃ others, s.clients.Perm (c :: others) ∧ s'.clients.Perm (c' :: others)

/-- Replacing a client by one with the same key keeps a topology well formed and leaves the other
clients alone. -/
theorem modifyClient_spec (hs : s.WellFormed) (hfind : s.client? address id = some c)
    {f : Client → Client} (hkey : (f c).key = c.key) (hf : (f c).WellFormed) :
    (s.modifyClient address id f).WellFormed ∧
      Replaces s (s.modifyClient address id f) c (f c) := by
  obtain ⟨host, hhost, hclient⟩ := client?_eq_some_iff_exists.mp hfind
  obtain ⟨hmem, haddress⟩ := hs.hosts.find?_eq_some_iff.mp hhost
  have hwf := hs.host host hmem
  refine ⟨⟨hs.hosts.modify_of_find? hhost haddress, hs.topics, ?_⟩,
    (host.clients.erase id).values ++ clientsOf (s.hosts.erase address), ?_, ?_⟩
  · exact hs.hosts.forall_mem_modify hhost (Host.wellFormed_modify hwf hclient hkey hf)
      fun h hh => hs.host h (hs.hosts.mem_of_mem_erase hhost hh)
  · refine (clientsOf_perm hs.hosts hhost).trans ?_
    exact (hwf.clients.erase_spec hclient).2.append_right _
  · refine (clientsOf_modify_perm hs.hosts hhost _).trans ?_
    exact (hwf.clients.values_modify_perm hclient f).append_right _

/-! ## Adding a client -/

/-- A host with one more client, which is new and names the address, is well formed. -/
theorem wellFormed_withFresh {host : Host} {clients : Dict Client} {bridge : Option String}
    (haddress : host.address = address) (hclients : clients.NamedBy Client.id)
    (hperm : clients.values.Perm (Client.fresh address id bridge :: host.clients.values))
    (hold : ∀ c ∈ host.clients.values, c.address = host.address ∧ c.WellFormed) :
    Host.WellFormed { host with clients := clients } where
  clients := hclients
  nonempty := List.ne_nil_of_mem (hperm.mem_iff.mpr List.mem_cons_self)
  address_eq := by
    intro c hc
    rcases List.mem_cons.mp (hperm.mem_iff.mp hc) with rfl | hc
    · exact haddress.symm
    · exact (hold c hc).1
  client := by
    intro c hc
    rcases List.mem_cons.mp (hperm.mem_iff.mp hc) with rfl | hc
    · exact Client.wellFormed_fresh address id bridge
    · exact (hold c hc).2

/-- Filing a new client under a host adds it to the clients, even if the host had none so far. -/
theorem addToHost_spec {host : Host} (hhosts : s.hosts.NamedBy Host.address)
    (htopics : s.topics.NamedBy Topic.name) (hhost : s.hosts.find? address = some host)
    (hclients : host.clients.NamedBy Client.id)
    (hold : ∀ c ∈ host.clients.values, c.address = host.address ∧ c.WellFormed)
    (hothers : ∀ h ∈ (s.hosts.erase address).values, h.WellFormed)
    (hnew : host.clients.contains id = false) (bridge : Option String) :
    ∃ s', s.addToHost host address id bridge = (.ok .applied, s') ∧ s'.WellFormed ∧
      s'.clients.Perm (Client.fresh address id bridge :: s.clients) ∧
      s'.topics = s.topics ∧ s'.idleBudget = s.idleBudget ∧ s'.changed = true := by
  obtain ⟨clients, hinsert, hnamed, hperm⟩ :=
    hclients.insert_spec (Client.fresh address id bridge) hnew
  have haddress := (hhosts.find?_eq_some_iff.mp hhost).2
  have hinsert' : host.clients.insert id (.fresh address id bridge) = .ok clients := hinsert
  have hadd : s.addToHost host address id bridge = (.ok .applied, { s with
      hosts := s.hosts.modify address fun h => { h with clients := clients }
      changed := true }) := by
    rw [addToHost, hinsert']
  refine ⟨_, hadd, ⟨?_, htopics, ?_⟩, ?_, rfl, rfl, rfl⟩
  · exact hhosts.modify_of_find? hhost haddress
  · exact hhosts.forall_mem_modify hhost (wellFormed_withFresh haddress hnamed hperm hold) hothers
  · refine (clientsOf_modify_perm hhosts hhost _).trans ?_
    refine (hperm.append_right _).trans ?_
    exact (clientsOf_perm hhosts hhost).symm.cons _

/-- A client that is not known is added, with its address if that is new. -/
theorem addClient_spec (hs : s.WellFormed) (hfind : s.client? address id = none)
    (bridge : Option String) :
    ∃ s', s.addClient address id bridge = (.ok .applied, s') ∧ s'.WellFormed ∧
      s'.clients.Perm (Client.fresh address id bridge :: s.clients) ∧
      s'.topics = s.topics ∧ s'.idleBudget = s.idleBudget ∧ s'.changed = true := by
  cases hhost : s.hosts.find? address with
  | some host =>
    -- the address is listed, and has no client with the id
    have hwf := hs.host host (hs.hosts.find?_eq_some_iff.mp hhost).1
    have hnew : host.clients.contains id = false := by
      rw [Dict.contains, Option.isSome_eq_false_iff, Option.isNone_iff_eq_none]
      rw [Option.eq_none_iff_forall_not_mem] at hfind ⊢
      exact fun c hc => hfind c (client?_eq_some_iff_exists.mpr ⟨host, hhost, hc⟩)
    have hadd : s.addClient address id bridge = s.addToHost host address id bridge := by
      rw [addClient, hhost]
      dsimp only
      rw [hnew]
      rfl
    rw [hadd]
    exact addToHost_spec hs.hosts hs.topics hhost hwf.clients
      (fun c hc => ⟨hwf.address_eq c hc, hwf.client c hc⟩)
      (fun h hh => hs.host h (hs.hosts.mem_of_mem_erase hhost hh)) hnew bridge
  | none =>
    -- the address is listed first, without clients
    have hnew : s.hosts.contains address = false := by rw [Dict.contains, hhost]; rfl
    obtain ⟨hosts, hinsert, hnamed, hvalues⟩ := hs.hosts.insert_spec (.fresh address) hnew
    have hfresh : hosts.find? address = some (.fresh address) :=
      hnamed.find?_eq_some_iff.mpr ⟨hvalues.mem_iff.mpr List.mem_cons_self, rfl⟩
    have hadd : s.addClient address id bridge =
        addToHost { s with hosts := hosts } (.fresh address) address id bridge := by
      have hinsert' : s.hosts.insert address (.fresh address) = .ok hosts := hinsert
      rw [addClient, hhost]
      dsimp only
      rw [hinsert']
    -- the host that has just been listed is the only one without clients
    have hothers : ∀ h ∈ (hosts.erase address).values, h.WellFormed := by
      intro h hh
      rcases List.mem_cons.mp (hvalues.mem_iff.mp (hnamed.mem_of_mem_erase hfresh hh)) with rfl | hold
      · exact absurd rfl (hnamed.name_ne_of_mem_erase hfresh hh)
      · exact hs.host h hold
    rw [hadd]
    obtain ⟨s', heq, hwf, hclients, hrest⟩ := addToHost_spec (s := { s with hosts := hosts })
      hnamed hs.topics hfresh (Dict.namedBy_empty Client.id) (fun c hc => by cases hc) hothers
      (Dict.contains_empty id) bridge
    exact ⟨s', heq, hwf, hclients.trans ((hvalues.flatMap_right _).cons _), hrest⟩

/-- A client that is known already is left as it is. -/
theorem addClient_of_client? (hfind : s.client? address id = some c) (bridge : Option String) :
    s.addClient address id bridge = (.ok .ignored, s) := by
  obtain ⟨host, hhost, hclient⟩ := client?_eq_some_iff_exists.mp hfind
  rw [addClient, hhost]
  dsimp only
  rw [Dict.contains, hclient]
  rfl

/-! ## Taking out a client -/

/-- A client that leaves is taken out of the hosts, with its address if that has no other. -/
theorem hostsWithout_spec (hs : s.WellFormed) {host : Host}
    (hhost : s.hosts.find? address = some host) (hclient : host.clients.find? id = some c) :
    (s.hostsWithout host address id).NamedBy Host.address ∧
      (∀ h ∈ (s.hostsWithout host address id).values, h.WellFormed) ∧
      s.clients.Perm (c :: clientsOf (s.hostsWithout host address id)) := by
  obtain ⟨hmem, haddress⟩ := hs.hosts.find?_eq_some_iff.mp hhost
  have hwf := hs.host host hmem
  obtain ⟨hnamed, hperm⟩ := hwf.clients.erase_spec hclient
  have hothers : ∀ h ∈ (s.hosts.erase address).values, h.WellFormed :=
    fun h hh => hs.host h (hs.hosts.mem_of_mem_erase hhost hh)
  have hall : s.clients.Perm
      (c :: ((host.clients.erase id).values ++ clientsOf (s.hosts.erase address))) :=
    (clientsOf_perm hs.hosts hhost).trans (hperm.append_right _)
  let left : Host → Host := fun h => { h with clients := host.clients.erase id }
  have hmodify := hs.hosts.modify_of_find? (f := left) hhost haddress
  have hfound := hs.hosts.find?_modify (f := left) hhost haddress
  have hvalues := hs.hosts.values_modify_perm hhost left
  rw [hostsWithout]
  split
  · -- the client was the only one, and the address is dropped
    rename_i hempty
    rw [Dict.isEmpty_iff hnamed.toWellFormed] at hempty
    obtain ⟨herase, hperm'⟩ := hmodify.erase_spec hfound
    have hsame := (hperm'.symm.trans hvalues).cons_inv
    refine ⟨herase, fun h hh => hothers h (hsame.mem_iff.mp hh), hall.trans ?_⟩
    rw [hempty]
    exact (hsame.symm.flatMap_right _).cons c
  · -- the address stays with the other clients
    rename_i hmore
    rw [Dict.isEmpty_iff hnamed.toWellFormed] at hmore
    have hleft : ∀ w ∈ (host.clients.erase id).values, w ∈ host.clients.values :=
      fun w hw => hwf.clients.mem_of_mem_erase hclient hw
    refine ⟨hmodify, hs.hosts.forall_mem_modify hhost ?_ hothers, hall.trans ?_⟩
    · exact ⟨hnamed, hmore, fun w hw => hwf.address_eq w (hleft w hw),
        fun w hw => hwf.client w (hleft w hw)⟩
    · exact (clientsOf_modify_perm hs.hosts hhost left).symm.cons c

end Topology

end BrokerTopology
