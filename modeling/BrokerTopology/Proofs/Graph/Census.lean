import Mathlib.Data.List.DropRight
import Mathlib.Data.Set.Card
import BrokerTopology.Proofs.Graph.EdgeAt
/-!
# A census of the nodes

Every node is filed under its own name in the place that its fields name, and no address is listed
without a client. So the sizes of the dictionaries count what they should: the addresses with a client,
the clients and the topics. Which clients there are depends on the connections and disconnections of
the run alone: a client has a session from the first request to connect it, of which it keeps the
bridge, to the next one to disconnect it.

Main statement: `census_run`.
-/

namespace BrokerTopology

/-- A list without repetitions counts what it lists. -/
theorem encard_setOf_of_nodup {α : Type} [DecidableEq α] {l : List α} (hnodup : l.Nodup) {P : α → Prop}
    (hmem : ∀ a, P a ↔ a ∈ l) : {a | P a}.encard = l.length := by
  have hset : {a | P a} = (l.toFinset : Set α) := by
    ext a
    rw [Set.mem_ofPred_eq, hmem, Finset.mem_coe, List.mem_toFinset]
  rw [hset, Set.encard_coe_eq_coe_finsetCard, List.toFinset_card_of_nodup hnodup]

namespace Topology

/-! ## The sessions of a run -/

/-- The bridge of an operation that asks to connect a client. -/
def Operation.connects? (key : ClientKey) : Operation → Option (Option String)
  | .addClient address id bridge => if key = ⟨address, id⟩ then some bridge else none
  | _ => none

/-- Whether an operation asks to disconnect a client. -/
def Operation.disconnects (key : ClientKey) : Operation → Bool
  | .removeClient id address => decide (key = ⟨address, id⟩)
  | _ => false

/-- The operations since a client was last asked to be disconnected. -/
def sinceDisconnection (key : ClientKey) (ops : List Operation) : List Operation :=
  ops.rtakeWhile fun op => !op.disconnects key

/-- The session of a client after a run, which is its bridge: that of the first request to connect it
since it was last asked to be disconnected. -/
def session? (key : ClientKey) (ops : List Operation) : Option (Option String) :=
  (sinceDisconnection key ops).findSome? (Operation.connects? key)

/-- One operation more ends the session, begins one, or leaves it as it is. -/
theorem session?_append_singleton (key : ClientKey) (ops : List Operation) (op : Operation) :
    session? key (ops ++ [op]) =
      if op.disconnects key then none else (session? key ops).or (op.connects? key) := by
  rw [session?, sinceDisconnection, List.rtakeWhile_concat]
  cases hends : op.disconnects key with
  | true => rfl
  | false =>
    show List.findSome? _ (sinceDisconnection key ops ++ [op]) = (session? key ops).or _
    rw [List.findSome?_append, List.findSome?_singleton, session?]

/-! ## Bridges -/

variable {s s' : Topology} {a : Action} {key other : ClientKey} {topic : String}

/-- The bridge of the client with a given key, if there is one. -/
def bridgeAt (s : Topology) (key : ClientKey) : Option (Option String) :=
  (s.clientAt key).map Client.bridge

/-- Sending keeps the bridge of a client. -/
theorem bridge_sent {c : Client} (hc : c.WellFormed) (topic : String) (ttl : Int) (bytes : Nat) :
    (sent c topic ttl bytes).bridge = c.bridge := by
  obtain ⟨published, hsend, -⟩ := sendAlong_spec hc topic ttl bytes
  rw [sent, hsend]

/-- An action that is not refused ends the session of its client, begins it or keeps its bridge. -/
theorem Outcome.bridgeAt_self {m : Mutation} {after : Option Client} (o : Outcome a key s s' m after)
    (hs : s.WellFormed) :
    after.map Client.bridge =
      if (a.operation key).disconnects key then none
      else (s.bridgeAt key).or ((a.operation key).connects? key) := by
  have hrespond := o.respond
  rw [bridgeAt]
  cases hfind : s.clientAt key with
  | none =>
    rw [hfind] at hrespond
    cases a with
    | connect bridge =>
      obtain ⟨-, rfl⟩ := Prod.mk.inj (Option.some.inj hrespond)
      exact (if_pos rfl).symm
    | _ => cases hrespond
  | some c =>
    rw [hfind] at hrespond
    cases a with
    | disconnect =>
      obtain ⟨-, rfl⟩ := Prod.mk.inj (Option.some.inj hrespond)
      exact (if_pos (decide_eq_true rfl)).symm
    | publish name retain bytes =>
      obtain ⟨-, rfl⟩ := Prod.mk.inj (Option.some.inj hrespond)
      have hc := hs.client ((clientAt_eq_some_iff hs).mp hfind).1
      exact congrArg some (bridge_sent hc name s.idleBudget bytes)
    | connect bridge =>
      obtain ⟨-, rfl⟩ := Prod.mk.inj (Option.some.inj hrespond)
      rfl
    | startProbe now =>
      obtain ⟨-, rfl⟩ := Prod.mk.inj (Option.some.inj hrespond)
      rfl
    | _ =>
      -- whether it is ignored or applied, the bridge is not touched
      rw [Action.respond] at hrespond
      split at hrespond
      · obtain ⟨-, rfl⟩ := Prod.mk.inj (Option.some.inj hrespond)
        rfl
      · obtain ⟨-, rfl⟩ := Prod.mk.inj (Option.some.inj hrespond)
        rfl

/-- An action under one key concerns no session under another. -/
theorem session_operation_of_ne (a : Action) (h : other ≠ key) :
    (a.operation key).disconnects other = false ∧ (a.operation key).connects? other = none := by
  cases a with
  | connect bridge => exact ⟨rfl, if_neg h⟩
  | disconnect => exact ⟨decide_eq_false h, rfl⟩
  | _ => exact ⟨rfl, rfl⟩

/-- A sample keeps the bridges. -/
theorem bridgeAt_sample (hs : s.WellFormed) (secs : Float) (key : ClientKey) :
    (s.sample secs).2.bridgeAt key = s.bridgeAt key := by
  cases heffective : isEffective secs with
  | false => rw [sample_of_not_effective heffective]
  | true =>
    rw [bridgeAt, clientAt_sample hs heffective, Option.map_map]
    rfl

/-- Every operation ends the session of a client, begins it or keeps its bridge. -/
theorem bridgeAt_apply (h : s.Sound) (op : Operation) (key : ClientKey) :
    (op.apply s).bridgeAt key =
      if op.disconnects key then none else (s.bridgeAt key).or (op.connects? key) := by
  rcases op.cases_action with ⟨own, a, rfl⟩ | ⟨secs, rfl⟩ | rfl
  · rw [Action.apply_operation]
    by_cases hown : key = own
    · subst hown
      cases hok : (a.perform key s).1.isOk with
      | true =>
        obtain ⟨m, s', after, hanswer, o⟩ := succeeds_of_isOk h hok
        rw [← o.bridgeAt_self h.wellFormed, hanswer, bridgeAt, o.clientAt, if_pos rfl]
      | false =>
        -- there was no client, and a request that connects one is not refused
        obtain ⟨ha, hnone⟩ := (isOk_perform_eq_false_iff h).mp hok
        obtain ⟨e, he⟩ := perform_of_clientAt_eq_none hnone ha
        rw [he, bridgeAt, hnone]
        cases a with
        | connect bridge => exact absurd rfl (ha bridge)
        | disconnect => exact (ite_self none).symm
        | _ => rfl
    · obtain ⟨hends, hbegins⟩ := session_operation_of_ne a hown
      rw [hends, hbegins, if_neg Bool.false_ne_true, Option.or_none]
      rcases outcome_or_refused h a own with ⟨m, after, -, o⟩ | ⟨-, hsame⟩
      · rw [bridgeAt, o.clientAt, if_neg hown, bridgeAt]
      · rw [hsame]
  · rw [Operation.apply, bridgeAt_sample h.wellFormed]
    exact (Option.or_none).symm
  · exact (Option.or_none).symm

/-- After a run the clients are those with a session, each with the bridge of its session. -/
theorem bridgeAt_run (idleBudget : Nat) (ops : List Operation) (key : ClientKey) :
    ((empty idleBudget).run ops).bridgeAt key = session? key ops := by
  induction ops using List.reverseRecOn with
  | nil =>
    show (((empty idleBudget).hosts.find? key.address).bind _).map _ = _
    rw [show (empty idleBudget).hosts.find? key.address = none from Dict.find?_empty key.address]
    rfl
  | append_singleton ops op ih =>
    rw [run_append, session?_append_singleton, ← ih]
    exact bridgeAt_apply ((sound_empty idleBudget).run ops) op key

/-! ## Counting -/

/-- The addresses of the hosts are those from which some client is connected. -/
theorem exists_address_iff (hs : s.WellFormed) {address : String} :
    (∃ c ∈ s.clients, c.address = address) ↔ address ∈ s.hosts.values.map Host.address := by
  rw [List.mem_map]
  constructor
  · rintro ⟨c, hc, rfl⟩
    obtain ⟨host, hhost, hc⟩ := mem_clients_iff.mp hc
    exact ⟨host, hhost, ((hs.host host hhost).address_eq c hc).symm⟩
  · rintro ⟨host, hhost, rfl⟩
    obtain ⟨c, hc⟩ := List.exists_mem_of_ne_nil _ (hs.host host hhost).nonempty
    exact ⟨c, mem_clients_iff.mpr ⟨host, hhost, hc⟩, (hs.host host hhost).address_eq c hc⟩

/-- A client is found under a key that is listed. -/
theorem isSome_bridgeAt_iff (hs : s.WellFormed) :
    (s.bridgeAt key).isSome = true ↔ key ∈ s.clients.map Client.key := by
  rw [bridgeAt, Option.isSome_map, Option.isSome_iff_exists, List.mem_map]
  exact exists_congr fun c => clientAt_eq_some_iff hs

/-- The number of values in a dictionary is the size of the dictionary. -/
theorem length_values {α : Type} {d : Dict α} (h : d.WellFormed) : d.values.length = d.size := by
  rw [Dict.values, List.length_map, h.size_eq]

/-- The clients of all hosts together are counted. -/
theorem length_clients (hs : s.WellFormed) : s.clients.length = s.clientCount := by
  have hcount : ∀ hosts : List Host, (∀ h ∈ hosts, h.WellFormed) →
      (hosts.flatMap fun h => h.clients.values).length =
        hosts.foldr (fun h n => h.clients.size + n) 0 := by
    intro hosts
    induction hosts with
    | nil => exact fun _ => rfl
    | cons host hosts ih =>
      intro hwf
      obtain ⟨hhere, hothers⟩ := List.forall_mem_cons.mp hwf
      rw [List.flatMap_cons, List.length_append, ih hothers, List.foldr_cons,
        length_values hhere.clients.toWellFormed]
  exact hcount s.hosts.values hs.host

/-- What is shown of the nodes of a topology after a run. -/
structure Census (ops : List Operation) (s : Topology) : Prop where
  /-- Every node is filed under its own name in its own place, and no filter is remembered twice. -/
  wellFormed : s.WellFormed
  /-- The clients are those with a session, each with the bridge of its session. -/
  session : ∀ key, (s.clientAt key).map Client.bridge = session? key ops
  /-- The addresses are counted from which a client is connected. -/
  hostCount : {address | ∃ c ∈ s.clients, c.address = address}.encard = s.hostCount
  /-- The clients are counted that have been connected and not been disconnected since. -/
  clientCount : {key | (session? key ops).isSome = true}.encard = s.clientCount
  /-- The topics are counted that are listed. -/
  topicCount : {topic | s.Listed topic}.encard = s.topicCount

/-- After every run the nodes are where they belong and counted as they should be, and the clients are
those that have been connected and not been disconnected since. -/
theorem census_run (idleBudget : Nat) (ops : List Operation) :
    Census ops ((empty idleBudget).run ops) where
  wellFormed := ((sound_empty idleBudget).run ops).wellFormed
  session := bridgeAt_run idleBudget ops
  hostCount := by
    have hs := ((sound_empty idleBudget).run ops).wellFormed
    rw [encard_setOf_of_nodup hs.hosts.names_nodup fun address => exists_address_iff hs,
      List.length_map, length_values hs.hosts.toWellFormed]
    rfl
  clientCount := by
    have hs := ((sound_empty idleBudget).run ops).wellFormed
    simp only [← bridgeAt_run idleBudget ops]
    rw [encard_setOf_of_nodup hs.keys_nodup fun key => isSome_bridgeAt_iff hs, List.length_map,
      length_clients hs]
  topicCount := by
    have hs := ((sound_empty idleBudget).run ops).wellFormed
    have hlisted : ∀ topic, ((empty idleBudget).run ops).Listed topic ↔
        topic ∈ ((empty idleBudget).run ops).topics.values.map Topic.name := fun topic => by
      rw [listed_iff hs, List.mem_map]
    rw [encard_setOf_of_nodup hs.topics.names_nodup hlisted, List.length_map,
      length_values hs.topics.toWellFormed]
    rfl

/-- A client that is connected twice keeps its first bridge until it is disconnected. -/
example :
    session? ⟨"10.0.0.1", "a"⟩
      [.addClient "10.0.0.1" "a" none, .removeClient "a" "10.0.0.1",
        .addClient "10.0.0.1" "a" (some "west"), .addClient "10.0.0.1" "a" (some "east")] =
      some (some "west") := by
  decide

end Topology

end BrokerTopology
