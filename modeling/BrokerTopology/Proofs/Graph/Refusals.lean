import BrokerTopology.Proofs.Graph.Actions
/-!
# Refusals

An action is refused exactly if no client has the key under which it is asked for, and connecting is
never refused. The refusal names what is missing: the address if nobody is connected from there, and
the id otherwise. Whatever is not applied, be it refused or a repetition, leaves the topology as it
was, layout and flag of change included.
-/

namespace BrokerTopology

namespace Topology

variable {s : Topology} {a : Action} {key : ClientKey} {c : Client} {e : Failure}

/-! ## What is missing -/

/-- What a refusal says of a key that no client has. -/
inductive Missing (s : Topology) (key : ClientKey) : Failure → Prop where
  /-- Nobody is connected from the address. -/
  | address (nobody : ∀ c ∈ s.clients, c.address ≠ key.address) :
    Missing s key (.notFound .address key.address)
  /-- Somebody is, but under other ids. -/
  | client (somebody : ∃ c ∈ s.clients, c.address = key.address)
    (others : ∀ c ∈ s.clients, c.key ≠ key) : Missing s key (.notFound .client key.id)

/-- An address is listed exactly if some client is connected from it, as no host is without clients. -/
theorem find?_hosts_eq_none_iff (hs : s.WellFormed) {address : String} :
    s.hosts.find? address = none ↔ ∀ c ∈ s.clients, c.address ≠ address := by
  constructor
  · rintro hnone c hc rfl
    obtain ⟨h, hh, hc⟩ := mem_clients_iff.mp hc
    have haddress := (hs.host h hh).address_eq c hc
    rw [hs.hosts.find?_eq_some_iff.mpr ⟨hh, haddress.symm⟩] at hnone
    cases hnone
  · intro hnobody
    rw [Option.eq_none_iff_forall_not_mem]
    intro h hfind
    obtain ⟨hh, haddress⟩ := hs.hosts.find?_eq_some_iff.mp hfind
    obtain ⟨c, hc⟩ := List.exists_mem_of_ne_nil _ (hs.host h hh).nonempty
    refine hnobody c (mem_clients_iff.mpr ⟨h, hh, hc⟩) ?_
    rw [(hs.host h hh).address_eq c hc, haddress]

/-- The search for a client that is not there tells what is missing. -/
theorem missing_of_findClient (hs : s.WellFormed) (h : s.findClient key.address key.id = .error e) :
    s.Missing key e := by
  rw [findClient] at h
  cases hhost : s.hosts.find? key.address with
  | none =>
    rw [hhost] at h
    cases h
    exact .address ((find?_hosts_eq_none_iff hs).mp hhost)
  | some host =>
    have hlisted : ¬ ∀ c ∈ s.clients, c.address ≠ key.address := by
      rw [← find?_hosts_eq_none_iff hs, hhost]
      exact Option.some_ne_none host
    push Not at hlisted
    cases hclient : host.clients.find? key.id with
    | none =>
      simp only [hhost, hclient] at h
      cases h
      refine .client hlisted ((client?_eq_none_iff hs).mp ?_)
      rw [client?, hhost]
      exact hclient
    | some c =>
      simp only [hhost, hclient] at h
      cases h

/-! ## Refused actions -/

/-- An action of a client that is not found is refused for the reason that the search gives. -/
theorem perform_of_findClient (h : s.findClient key.address key.id = .error e)
    (ha : ∀ bridge, a ≠ .connect bridge) : a.perform key s = (.error e, s) := by
  cases a with
  | connect bridge => exact absurd rfl (ha bridge)
  | disconnect =>
    -- the host is needed later on, so the client is not searched for in one go
    rw [Action.perform, removeClient]
    rw [findClient] at h
    cases hhost : s.hosts.find? key.address with
    | none =>
      rw [hhost] at h
      cases h
      rfl
    | some host =>
      cases hclient : host.clients.find? key.id with
      | none =>
        simp only [hhost, hclient] at h ⊢
        cases h
        rfl
      | some c =>
        simp only [hhost, hclient] at h
        cases h
  | publish topic retain bytes => rw [Action.perform, addPublish, h]
  | subscribe filter => rw [Action.perform, addSubscription, h]
  | unsubscribe filter => rw [Action.perform, removeSubscription, h]
  | startProbe now => rw [Action.perform, startProbe, h]
  | finishProbe now => rw [Action.perform, finishProbe, h]

/-- An action is refused exactly if it needs a client and none has the key. -/
theorem isOk_perform_eq_false_iff (h : s.Sound) :
    (a.perform key s).1.isOk = false ↔ (∀ bridge, a ≠ .connect bridge) ∧ s.clientAt key = none := by
  constructor
  · intro hrefused
    refine ⟨?_, ?_⟩
    · rintro bridge rfl
      have hsucceeds : Succeeds (.connect bridge) key s := connect_succeeds h bridge
      obtain ⟨m, s', after, hanswer, -⟩ := hsucceeds
      rw [hanswer] at hrefused
      cases hrefused
    · rw [Option.eq_none_iff_forall_not_mem]
      intro c hfind
      obtain ⟨m, s', after, hanswer, -⟩ := succeeds_of_clientAt (a := a) h hfind
      rw [hanswer] at hrefused
      cases hrefused
  · rintro ⟨ha, hnone⟩
    obtain ⟨e, he⟩ := perform_of_clientAt_eq_none hnone ha
    rw [he]
    rfl

/-- A refusal says what is missing. -/
theorem missing_of_perform (h : s.Sound) (hrefused : (a.perform key s).1 = .error e) :
    s.Missing key e := by
  obtain ⟨ha, hnone⟩ := (isOk_perform_eq_false_iff (a := a) h).mp (by rw [hrefused]; rfl)
  obtain ⟨e', he'⟩ := findClient_of_client?_eq_none hnone
  rw [perform_of_findClient he' ha] at hrefused
  obtain rfl := Except.error.inj hrefused
  exact missing_of_findClient h.wellFormed he'

/-! ## What is not applied -/

/-- An action that is not applied changes nothing. -/
theorem perform_of_not_applied (hs : s.WellFormed) (h : (a.perform key s).1 ≠ .ok .applied) :
    (a.perform key s).2 = s := by
  cases hfind : s.clientAt key with
  | none =>
    by_cases hconnect : ∃ bridge, a = .connect bridge
    · obtain ⟨bridge, rfl⟩ := hconnect
      obtain ⟨s', hanswer, -⟩ := addClient_spec hs hfind bridge
      exact absurd (congrArg Prod.fst hanswer) h
    · obtain ⟨e, he⟩ := perform_of_clientAt_eq_none hfind fun bridge hsame => hconnect ⟨bridge, hsame⟩
      rw [he]
  | some c =>
    cases a with
    | connect bridge => exact congrArg Prod.snd (addClient_of_client? hfind bridge)
    | disconnect =>
      obtain ⟨s', hanswer, -⟩ := removeClient_spec hs hfind
      exact absurd (congrArg Prod.fst hanswer) h
    | publish topic retain bytes =>
      obtain ⟨s', published, topics, hanswer, -⟩ := addPublish_spec hs hfind topic retain bytes
      exact absurd (congrArg Prod.fst hanswer) h
    | subscribe filter =>
      by_cases hmem : filter ∈ c.filters
      · exact congrArg Prod.snd (addSubscription_of_mem hfind hmem)
      · exact absurd (congrArg Prod.fst (addSubscription_of_not_mem hfind hmem)) h
    | unsubscribe filter =>
      by_cases hmem : filter ∈ c.filters
      · exact absurd (congrArg Prod.fst (removeSubscription_of_mem hfind hmem)) h
      · exact congrArg Prod.snd (removeSubscription_of_not_mem hfind hmem)
    | startProbe now => exact absurd (congrArg Prod.fst (startProbe_of_client? hfind now)) h
    | finishProbe now =>
      cases hpending : c.latency.pending with
      | none => exact congrArg Prod.snd (finishProbe_of_pending_eq_none hfind hpending now)
      | some started =>
        exact absurd (congrArg Prod.fst (finishProbe_of_pending hfind hpending now)) h

/-- An action either has an outcome or is refused and changes nothing. -/
theorem outcome_or_refused (h : s.Sound) (a : Action) (key : ClientKey) :
    (∃ m after, (a.perform key s).1 = .ok m ∧ Outcome a key s (a.perform key s).2 m after) ∨
      (a.perform key s).1.isOk = false ∧ (a.perform key s).2 = s := by
  cases hok : (a.perform key s).1.isOk with
  | false =>
    refine Or.inr ⟨rfl, perform_of_not_applied h.wellFormed fun happlied => ?_⟩
    rw [happlied] at hok
    cases hok
  | true =>
    obtain ⟨m, s', after, hanswer, o⟩ := succeeds_of_isOk h hok
    rw [hanswer]
    exact Or.inl ⟨m, after, rfl, o⟩

/-- No operation changes the budget. -/
theorem idleBudget_apply (h : s.Sound) (op : Operation) : (op.apply s).idleBudget = s.idleBudget := by
  rcases op.cases_action with ⟨key, a, rfl⟩ | ⟨secs, rfl⟩ | rfl
  · rw [Action.apply_operation]
    rcases outcome_or_refused h a key with ⟨m, after, -, o⟩ | ⟨-, hsame⟩
    · exact o.idleBudget
    · rw [hsame]
  · cases heffective : isEffective secs with
    | false => rw [Operation.apply, sample_of_not_effective heffective]
    | true => rw [Operation.apply, sample_of_effective heffective]
  · rfl

/-- The budget stays what it was at the beginning of a run. -/
theorem idleBudget_run (h : s.Sound) (ops : List Operation) :
    (s.run ops).idleBudget = s.idleBudget := by
  induction ops generalizing s with
  | nil => rfl
  | cons op ops ih => exact (ih (h.apply op)).trans (idleBudget_apply h op)

/-! ## Every run -/

/-- After every run an action under a key is refused exactly if it is not a connection and no client
has the key; it is refused for want of the address if nobody is connected from there, and otherwise
for want of the id. An action that is refused or ignored leaves the topology exactly as it was. -/
theorem refusals_run (idleBudget : Nat) (ops : List Operation) (a : Action) (key : ClientKey) :
    ((a.perform key ((empty idleBudget).run ops)).1.isOk = false ↔
      (∀ bridge, a ≠ .connect bridge) ∧
        ((empty idleBudget).run ops).client? key.address key.id = none) ∧
    (∀ e, (a.perform key ((empty idleBudget).run ops)).1 = .error e →
      ((empty idleBudget).run ops).Missing key e) ∧
    ((a.perform key ((empty idleBudget).run ops)).1 ≠ .ok .applied →
      (a.perform key ((empty idleBudget).run ops)).2 = (empty idleBudget).run ops) := by
  have h : ((empty idleBudget).run ops).Sound := (sound_empty idleBudget).run ops
  exact ⟨isOk_perform_eq_false_iff h, fun e hrefused => missing_of_perform h hrefused,
    perform_of_not_applied h.wellFormed⟩

/-- Two clients come from one address, and one of them has left. -/
def halfLeft : List Operation :=
  [.addClient "10.0.0.1" "p" none, .addClient "10.0.0.1" "q" none,
    .addPublish "q" "10.0.0.1" "a/b" true 5, .removeClient "q" "10.0.0.1"]

/-- A publication in the name of the one that has left is refused: its address is known, its id is
not. It changes nothing, although the topic is still there. -/
theorem refusals_run_halfLeft :
    ((Action.publish "a/b" true 7).perform ⟨"10.0.0.1", "q"⟩ ((empty 3).run halfLeft)).1 =
        .error (.notFound .client "q") ∧
      ((empty 3).run halfLeft).Missing ⟨"10.0.0.1", "q"⟩ (.notFound .client "q") ∧
      ((Action.publish "a/b" true 7).perform ⟨"10.0.0.1", "q"⟩ ((empty 3).run halfLeft)).2 =
        (empty 3).run halfLeft := by
  have hanswer : ((Action.publish "a/b" true 7).perform ⟨"10.0.0.1", "q"⟩
      ((empty 3).run halfLeft)).1 = .error (.notFound .client "q") := by decide +kernel
  obtain ⟨-, hmissing, hsame⟩ :=
    refusals_run 3 halfLeft (.publish "a/b" true 7) ⟨"10.0.0.1", "q"⟩
  refine ⟨hanswer, hmissing _ hanswer, hsame ?_⟩
  rw [hanswer]
  rintro ⟨⟩

end Topology

end BrokerTopology
