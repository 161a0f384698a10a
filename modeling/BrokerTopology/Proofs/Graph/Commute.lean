import BrokerTopology.Proofs.Graph.Actions
/-!
# Actions of different clients commute

Two clients may act in either order: they get the same answers, and the topologies are alike. A sound
topology is determined, up to the layout of its dictionaries and the order of the subscribers, by what
is found under each key, the ledgers of its topics and the flag of change. So it is enough to compare
these, and each of them is written by one of the two actions or by both in the same way. The exception
are two publications to one topic with different retain flags, where the later flag stays.
-/

namespace BrokerTopology

/-! ## Alike up to layout -/

/-- Two dictionaries file related values under the same keys, in any layout. -/
structure Dict.Alike {α : Type} (R : α → α → Prop) (d d' : Dict α) : Prop where
  size_eq : d.size = d'.size
  keys : d.keys.Perm d'.keys
  find? : ∀ key, Option.Rel R (d.find? key) (d'.find? key)

/-- Two hosts have one address and the same clients. -/
structure Host.Alike (h h' : Host) : Prop where
  address : h.address = h'.address
  clients : Dict.Alike Eq h.clients h'.clients

/-- Two topics agree, up to the order of their subscribers and the retain flag of a contested topic. -/
structure Topic.Alike (contested : String → Prop) (t t' : Topic) : Prop where
  name : t.name = t'.name
  retain : ¬ contested t.name → t.retain = t'.retain
  publishers : t.publishers = t'.publishers
  state : t.state = t'.state
  bytes : t.bytes = t'.bytes
  rate : t.rate = t'.rate
  subscribers : t.subscribers.Perm t'.subscribers

/-- Two topologies agree, up to layout, the order of subscribers and the retain flags of contested
topics. -/
structure Topology.Alike (contested : String → Prop) (s s' : Topology) : Prop where
  hosts : s.hosts.Alike Host.Alike s'.hosts
  topics : s.topics.Alike (Topic.Alike contested) s'.topics
  idleBudget : s.idleBudget = s'.idleBudget
  changed : s.changed = s'.changed

/-- Two ledgers agree, or at least in what was received. -/
structure Ledger.AlikeUnless (contested : Prop) (l l' : Ledger) : Prop where
  bytes : l.bytes = l'.bytes
  rate : l.rate = l'.rate
  eq : ¬ contested → l = l'

namespace Dict

variable {α : Type} {d d' : Dict α}

/-- What is found is the same value. -/
theorem rel_eq_of_eq {o o' : Option α} (h : o = o') : Option.Rel Eq o o' := by
  subst h
  cases o with
  | none => exact .none
  | some v => exact .some rfl

/-- Two related look-ups find nothing, or related values. -/
theorem rel_cases {R : α → α → Prop} {o o' : Option α} (h : Option.Rel R o o') :
    (o = none ∧ o' = none) ∨ ∃ v v', o = some v ∧ o' = some v' ∧ R v v' := by
  cases h with
  | none => exact Or.inl ⟨rfl, rfl⟩
  | some hrel => exact Or.inr ⟨_, _, rfl, rfl, hrel⟩

/-- What is found on both sides is related the other way round as well. -/
theorem rel_flip {R : α → α → Prop} {o o' : Option α} (h : Option.Rel R o o') :
    Option.Rel (flip R) o' o := by
  cases h with
  | none => exact .none
  | some hrel => exact .some hrel

/-- Of two related look-ups both find something or none does. -/
theorem isSome_eq_of_rel {R : α → α → Prop} {o o' : Option α} (h : Option.Rel R o o') :
    o.isSome = o'.isSome := by
  cases h with
  | none => rfl
  | some _ => rfl

/-- Look-ups are related if what they are mapped to is. -/
theorem rel_of_rel_map {β : Type} {f : α → β} {R : β → β → Prop} {R' : α → α → Prop} {o o' : Option α}
    (h : Option.Rel R (o.map f) (o'.map f))
    (himp : ∀ v v', o = some v → o' = some v' → R (f v) (f v') → R' v v') : Option.Rel R' o o' := by
  match o, o', h with
  | none, none, _ => exact .none
  | some v, some v', .some hrel => exact .some (himp v v' rfl rfl hrel)

/-- Well-formed dictionaries in which related values are found have the same keys. -/
theorem alike_of_find? (h : d.WellFormed) (h' : d'.WellFormed) {R : α → α → Prop}
    (hfind : ∀ key, Option.Rel R (d.find? key) (d'.find? key)) : d.Alike R d' := by
  have hkeys : d.keys.Perm d'.keys := by
    refine (List.perm_ext_iff_of_nodup h.keys_nodup h'.keys_nodup).mpr fun key => ?_
    have hcontains : d.contains key = true ↔ d'.contains key = true := by
      rw [contains, contains, isSome_eq_of_rel (hfind key)]
    rw [contains_iff h, contains_iff h'] at hcontains
    simpa [keys] using hcontains
  refine ⟨?_, hkeys, hfind⟩
  have hlength := hkeys.length_eq
  rw [keys, keys, List.length_map, List.length_map] at hlength
  rw [h.size_eq, h'.size_eq, hlength]

end Dict

namespace Topology

variable {s s' : Topology}

/-! ## Alike hosts -/

/-- A client is found with the host at its address. -/
theorem clientAt_of_find? {address : String} {host : Host} (h : s.hosts.find? address = some host)
    (id : String) : s.clientAt ⟨address, id⟩ = host.clients.find? id := by
  simp [clientAt, client?, h]

/-- At every listed address some client is found. -/
theorem exists_clientAt (hs : s.WellFormed) {address : String} {host : Host}
    (h : s.hosts.find? address = some host) : ∃ id c, s.clientAt ⟨address, id⟩ = some c := by
  have hwf := hs.host host (hs.hosts.find?_eq_some_iff.mp h).1
  obtain ⟨c, hc⟩ := List.exists_mem_of_ne_nil _ hwf.nonempty
  exact ⟨c.id, c, (clientAt_of_find? h c.id).trans (hwf.clients.find?_eq_some_iff.mpr ⟨hc, rfl⟩)⟩

/-- Where related clients are found, every listed address is listed. -/
theorem find?_hosts_ne_none (hs : s.WellFormed) {R : Client → Client → Prop}
    (hclients : ∀ key, Option.Rel R (s.clientAt key) (s'.clientAt key)) {address : String} {host : Host}
    (h : s.hosts.find? address = some host) : s'.hosts.find? address ≠ none := by
  intro hnone
  obtain ⟨id, c, hc⟩ := exists_clientAt hs h
  have hsome := Dict.isSome_eq_of_rel (hclients ⟨address, id⟩)
  rw [hc, clientAt, client?, hnone] at hsome
  cases hsome

/-- Where related clients are found, hosts of one address have related clients. -/
theorem hosts_alike_of_rel (hs : s.WellFormed) (hs' : s'.WellFormed) {R : Client → Client → Prop}
    (hclients : ∀ key, Option.Rel R (s.clientAt key) (s'.clientAt key)) {Q : Host → Host → Prop}
    (hQ : ∀ h h' : Host, h.address = h'.address → h.clients.Alike R h'.clients → Q h h') :
    s.hosts.Alike Q s'.hosts := by
  refine Dict.alike_of_find? hs.hosts.toWellFormed hs'.hosts.toWellFormed fun address => ?_
  cases hfind : s.hosts.find? address with
  | none =>
    cases hfind' : s'.hosts.find? address with
    | none => exact .none
    | some host' =>
      have hback : ∀ key, Option.Rel (flip R) (s'.clientAt key) (s.clientAt key) :=
        fun key => Dict.rel_flip (hclients key)
      exact absurd hfind (find?_hosts_ne_none hs' hback hfind')
  | some host =>
    cases hfind' : s'.hosts.find? address with
    | none => exact absurd hfind' (find?_hosts_ne_none hs hclients hfind)
    | some host' =>
      obtain ⟨hmem, haddress⟩ := hs.hosts.find?_eq_some_iff.mp hfind
      obtain ⟨hmem', haddress'⟩ := hs'.hosts.find?_eq_some_iff.mp hfind'
      refine .some (hQ host host' (haddress.trans haddress'.symm) ?_)
      refine Dict.alike_of_find? (hs.host host hmem).clients.toWellFormed
        (hs'.host host' hmem').clients.toWellFormed fun id => ?_
      rw [← clientAt_of_find? hfind, ← clientAt_of_find? hfind']
      exact hclients ⟨address, id⟩

/-- Where the same clients are found, the hosts are alike. -/
theorem hosts_alike (hs : s.WellFormed) (hs' : s'.WellFormed)
    (hclients : ∀ key, s.clientAt key = s'.clientAt key) : s.hosts.Alike Host.Alike s'.hosts :=
  hosts_alike_of_rel hs hs' (fun key => Dict.rel_eq_of_eq (hclients key)) fun _ _ => Host.Alike.mk

/-- Where the same clients are found, the same are listed. -/
theorem clients_perm (hs : s.WellFormed) (hs' : s'.WellFormed)
    (hclients : ∀ key, s.clientAt key = s'.clientAt key) : s.clients.Perm s'.clients := by
  refine (List.perm_ext_iff_of_nodup (hs.keys_nodup.of_map _) (hs'.keys_nodup.of_map _)).mpr
    fun c => ?_
  have hfind : ∀ {s : Topology}, s.WellFormed → (c ∈ s.clients ↔ s.clientAt c.key = some c) :=
    fun hs => ((clientAt_eq_some_iff hs).trans (and_iff_left rfl)).symm
  rw [hfind hs, hfind hs', hclients]

/-! ## Alike topics -/

/-- Two topics of one name are alike where the same edges and interested clients are and their ledgers
agree. If the topic is contested it must have a publisher, so that its state does not depend on its
ledger. -/
theorem topic_alike (h : s.Sound) (h' : s'.Sound) (hedges : s.publications.Perm s'.publications)
    (hwanted : ∀ key name, Wanted s.clients key name ↔ Wanted s'.clients key name)
    {contested : String → Prop} {t t' : Topic} (ht : t ∈ s.topics.values) (ht' : t' ∈ s'.topics.values)
    (hname : t.name = t'.name)
    (hledger : Ledger.AlikeUnless (contested t.name) (t.ledger s.idleBudget) (t'.ledger s.idleBudget))
    (hpublished : contested t.name → t.name ∈ s.publications) : Topic.Alike contested t t' := by
  have hpublishers : t.publishers = t'.publishers := by
    rw [h.counted.publishers_eq t ht, h'.counted.publishers_eq t' ht', ← hname]
    exact hedges.count_eq t.name
  have hstate : t.state = t'.state := by
    rw [Topic.state_eq s.idleBudget (h.counted.active_iff t ht),
      Topic.state_eq s.idleBudget (h'.counted.active_iff t' ht'), hpublishers]
    split
    · rename_i hnone
      have hnot : ¬ contested t.name := by
        intro hcontested
        have hsome := List.count_pos_iff.mpr (hpublished hcontested)
        rw [← h.counted.publishers_eq t ht, hpublishers, hnone] at hsome
        exact Nat.lt_irrefl 0 hsome
      rw [hledger.eq hnot]
    · rfl
  have hsubscribers : t.subscribers.Perm t'.subscribers := by
    refine (List.perm_ext_iff_of_nodup (h.joined.nodup t ht) (h'.joined.nodup t' ht')).mpr
      fun key => ?_
    rw [h.joined.mem_iff t ht, h'.joined.mem_iff t' ht', ← hname]
    exact hwanted key t.name
  exact ⟨hname, fun hnot => congrArg Ledger.retain (hledger.eq hnot), hpublishers, hstate,
    hledger.bytes, hledger.rate, hsubscribers⟩

/-- Where the same edges and interested clients are and the ledgers agree, the topics are alike. -/
theorem topics_alike (h : s.Sound) (h' : s'.Sound) (hedges : s.publications.Perm s'.publications)
    (hwanted : ∀ key name, Wanted s.clients key name ↔ Wanted s'.clients key name)
    (hbudget : s.idleBudget = s'.idleBudget) {contested : String → Prop}
    (hledgers : ∀ name,
      Option.Rel (Ledger.AlikeUnless (contested name)) (s.ledger? name) (s'.ledger? name))
    (hpublished : ∀ name, contested name → name ∈ s.publications) :
    s.topics.Alike (Topic.Alike contested) s'.topics := by
  refine Dict.alike_of_find? h.wellFormed.topics.toWellFormed h'.wellFormed.topics.toWellFormed
    fun name => ?_
  have hledger := hledgers name
  rw [ledger?, ledger?, ← hbudget] at hledger
  refine Dict.rel_of_rel_map hledger fun t t' hfind hfind' hledger => ?_
  obtain ⟨ht, rfl⟩ := h.wellFormed.topics.find?_eq_some_iff.mp hfind
  obtain ⟨ht', hname⟩ := h'.wellFormed.topics.find?_eq_some_iff.mp hfind'
  exact topic_alike h h' hedges hwanted ht ht' hname.symm hledger (hpublished t.name)

/-! ## Two actions -/

/-- Two actions publish to a topic with different retain flags. -/
def Contested (a b : Action) (name : String) : Prop :=
  ∃ retain retain' bytes bytes', a = .publish name retain bytes ∧ b = .publish name retain' bytes' ∧
    retain ≠ retain'

variable {a b : Action} {k l : ClientKey} {m : Mutation} {after : Option Client}

/-- A ledger agrees with itself. -/
theorem rel_alikeUnless_refl (contested : Prop) (l : Option Ledger) :
    Option.Rel (Ledger.AlikeUnless contested) l l := by
  cases l with
  | none => exact .none
  | some l => exact .some ⟨rfl, rfl, fun _ => rfl⟩

/-- Two actions may write to a ledger in either order. -/
theorem onLedger_comm (budget : Nat) (a b : Action) (name : String) (l : Option Ledger) :
    Option.Rel (Ledger.AlikeUnless (Contested a b name))
      (b.onLedger budget name (a.onLedger budget name l))
      (a.onLedger budget name (b.onLedger budget name l)) := by
  cases a with
  | publish topic retain bytes =>
    cases b with
    | publish topic' retain' bytes' =>
      by_cases htopic : name = topic
      · by_cases htopic' : name = topic'
        · subst htopic htopic'
          simp only [Action.onLedger, if_true, Option.getD_some]
          refine .some ⟨congrArg UInt64.toNat (Word.count_comm _ _ _), rfl, fun hnot => ?_⟩
          have hsame : retain = retain' := by
            by_contra hne
            exact hnot ⟨retain, retain', bytes, bytes', rfl, rfl, hne⟩
          rw [hsame, Ledger.receive_comm]
        · simp only [Action.onLedger, if_neg htopic']
          exact rel_alikeUnless_refl _ _
      · simp only [Action.onLedger, if_neg htopic]
        exact rel_alikeUnless_refl _ _
    | _ => exact rel_alikeUnless_refl _ _
  | _ => exact rel_alikeUnless_refl _ _

/-- An action may list a topic, and never takes one away. -/
theorem Outcome.listed (o : Outcome a k s s' m after) {name : String} (h : s.Listed name) :
    s'.Listed name := by
  rw [listed_iff_ledger?] at h ⊢
  rw [o.ledger, Action.onLedger.eq_def]
  split
  · split
    · rfl
    · exact h
  · exact h

/-- An action that lists a topic publishes to it. -/
theorem Outcome.publishes (o : Outcome a k s s' m after) {name : String} (hnew : ¬ s.Listed name)
    (hlisted : s'.Listed name) : ∃ retain bytes, a = .publish name retain bytes := by
  rw [listed_iff_ledger?] at hnew hlisted
  rw [o.ledger, Action.onLedger.eq_def] at hlisted
  split at hlisted
  · rename_i topic retain bytes
    split at hlisted
    · rename_i hsame
      exact ⟨retain, bytes, by rw [hsame]⟩
    · exact absurd hlisted hnew
  · exact absurd hlisted hnew

/-- A client that publishes is found before and after it, and sends along its edge. -/
theorem Outcome.sends {topic : String} {retain : Bool} {bytes : Nat}
    (o : Outcome (.publish topic retain bytes) k s s' m after) :
    ∃ c, s.clientAt k = some c ∧ after = some (sent c topic s.idleBudget bytes) := by
  have hrespond := o.respond
  cases hfind : s.clientAt k with
  | none =>
    rw [hfind] at hrespond
    cases hrespond
  | some c =>
    rw [hfind] at hrespond
    obtain ⟨-, rfl⟩ := Prod.mk.inj (Option.some.inj hrespond)
    exact ⟨c, rfl, rfl⟩

/-- A client that lists a topic gains an edge, which is visible whatever is listed. -/
theorem Outcome.visible_of_lists (h : s.Sound) (o : Outcome a k s s' m after) {name : String}
    (hnew : ¬ s.Listed name) (hlisted : s'.Listed name) (listed : String → Prop) :
    Visible listed (s.clientAt k) after := by
  obtain ⟨retain, bytes, rfl⟩ := o.publishes hnew hlisted
  obtain ⟨c, hfind, rfl⟩ := o.sends
  have hc := ((clientAt_eq_some_iff h.wellFormed).mp hfind).1
  rw [hfind, visible_sent_iff (h.wellFormed.client hc)]
  exact contains_published_eq_false h.wellFormed h.counted hc (by simpa [Listed] using hnew)

/-- What is visible after an action of another client was visible before it, unless the other action
is visible itself. -/
theorem Outcome.visible_before (h : s.Sound) (o : Outcome a k s s' m after)
    {before after' : Option Client} (hvisible : Visible s'.Listed before after')
    (listed : String → Prop) :
    Visible s.Listed before after' ∨ Visible listed (s.clientAt k) after := by
  match before, after' with
  | none, none => exact absurd hvisible id
  | none, some c => exact Or.inl trivial
  | some c, none => exact Or.inl trivial
  | some c, some c' =>
    rcases hvisible with hedge | ⟨topic, hlisted, hne⟩
    · exact Or.inl (Or.inl hedge)
    · by_cases hbefore : s.Listed topic
      · exact Or.inl (Or.inr ⟨topic, hbefore, hne⟩)
      · exact Or.inr (o.visible_of_lists h hbefore hlisted listed)

section Commute

variable {s₁ s₂ t₁ t₂ : Topology} {m' n n' : Mutation} {x x' y y' : Option Client}

/-- An action answers the same before and after an action of another client. -/
theorem Outcome.same_response (hkeys : k ≠ l) (oa : Outcome a k s s₁ m x) (ob : Outcome b l s t₁ n y)
    (ob' : Outcome b l s₁ s₂ n' y') : n' = n ∧ y' = y := by
  have hrespond := ob'.respond
  rw [oa.idleBudget, oa.clientAt, if_neg hkeys.symm, ob.respond] at hrespond
  obtain ⟨hn, hy⟩ := Prod.mk.inj (Option.some.inj hrespond)
  exact ⟨hn.symm, hy.symm⟩

/-- One of the two actions is visible in the one order if one is in the other. -/
theorem changed_of_outcomes (h : s.Sound) (hkeys : k ≠ l) (oa : Outcome a k s s₁ m x)
    (ob : Outcome b l s t₁ n y) (ob' : Outcome b l s₁ s₂ n y) (oa' : Outcome a k t₁ t₂ m x)
    (hchanged : s₂.changed = true) : t₂.changed = true := by
  rw [oa'.changed, ob.changed, ob.clientAt, if_neg hkeys]
  rw [ob'.changed, oa.changed, oa.clientAt, if_neg hkeys.symm] at hchanged
  rcases hchanged with (hset | ha) | hb
  · exact Or.inl (Or.inl hset)
  · exact Or.inr (ha.mono fun _ hlisted => ob.listed hlisted)
  · rcases oa.visible_before h hb t₁.Listed with hb | ha
    · exact Or.inl (Or.inr hb)
    · exact Or.inr ha

/-- Two actions of different clients give the same answers in either order, and leave topologies that
are alike. -/
theorem alike_of_outcomes (h : s.Sound) (hs₂ : s₂.Sound) (ht₂ : t₂.Sound) (hkeys : k ≠ l)
    (oa : Outcome a k s s₁ m x) (ob : Outcome b l s t₁ n y) (ob' : Outcome b l s₁ s₂ n' y')
    (oa' : Outcome a k t₁ t₂ m' x') : m' = m ∧ n' = n ∧ Alike (Contested a b) s₂ t₂ := by
  obtain ⟨rfl, rfl⟩ := Outcome.same_response hkeys oa ob ob'
  obtain ⟨rfl, rfl⟩ := Outcome.same_response hkeys.symm ob oa oa'
  have hclients : ∀ key, s₂.clientAt key = t₂.clientAt key := by
    intro key
    rw [ob'.clientAt, oa.clientAt, oa'.clientAt, ob.clientAt]
    by_cases hk : key = k
    · rw [hk, if_neg hkeys, if_pos rfl, if_pos rfl]
    · rw [if_neg hk, if_neg hk]
  have hbudget : s₂.idleBudget = t₂.idleBudget := by
    rw [ob'.idleBudget, oa.idleBudget, oa'.idleBudget, ob.idleBudget]
  have hperm := clients_perm hs₂.wellFormed ht₂.wellFormed hclients
  have hledgers : ∀ name,
      Option.Rel (Ledger.AlikeUnless (Contested a b name)) (s₂.ledger? name) (t₂.ledger? name) := by
    intro name
    rw [ob'.ledger, oa.ledger, oa'.ledger, ob.ledger, oa.idleBudget, ob.idleBudget]
    exact onLedger_comm s.idleBudget a b name (s.ledger? name)
  -- who publishes to a contested topic has an edge to it
  have hpublished : ∀ name, Contested a b name → name ∈ s₂.publications := by
    rintro name ⟨retain, retain', bytes, bytes', rfl, -⟩
    obtain ⟨c, hfind, rfl⟩ := oa.sends
    have hc := h.wellFormed.client ((clientAt_eq_some_iff h.wellFormed).mp hfind).1
    have hafter : s₂.clientAt k = some (sent c name s.idleBudget bytes) := by
      rw [ob'.clientAt, if_neg hkeys, oa.clientAt, if_pos rfl]
    have hmem := ((clientAt_eq_some_iff hs₂.wellFormed).mp hafter).1
    refine List.mem_flatMap.mpr ⟨_, hmem, ?_⟩
    rw [(hs₂.wellFormed.client hmem).mem_publications_iff]
    exact ((sent_spec hc name s.idleBudget bytes).2 name).mpr (Or.inl rfl)
  refine ⟨rfl, rfl, hosts_alike hs₂.wellFormed ht₂.wellFormed hclients,
    topics_alike hs₂ ht₂ (publications_perm hperm) (fun _ _ => keyed_congr hperm) hbudget hledgers
      hpublished, hbudget, Bool.eq_iff_iff.mpr ⟨?_, ?_⟩⟩
  · exact changed_of_outcomes h hkeys oa ob ob' oa'
  · exact changed_of_outcomes h hkeys.symm ob oa oa' ob'

/-- After every run two actions under different keys that are not refused, in the one order or the
other, have the same answers in either order and leave topologies that are alike, but for the retain
flag of a topic to which both publish with different flags. -/
theorem commute_run {idleBudget : Nat} {ops : List Operation} (hrun : s = (empty idleBudget).run ops)
    (hkeys : k ≠ l) (ha : (a.perform k s).1.isOk = true)
    (hb' : (b.perform l (a.perform k s).2).1.isOk = true) (hb : (b.perform l s).1.isOk = true)
    (ha' : (a.perform k (b.perform l s).2).1.isOk = true) :
    (a.perform k (b.perform l s).2).1 = (a.perform k s).1 ∧
      (b.perform l (a.perform k s).2).1 = (b.perform l s).1 ∧
      Alike (Contested a b) (b.perform l (a.perform k s).2).2 (a.perform k (b.perform l s).2).2 := by
  have h : s.Sound := by
    rw [hrun]
    exact (sound_empty idleBudget).run ops
  have hs₁ := h.perform a k
  have ht₁ := h.perform b l
  have hs₂ := hs₁.perform b l
  have ht₂ := ht₁.perform a k
  obtain ⟨m, s₁, x, hanswer₁, oa⟩ := succeeds_of_isOk h ha
  obtain ⟨n, t₁, y, hanswer₁', ob⟩ := succeeds_of_isOk h hb
  rw [hanswer₁] at hs₁ hs₂ hb' ⊢
  rw [hanswer₁'] at ht₁ ht₂ ha' ⊢
  obtain ⟨n', s₂, y', hanswer₂, ob'⟩ := succeeds_of_isOk hs₁ hb'
  obtain ⟨m', t₂, x', hanswer₂', oa'⟩ := succeeds_of_isOk ht₁ ha'
  rw [hanswer₂] at hs₂ ⊢
  rw [hanswer₂'] at ht₂ ⊢
  obtain ⟨rfl, rfl, halike⟩ := alike_of_outcomes h hs₂ ht₂ hkeys oa ob ob' oa'
  exact ⟨rfl, rfl, halike⟩

/-- A client is the only publisher of a retained topic, and another waits to take it over. -/
def handover : Topology :=
  (empty 3).run [.addClient "10.0.0.1" "p" none, .addPublish "p" "10.0.0.1" "a/b" true 5,
    .addClient "10.0.0.2" "q" none, .addSubscription "p" "10.0.0.1" "a/#"]

/-- It does not matter whether the new publisher comes before the old one goes: the topic, for which
the drain begins in one order only, is active in the end. -/
theorem commute_run_handover :
    (Action.disconnect.perform ⟨"10.0.0.1", "p"⟩ handover).1 = .ok .applied ∧
      ((Action.publish "a/b" false 7).perform ⟨"10.0.0.2", "q"⟩
        (Action.disconnect.perform ⟨"10.0.0.1", "p"⟩ handover).2).2.topics.values.map Topic.state =
          [.active] ∧
      Alike (Contested .disconnect (.publish "a/b" false 7))
        ((Action.publish "a/b" false 7).perform ⟨"10.0.0.2", "q"⟩
          (Action.disconnect.perform ⟨"10.0.0.1", "p"⟩ handover).2).2
        (Action.disconnect.perform ⟨"10.0.0.1", "p"⟩
          ((Action.publish "a/b" false 7).perform ⟨"10.0.0.2", "q"⟩ handover).2).2 := by
  have hkeys : (⟨"10.0.0.1", "p"⟩ : ClientKey) ≠ ⟨"10.0.0.2", "q"⟩ := by decide
  obtain ⟨-, -, halike⟩ := commute_run (s := handover) (a := .disconnect)
    (b := .publish "a/b" false 7) rfl hkeys (by decide +kernel) (by decide +kernel)
    (by decide +kernel) (by decide +kernel)
  exact ⟨by decide +kernel, by decide +kernel, halike⟩

/-- The later of two different retain flags stays. -/
example :
    (((Action.publish "a/b" false 7).perform ⟨"10.0.0.2", "q"⟩
        ((Action.publish "a/b" true 5).perform ⟨"10.0.0.1", "p"⟩ handover).2).2.topics.values.map
          Topic.retain = [false]) ∧
      ((Action.publish "a/b" true 5).perform ⟨"10.0.0.1", "p"⟩
        ((Action.publish "a/b" false 7).perform ⟨"10.0.0.2", "q"⟩ handover).2).2.topics.values.map
          Topic.retain = [true] := by
  decide +kernel

end Commute

end Topology

end BrokerTopology
