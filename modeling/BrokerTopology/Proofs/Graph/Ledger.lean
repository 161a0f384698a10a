import BrokerTopology.Proofs.Graph.Publishers
import BrokerTopology.Proofs.Graph.Subscribers
/-!
# What topics keep by themselves

Most of a topic follows from the clients: its publishers are the edges that name it, its subscribers
the interested clients, and it is active while it has a publisher. What does not follow is its ledger:
the retain flag, the bytes and the rate, and the state in which the topic rests when its last publisher
has gone. Only publishing writes to the ledger, and only to that of its topic.
-/

namespace BrokerTopology

/-! ## Ledgers -/

/-- What a topic keeps by itself. `rest` is its state without publishers. -/
structure Ledger where
  retain : Bool
  counter : UInt64
  rate : Float
  rest : TopicState

namespace Ledger

/-- The bytes that the counter shows. -/
def bytes (l : Ledger) : Nat :=
  l.counter.toNat

/-- The ledger of a topic that has received nothing. -/
def fresh : Ledger :=
  ⟨false, 0, 0, .draining 0⟩

/-- The ledger after bytes were received, which come from a publisher. -/
def receive (budget : Nat) (retain : Bool) (bytes : Nat) (l : Ledger) : Ledger :=
  ⟨retain, Word.count l.counter bytes, l.rate, .draining (if retain then budget else 0)⟩

/-- Bytes received with one retain flag may come in either order. -/
theorem receive_comm (budget : Nat) (retain : Bool) (bytes bytes' : Nat) (l : Ledger) :
    (l.receive budget retain bytes).receive budget retain bytes' =
      (l.receive budget retain bytes').receive budget retain bytes := by
  rw [receive, receive, receive, receive, Word.count_comm]

end Ledger

namespace Topic

/-- The state of a topic once no client publishes to it. -/
def rest (budget : Nat) (t : Topic) : TopicState :=
  if t.publishers = 0 then t.state else .draining (if t.retain then budget else 0)

/-- The ledger of a topic. -/
def ledger (budget : Nat) (t : Topic) : Ledger :=
  ⟨t.retain, t.counter, t.rate, t.rest budget⟩

variable {budget n : Nat} {t : Topic}

/-- The state follows from the publishers and the ledger. -/
theorem state_eq (budget : Nat) (h : t.state = .active ↔ 0 < t.publishers) :
    t.state = if t.publishers = 0 then (t.ledger budget).rest else .active := by
  split
  · rename_i hnone
    rw [ledger, rest, if_pos hnone]
  · rename_i hsome
    exact h.mpr (Nat.pos_of_ne_zero hsome)

/-- A publisher that goes leaves the ledger as it was. -/
theorem ledger_detach (h : 0 < t.publishers) : (t.detach budget).ledger budget = t.ledger budget := by
  have hsome : t.publishers ≠ 0 := Nat.ne_of_gt h
  refine congrArg (Ledger.mk t.retain t.counter t.rate) ?_
  by_cases hlast : t.publishers - 1 = 0
  · simp [rest, detach, hlast, hsome]
  · simp [rest, detach, hlast, hsome]

/-- As many publishers as there are may go. -/
theorem ledger_detachTimes (h : n ≤ t.publishers) :
    (t.detachTimes budget n).ledger budget = t.ledger budget := by
  induction n generalizing t with
  | zero => rfl
  | succ n ih =>
    have hleft : n ≤ (t.detach budget).publishers := Nat.le_sub_one_of_lt h
    exact (ih hleft).trans (ledger_detach (Nat.zero_lt_of_lt h))

/-- Subscribers are not in the ledger. -/
theorem ledger_addSubscriber (key : ClientKey) : (t.addSubscriber key).ledger budget = t.ledger budget := by
  rw [addSubscriber]
  split
  · rfl
  · rfl

end Topic

namespace Topology

/-- A topic that receives bytes along an edge has a publisher. -/
theorem ledger_received {t : Topic} {isNew : Bool} (h : isNew = true ∨ 0 < t.publishers) (budget : Nat)
    (retain : Bool) (bytes : Nat) :
    (received retain bytes isNew t).ledger budget = (t.ledger budget).receive budget retain bytes := by
  cases isNew with
  | true => rfl
  | false =>
    have hsome : t.publishers ≠ 0 := Nat.ne_of_gt (h.resolve_left Bool.false_ne_true)
    refine congrArg (Ledger.mk retain (Word.count t.counter bytes) t.rate) ?_
    exact if_neg hsome

/-! ## The ledgers of a topology -/

/-- The ledger of the topic with a given name. -/
def ledger? (s : Topology) (name : String) : Option Ledger :=
  (s.topics.find? name).map (Topic.ledger s.idleBudget)

variable {s s' : Topology} {c : Client} {address id topic : String}

/-- Changes of the topics that leave every ledger as it was. -/
theorem ledger?_of_map (hs : s.WellFormed) (hs' : s'.WellFormed) (hbudget : s'.idleBudget = s.idleBudget)
    {f : Topic → Topic} (hvalues : s'.topics.values = s.topics.values.map f)
    (hname : ∀ t, (f t).name = t.name)
    (hledger : ∀ t ∈ s.topics.values, (f t).ledger s.idleBudget = t.ledger s.idleBudget)
    (name : String) : s'.ledger? name = s.ledger? name := by
  rw [ledger?, ledger?, hbudget, hs.topics.find?_of_map hs'.topics hname hvalues, Option.map_map]
  cases hfind : s.topics.find? name with
  | none => rfl
  | some t => exact congrArg some (hledger t (hs.topics.find?_eq_some_iff.mp hfind).1)

/-- The edges of one client are among those that a topic counts. -/
theorem count_publications_le {others : List Client} (hperm : s.clients.Perm (c :: others))
    (hcounted : Counted s.topics.values s.publications) {t : Topic} (ht : t ∈ s.topics.values) :
    c.publications.count t.name ≤ t.publishers := by
  rw [hcounted.publishers_eq t ht, (publications_perm hperm).count_eq, List.flatMap_cons,
    List.count_append]
  exact Nat.le_add_right _ _

/-- A topic to which a client has an edge counts a publisher. -/
theorem publishers_pos (hs : s.WellFormed) (hcounted : Counted s.topics.values s.publications)
    (hc : c ∈ s.clients) {t : Topic} (ht : t ∈ s.topics.values)
    (hedge : c.published.contains t.name = true) : 0 < t.publishers := by
  have hlisted := (hs.client hc).mem_publications_iff.mpr hedge
  rw [hcounted.publishers_eq t ht, List.count_pos_iff]
  exact List.mem_flatMap.mpr ⟨c, hc, hlisted⟩

/-- No client has an edge to a topic that is not listed. -/
theorem contains_published_eq_false (hs : s.WellFormed)
    (hcounted : Counted s.topics.values s.publications) (hc : c ∈ s.clients)
    (hnew : s.topics.contains topic = false) : c.published.contains topic = false := by
  rw [← Bool.not_eq_true]
  intro hedge
  have hlisted := (hs.client hc).mem_publications_iff.mpr hedge
  have hcontains := hs.topics.contains_iff.mpr
    (hcounted.listed topic (List.mem_flatMap.mpr ⟨c, hc, hlisted⟩))
  rw [hnew] at hcontains
  cases hcontains

/-- After a publication its topic has received the bytes, a new one if it was not known; the other
topics are found as before. -/
theorem find?_topics_addPublish (hs : s.WellFormed) (hfind : s.client? address id = some c)
    (topic : String) (retain : Bool) (bytes : Nat) (name : String) :
    (s.addPublish id address topic retain bytes).2.topics.find? name =
      if name = topic
      then some (received retain bytes (!c.published.contains topic)
        ((s.topics.find? topic).getD (s.newTopic topic retain)))
      else s.topics.find? name := by
  obtain ⟨s', published, topics, hanswer, hwf, -, -, hcases, htopics, -⟩ :=
    addPublish_spec hs hfind topic retain bytes
  rw [hanswer]
  dsimp only
  rcases hcases with ⟨hknown, rfl⟩ | ⟨hnew, hperm⟩
  · obtain ⟨t, ht⟩ := Option.isSome_iff_exists.mp hknown
    have hname := (hs.topics.find?_eq_some_iff.mp ht).2
    rw [hs.topics.find?_of_map hwf.topics (fun t => by split <;> simp) htopics]
    split
    · rename_i hsame
      rw [hsame, ht, Option.map_some, if_pos hname, Option.getD_some]
    · rename_i hother
      cases hfound : s.topics.find? name with
      | none => rfl
      | some u =>
        have hu := (hs.topics.find?_eq_some_iff.mp hfound).2
        rw [Option.map_some, hu, if_neg hother]
  · have hnone : s.topics.find? topic = none := by
      rwa [Dict.contains, Option.isSome_eq_false_iff, Option.isNone_iff_eq_none] at hnew
    have hname : (s.newTopic topic retain).name = topic := by
      rw [newTopic_eq hs]
      rfl
    -- no other topic has the name
    have hothers : ∀ t ∈ s.topics.values,
        (if t.name = topic then received retain bytes (!c.published.contains topic) t else t) = t := by
      intro t ht
      refine if_neg fun hsame => ?_
      rw [hs.topics.contains_iff.mpr ⟨t, ht, hsame⟩] at hnew
      cases hnew
    have hvalues : s'.topics.values.Perm
        (received retain bytes (!c.published.contains topic) (s.newTopic topic retain) ::
          s.topics.values) := by
      rw [htopics]
      refine (hperm.map _).trans ?_
      rw [List.map_cons, List.map_congr_left hothers, List.map_id', if_pos hname]
    rw [hs.topics.find?_of_perm_cons hwf.topics hvalues, name_received, hname, hnone, Option.getD_none]

/-- Publishing writes to the ledger of its topic, which is fresh if the topic was not known. -/
theorem ledger?_addPublish (hs : s.WellFormed) (hcounted : Counted s.topics.values s.publications)
    (hfind : s.client? address id = some c) (topic : String) (retain : Bool) (bytes : Nat)
    (name : String) :
    (s.addPublish id address topic retain bytes).2.ledger? name =
      if name = topic
      then some (((s.ledger? topic).getD .fresh).receive s.idleBudget retain bytes)
      else s.ledger? name := by
  have hc := ((client?_eq_some_iff hs).mp hfind).1
  have hbudget : (s.addPublish id address topic retain bytes).2.idleBudget = s.idleBudget := by
    obtain ⟨s', published, topics, hanswer, -, -, -, -, -, hbudget, -⟩ :=
      addPublish_spec hs hfind topic retain bytes
    rw [hanswer]
    exact hbudget
  rw [ledger?, hbudget, find?_topics_addPublish hs hfind]
  split
  · rw [ledger?, Option.map_some]
    cases hfound : s.topics.find? topic with
    | none =>
      -- the edge to a topic that is not known is new
      have hnew : s.topics.contains topic = false := by rw [Dict.contains, hfound]; rfl
      have hedge := contains_published_eq_false hs hcounted hc hnew
      rw [Option.getD_none, ledger_received (Or.inl (by rw [hedge]; rfl)), newTopic_eq hs]
      rfl
    | some t =>
      obtain ⟨ht, hname⟩ := hs.topics.find?_eq_some_iff.mp hfound
      have hpublisher : (!c.published.contains topic) = true ∨ 0 < t.publishers := by
        cases hedge : c.published.contains topic with
        | false => exact Or.inl rfl
        | true => exact Or.inr (publishers_pos hs hcounted hc ht (by rwa [hname]))
      rw [Option.getD_some, ledger_received hpublisher]
      rfl
  · rfl

end Topology

end BrokerTopology
