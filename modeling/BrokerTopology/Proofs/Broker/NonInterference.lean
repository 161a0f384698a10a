import BrokerTopology.Proofs.Broker.Alike
/-!
# What a client does in private

Nobody else can tell whether a client subscribes, unsubscribes, acknowledges a probe or publishes on the
latency topic. The graph can, and so can whoever reads the documents about it; but leaving the documents
aside, the other clients are sent the same at every step of a run, and the same messages are retained,
as if the client had not done any of this.

A run in which some calls are marked stands for two: the one with all calls, and the one from which the
marked calls are deleted. The exchanges of the two runs are alike but for one client all the way.

Main statement: `nonInterference_run`.
-/

namespace BrokerTopology

namespace Exchange

/-! ## Calls -/

/-- What happens to an exchange: something reaches its broker, or an inbox is closed. -/
inductive Call where
  | input (i : Broker.Input)
  | close (id : String)

/-- The exchange after a call. -/
def call (x : Exchange) : Call → Exchange
  | .input (.event e) => x.step (.broker e)
  | .input (.request id r now stamp) => x.after (x.broker.dispatch id r now stamp)
  | .close id => x.step (.close id)

/-- The exchange after several calls, the first of the list first. -/
def callAll (x : Exchange) (calls : List Call) : Exchange :=
  calls.foldl call x

/-- What a call adds to the inbox of a client. -/
def added (x : Exchange) (id : String) (c : Call) : List Reply :=
  ((x.call c).inbox id).drop (x.inbox id).length

/-- What each call of a run adds to the inbox of a client, leaving the documents aside. -/
def frames (settings : GraphSettings) (id : String) : Exchange → List Call → List (List Reply)
  | _, [] => []
  | x, c :: cs => settings.outside (x.added id c) :: frames settings id (x.call c) cs

/-- A call that a client makes in private. -/
def Call.IsPrivate (settings : GraphSettings) (id : String) : Call → Prop
  | .input i => i.IsPrivate settings id
  | .close _ => False

/-- The replies to a call and the broker after it. -/
def Call.serve (b : Broker) : Call → List Delivery × Broker
  | .input i => b.serve i
  | .close _ => ([], b)

/-- The inbox of a client when a call is answered: it may be opened anew or closed. -/
def Call.inbox (c : Call) (id : String) (old : Option (List Reply)) : Option (List Reply) :=
  match c with
  | .input (.event (.register other _)) => if id = other then some [] else old
  | .close other => if id = other then none else old
  | _ => old

variable {x x' : Exchange} {id other : String} {settings : GraphSettings}

theorem broker_call (x : Exchange) (c : Call) : (x.call c).broker = (c.serve x.broker).2 := by
  rcases c with (e | ⟨id, r, now, stamp⟩) | id
  · exact broker_step x e
  · rfl
  · rfl

/-- A call appends to every inbox the replies to its client. -/
theorem find?_call (x : Exchange) (c : Call) (id : String) :
    (x.call c).inboxes.find? id =
      (c.inbox id (x.inboxes.find? id)).map fun old => old ++ repliesTo id (c.serve x.broker).1 := by
  rcases c with (e | ⟨sender, r, now, stamp⟩) | closed
  · cases e with
    | register other address =>
      -- the new inbox is empty, and a registration is not answered
      show (x.inboxes.set other []).find? id = _
      rw [Table.find?_set, Call.inbox, Call.serve, Broker.serve, Broker.perform]
      simp
    | _ => exact find?_step x (fun _ h => by cases h)
  · exact find?_foldl_deliver _ _ _
  · show (x.inboxes.erase closed).find? id = _
    rw [Table.find?_erase, Call.inbox, Call.serve]
    simp

/-- A call that opens or closes an inbox is not answered. -/
theorem Call.inbox_cases (c : Call) (b : Broker) (id : String) (old : Option (List Reply)) :
    c.inbox id old = old ∨ (c.inbox id old).getD [] = [] ∧ (c.serve b).1 = [] := by
  rcases c with (e | _) | other
  · cases e with
    | register other address =>
      by_cases h : id = other
      · exact Or.inr ⟨by simp [Call.inbox, h], rfl⟩
      · exact Or.inl (if_neg h)
    | _ => exact Or.inl rfl
  · exact Or.inl rfl
  · by_cases h : id = other
    · exact Or.inr ⟨by simp [Call.inbox, h], rfl⟩
    · exact Or.inl (if_neg h)

/-- What a call adds to an open inbox are the replies to its client. -/
theorem added_eq (x : Exchange) (id : String) (c : Call) :
    x.added id c =
      if (x.inboxes.find? id).isSome then repliesTo id (c.serve x.broker).1 else [] := by
  rw [added, Exchange.inbox, Exchange.inbox, find?_call]
  rcases c.inbox_cases x.broker id (x.inboxes.find? id) with hsame | ⟨hempty, hnone⟩
  · rw [hsame]
    cases x.inboxes.find? id with
    | none => rfl
    | some old => simp
  · rw [hnone, repliesTo_nil]
    simp [hempty]

/-! ## Inboxes without the documents -/

theorem outside_inbox (c : Call) (id : String) (old : Option (List Reply)) :
    (c.inbox id old).map settings.outside = c.inbox id (old.map settings.outside) := by
  unfold Call.inbox
  split
  · split
    · rfl
    · rfl
  · split
    · rfl
    · rfl
  · rfl

/-- Leaving the documents aside, a call still appends to every inbox the replies to its client. -/
theorem outside_find?_call (x : Exchange) (c : Call) (id : String) :
    ((x.call c).inboxes.find? id).map settings.outside =
      (c.inbox id ((x.inboxes.find? id).map settings.outside)).map fun old =>
        old ++ settings.outside (repliesTo id (c.serve x.broker).1) := by
  rw [find?_call, ← outside_inbox, Option.map_map, Option.map_map]
  exact congrArg (Option.map · _) (funext fun old => settings.outside_append old _)

theorem outside_added (x : Exchange) (id : String) (c : Call) :
    settings.outside (x.added id c) =
      if ((x.inboxes.find? id).map settings.outside).isSome then
        settings.outside (repliesTo id (c.serve x.broker).1)
      else [] := by
  rw [added_eq, Option.isSome_map]
  split
  · rfl
  · rfl

/-! ## Exchanges that are alike but for one client -/

/-- Two exchanges have brokers that are alike but for one client, and the inboxes of the others hold
the same, leaving the documents aside. -/
structure AlikeBut (settings : GraphSettings) (id : String) (x x' : Exchange) : Prop where
  settings_eq : x.broker.settings = settings
  broker : Broker.AlikeBut id x.broker x'.broker
  inboxes : ∀ other, other ≠ id →
    (x'.inboxes.find? other).map settings.outside = (x.inboxes.find? other).map settings.outside

theorem alikeBut_new (settings : GraphSettings) (start : Nat) (id : String) :
    AlikeBut settings id (new settings start) (new settings start) where
  settings_eq := rfl
  broker := .refl (Broker.wellFormed_new settings start) filed_empty id
  inboxes := fun _ _ => rfl

/-- No call changes the settings. -/
theorem settings_call (x : Exchange) (c : Call) : (x.call c).broker.settings = x.broker.settings := by
  rw [broker_call]
  cases c with
  | input i =>
    rw [Call.serve, Broker.serve_eq]
    exact x.broker.settings_perform i.toEvent
  | close id => rfl

namespace AlikeBut

variable (h : AlikeBut settings id x x')

include h

/-- A call to both leaves them alike, and adds the same to the inboxes of the other clients. -/
theorem call (c : Call) :
    AlikeBut settings id (x.call c) (x'.call c) ∧
      ∀ other, other ≠ id →
        settings.outside (x'.added other c) = settings.outside (x.added other c) := by
  have hserve : Broker.AlikeBut id (c.serve x.broker).2 (c.serve x'.broker).2 ∧
      ∀ other, other ≠ id → settings.outside (repliesTo other (c.serve x'.broker).1) =
        settings.outside (repliesTo other (c.serve x.broker).1) := by
    cases c with
    | input i =>
      rw [← h.settings_eq]
      exact h.broker.serve i
    | close closed => exact ⟨h.broker, fun _ _ => rfl⟩
  obtain ⟨hbroker, hreplies⟩ := hserve
  refine ⟨⟨(x.settings_call c).trans h.settings_eq, ?_, fun other hother => ?_⟩,
    fun other hother => ?_⟩
  · rw [broker_call, broker_call]
    exact hbroker
  · rw [outside_find?_call, outside_find?_call, h.inboxes other hother, hreplies other hother]
  · rw [outside_added, outside_added, h.inboxes other hother, hreplies other hother]

/-- A private call to one of them leaves them alike, and adds nothing to the inboxes of the other
clients. -/
theorem call_private {c : Call} (hc : c.IsPrivate settings id) :
    AlikeBut settings id (x.call c) x' ∧
      ∀ other, other ≠ id → settings.outside (x.added other c) = [] := by
  rcases c with i | closed
  · have hi : i.IsPrivate x.broker.settings id := by
      rw [h.settings_eq]
      exact hc
    obtain ⟨hbroker, hreplies⟩ := h.broker.serve_private hi
    -- in private nobody connects, so no inbox is opened anew
    have hinbox : ∀ other old, (Call.input i).inbox other old = old := by
      intro other old
      rcases i with e | _
      · cases e with
        | register _ _ => exact hc.elim
        | _ => rfl
      · rfl
    refine ⟨⟨(x.settings_call _).trans h.settings_eq, ?_, fun other hother => ?_⟩,
      fun other hother => ?_⟩
    · rw [broker_call]
      exact hbroker
    · rw [outside_find?_call, hinbox, Call.serve, hreplies other hother, h.inboxes other hother]
      cases x.inboxes.find? other with
      | none => rfl
      | some old => simp
    · rw [outside_added, Call.serve, hreplies other hother]
      simp
  · exact hc.elim

end AlikeBut

/-! ## Runs -/

/-- What is left of a run when the calls that are marked are deleted. -/
def kept (marked : List (Call × Bool)) : List Call :=
  (marked.filter fun e => !e.2).map Prod.fst

/-- Of some frames, those of the calls that are not marked. -/
def keptFrames (marked : List (Call × Bool)) (fs : List (List Reply)) : List (List Reply) :=
  (((marked.map Prod.snd).zip fs).filter fun e => !e.1).map Prod.snd

/-- Two runs of exchanges that are alike, of which the one leaves out private calls of the other, leave
them alike. -/
theorem AlikeBut.callAll (h : AlikeBut settings id x x') {marked : List (Call × Bool)}
    (hprivate : ∀ e ∈ marked, e.2 = true → e.1.IsPrivate settings id) :
    AlikeBut settings id (x.callAll (marked.map Prod.fst)) (x'.callAll (kept marked)) := by
  -- a call that is marked is made on the one side only, any other on both
  induction marked generalizing x x' with
  | nil => exact h
  | cons e es ih =>
    obtain ⟨c, deleted⟩ := e
    obtain ⟨hhere, hlater⟩ := List.forall_mem_cons.mp hprivate
    cases deleted with
    | true => exact ih (h.call_private (hhere rfl)).1 hlater
    | false => exact ih (h.call c).1 hlater

/-- At every call of the shorter run the other clients are sent the same, and nothing at the calls that
it leaves out. -/
theorem AlikeBut.frames_eq (h : AlikeBut settings id x x') {marked : List (Call × Bool)}
    (hprivate : ∀ e ∈ marked, e.2 = true → e.1.IsPrivate settings id) (hother : other ≠ id) :
    keptFrames marked (frames settings other x (marked.map Prod.fst)) =
        frames settings other x' (kept marked) ∧
      ∀ e ∈ (marked.map Prod.snd).zip (frames settings other x (marked.map Prod.fst)),
        e.1 = true → e.2 = [] := by
  induction marked generalizing x x' with
  | nil => exact ⟨rfl, by simp⟩
  | cons e es ih =>
    obtain ⟨c, deleted⟩ := e
    obtain ⟨hhere, hlater⟩ := List.forall_mem_cons.mp hprivate
    cases deleted with
    | true =>
      obtain ⟨halike, hnothing⟩ := h.call_private (hhere rfl)
      obtain ⟨hframes, hsilent⟩ := ih halike hlater
      refine ⟨hframes, List.forall_mem_cons.mpr ⟨fun _ => hnothing other hother, hsilent⟩⟩
    | false =>
      obtain ⟨halike, hsame⟩ := h.call c
      obtain ⟨hframes, hsilent⟩ := ih halike hlater
      refine ⟨?_, List.forall_mem_cons.mpr ⟨fun hmarked => (by cases hmarked), hsilent⟩⟩
      exact congrArg₂ List.cons (hsame other hother).symm hframes

/-- Two runs of an exchange, of which the second leaves out some calls of the first, are the same to
everyone but one client. -/
structure Undisturbed (settings : GraphSettings) (start : Nat) (id : String)
    (marked : List (Call × Bool)) : Prop where
  /-- On the topics of no document the same messages are retained. -/
  retained : ∀ topic, settings.isOutside topic = true →
    ((new settings start).callAll (kept marked)).broker.retained.find? topic =
      ((new settings start).callAll (marked.map Prod.fst)).broker.retained.find? topic
  /-- The inboxes of the others hold the same, in the same order, leaving the documents aside. -/
  inboxes : ∀ other, other ≠ id →
    (((new settings start).callAll (kept marked)).inboxes.find? other).map settings.outside =
      (((new settings start).callAll (marked.map Prod.fst)).inboxes.find? other).map settings.outside
  /-- A call that is left out adds nothing to the inboxes of the others. -/
  silent : ∀ other, other ≠ id →
    ∀ e ∈ (marked.map Prod.snd).zip
        (frames settings other (new settings start) (marked.map Prod.fst)),
      e.1 = true → e.2 = []
  /-- Every other call adds the same in both runs. -/
  steps : ∀ other, other ≠ id →
    keptFrames marked (frames settings other (new settings start) (marked.map Prod.fst)) =
      frames settings other (new settings start) (kept marked)

/-- Whatever a client does in private may be deleted from a run: leaving the documents aside, the
broker retains the same, and the others find the same in their inboxes, at every step and in order. -/
theorem nonInterference_run (settings : GraphSettings) (start : Nat) (id : String)
    {marked : List (Call × Bool)}
    (hprivate : ∀ e ∈ marked, e.2 = true → e.1.IsPrivate settings id) :
    Undisturbed settings start id marked := by
  have hnew := alikeBut_new settings start id
  have halike := hnew.callAll hprivate
  refine ⟨fun topic htopic => ?_, halike.inboxes, fun other hother => ?_, fun other hother => ?_⟩
  · have hretained := halike.broker.retained
    rw [halike.settings_eq] at hretained
    rw [← Table.find?_restrict _ htopic, hretained, Table.find?_restrict _ htopic]
  · exact (hnew.frames_eq hprivate hother).2
  · exact (hnew.frames_eq hprivate hother).1

/-- A client publishes to another one, and in between subscribes, is probed and unsubscribes. -/
def aside : List (Call × Bool) :=
  [(.input (.event (.register "a" "10.0.0.1")), false),
    (.input (.event (.register "b" "10.0.0.2")), false),
    (.input (.request "b" (.subscribe "x/#") 0 0), false),
    (.input (.request "a" (.subscribe "x/#") 0 0), true),
    (.input (.request "a" (.publish "x/y" "hello" true) 0 1), false),
    (.input (.request "a" (.publish "$GRAPH/latency" "" false) 0 2), true),
    (.input (.request "a" .probeAck 1000000 3), true),
    (.input (.request "a" (.subscribe "x/#/y") 0 4), true),
    (.input (.request "a" (.unsubscribe "x/#") 0 5), true),
    (.input (.request "b" (.subscribe "+/y") 0 6), false)]

/-- The other client is sent the message when it is published and when it is replayed, whether or not
the rest happens. -/
theorem nonInterference_run_aside :
    (∀ e ∈ aside, e.2 = true → e.1.IsPrivate {} "a") ∧
      frames {} "b" (new {}) (kept aside) =
        [[], [], [], [.message ⟨"x/y", "hello", 1, true⟩], [.message ⟨"x/y", "hello", 1, true⟩]] ∧
      ((new {}).callAll (kept aside)).broker.retained.find? "x/y" =
        some ⟨"x/y", "hello", 1, true⟩ := by
  have hprivate : ∀ e ∈ aside, e.2 = true → e.1.IsPrivate {} "a" := by
    simp [aside, Call.IsPrivate, Broker.Input.IsPrivate, Broker.Input.toEvent, Request.event,
      Broker.Event.IsPrivate]
  have hsame := nonInterference_run {} 0 "a" hprivate
  refine ⟨hprivate, ?_, ?_⟩
  · rw [← hsame.steps "b" (by decide)]
    decide +kernel
  · rw [hsame.retained "x/y" (by decide)]
    decide +kernel

end Exchange

end BrokerTopology
