import BrokerTopology.Graph.Client
/-!
# Topics

A topic lives while clients publish to it. When the last publish edge goes it drains: a retained
topic for a budget of samples, any other until the next sample. A new publish edge makes it active
again.
-/

namespace BrokerTopology

/-- Where a topic stands in its life. -/
inductive TopicState where
  /-- Some client publishes to the topic. -/
  | active
  /-- No client does; the topic goes with the sample that finds no ticks left. -/
  | draining (ticksLeft : Nat)
  deriving DecidableEq, Repr

/-- A topic. `publishers` counts the publish edges that name it, `counter` the bytes that were received
since the last sample, `rate` is what that sample computed, and `subscribers` are the clients it is
delivered to, in the order of subscription. -/
structure Topic where
  name : String
  retain : Bool
  publishers : Nat
  state : TopicState
  counter : UInt64
  rate : Float
  subscribers : List ClientKey
  deriving DecidableEq, Repr

namespace Topic

/-- A topic without publishers. -/
def fresh (name : String) (retain : Bool) : Topic :=
  ⟨name, retain, 0, .draining 0, 0, 0, []⟩

/-- The bytes that the counter shows. -/
def bytes (t : Topic) : Nat :=
  t.counter.toNat

/-! ## Publish edges -/

/-- One more client publishes to the topic. -/
def attach (t : Topic) : Topic :=
  { t with publishers := t.publishers + 1, state := .active }

/-- One client less publishes to the topic; the last one starts the drain. -/
def detach (budget : Nat) (t : Topic) : Topic :=
  let left := t.publishers - 1
  { t with
    publishers := left
    state := if left = 0 then .draining (if t.retain then budget else 0) else t.state }

/-- Bytes are received, with the retain flag of the latest message. -/
def receive (t : Topic) (retain : Bool) (bytes : Nat) : Topic :=
  { t with counter := Word.count t.counter bytes, retain := retain }

/-! ## Draining -/

/-- Whether the drain is over. -/
def isDrained (t : Topic) : Bool :=
  t.state = .draining 0

/-- A drain that is not over goes on by one tick. -/
def drain (t : Topic) : Topic :=
  match t.state with
  | .active => t
  | .draining n => { t with state := .draining (n - 1) }

/-! ## Subscribers -/

/-- Whether a client is a subscriber. -/
def hasSubscriber (t : Topic) (key : ClientKey) : Bool :=
  t.subscribers.contains key

/-- Adds a subscriber at the end, unless it is one already. -/
def addSubscriber (t : Topic) (key : ClientKey) : Topic :=
  if t.hasSubscriber key then t else { t with subscribers := t.subscribers ++ [key] }

/-- Takes a subscriber out. -/
def removeSubscriber (t : Topic) (key : ClientKey) : Topic :=
  { t with subscribers := t.subscribers.filter (· != key) }

/-! ## Sampling -/

/-- The rate that a sample over `secs` seconds finds. -/
def measured (t : Topic) (secs : Float) : Float :=
  Float.ofNat t.bytes / secs

/-- The topic with the rate of a sample. -/
def sampled (secs : Float) (t : Topic) : Topic :=
  { t with counter := 0, rate := t.measured secs }

/-! ## What the operations leave -/

/-- A topic with a publisher does not go. -/
@[simp] theorem isDrained_attach (t : Topic) : t.attach.isDrained = false := rfl

/-- A client is a subscriber once it has been added. -/
theorem hasSubscriber_addSubscriber_self (t : Topic) (key : ClientKey) :
    (t.addSubscriber key).hasSubscriber key = true := by
  unfold addSubscriber
  split
  · assumption
  · simp [hasSubscriber]

/-- A subscriber that is added again changes nothing. -/
theorem addSubscriber_of_hasSubscriber {t : Topic} {key : ClientKey} (h : t.hasSubscriber key) :
    t.addSubscriber key = t := by
  rw [addSubscriber, if_pos h]

/-- A client is no subscriber once it has been taken out. -/
theorem hasSubscriber_removeSubscriber_self (t : Topic) (key : ClientKey) :
    (t.removeSubscriber key).hasSubscriber key = false := by
  simp [removeSubscriber, hasSubscriber]

end Topic

end BrokerTopology
