import BrokerTopology.Dict.Basic
import BrokerTopology.Filter
import BrokerTopology.Word
/-!
# Clients and what they own

A client remembers its subscription filters and owns its publish edges and its latency
measurement. It names the address it is connected from, and an edge names its topic: nothing points
at anything else. Instants are nanoseconds.
-/

namespace BrokerTopology

/-! ## Durations and thresholds -/

/-- A number of nanoseconds in seconds: the whole seconds and the rest are added as doubles. -/
def seconds (ns : Nat) : Float :=
  Float.ofNat (ns / 1000000000) + Float.ofNat (ns % 1000000000) / Float.ofNat 1000000000

/-- Rates and latencies that differ by at most this much count as equal. -/
def tolerance : Float := 0.001

/-- Whether a reported value moves by more than the tolerance. -/
def moved (old new : Float) : Bool :=
  (new - old).abs > tolerance

/-! ## Keys -/

/-- A client is known by its address and its id. -/
structure ClientKey where
  address : String
  id : String
  deriving DecidableEq, Repr

/-! ## Publish edges -/

/-- A client publishes to a topic. `counter` counts the bytes that were sent since the last sample,
`rate` is what the last sample computed, and `ttl` is the number of idle samples that the edge still
survives. -/
structure Edge where
  topic : String
  counter : UInt64
  rate : Float
  ttl : Int
  deriving DecidableEq, Repr

namespace Edge

/-- The bytes that the counter shows. -/
def bytes (e : Edge) : Nat :=
  e.counter.toNat

/-- A new edge has sent `bytes` bytes. -/
def fresh (topic : String) (ttl : Int) (bytes : Nat) : Edge :=
  ⟨topic, .ofNat bytes, 0, ttl⟩

/-- More bytes are sent along the edge, which starts its idle time anew. -/
def send (e : Edge) (ttl : Int) (bytes : Nat) : Edge :=
  { e with counter := Word.count e.counter bytes, ttl := ttl }

/-- The rate that a sample over `secs` seconds finds. -/
def measured (e : Edge) (secs : Float) : Float :=
  Float.ofNat e.bytes / secs

/-- The edge after a sample. -/
def sampled (secs : Float) (e : Edge) : Edge :=
  { e with counter := 0, rate := e.measured secs, ttl := e.ttl - 1 }

/-- Whether an edge has nothing to report and no idle sample left. -/
def isExpired (e : Edge) : Bool :=
  e.rate.abs < tolerance && e.ttl ≤ 0

end Edge

/-! ## Latency -/

/-- A round-trip measurement. `pending` is the start of the probe in flight; `total` and `samples`
collect the milliseconds since the last fold, and `average` is what that fold reported. The number of
samples is a word of 32 bits, which wraps around. -/
structure Latency where
  pending : Option Nat := none
  total : Float := 0
  samples : UInt32 := 0
  average : Option Float := none
  deriving DecidableEq, Repr

namespace Latency

/-- Nothing measured yet. -/
def empty : Latency := {}

/-- Starts a probe, in place of one that is in flight. -/
def start (l : Latency) (now : Nat) : Latency :=
  { l with pending := some now }

/-- The milliseconds from `started` to `now`. Time does not run backwards. -/
def milliseconds (started now : Nat) : Float :=
  seconds (now - started) * 1000

/-- Completes the probe in flight and gives back its sample. Without one nothing happens. -/
def finish (l : Latency) (now : Nat) : Option Float × Latency :=
  match l.pending with
  | none => (none, l)
  | some started =>
    let ms := milliseconds started now
    (some ms, { l with pending := none, total := l.total + ms, samples := l.samples + 1 })

/-- Whether a probe is in flight. -/
def isPending (l : Latency) : Bool :=
  l.pending.isSome

/-- Turns the samples since the last fold into the reported average, and answers whether what is
reported has changed. Without samples nothing happens. -/
def fold (l : Latency) : Bool × Latency :=
  if l.samples = 0 then (false, l)
  else
    let next := l.total / Float.ofNat l.samples.toNat
    let changed :=
      match l.average with
      | none => true
      | some previous => moved previous next
    (changed, { l with total := 0, samples := 0, average := some next })

/-- A probe is in flight once it has been started. -/
@[simp] theorem isPending_start (l : Latency) (now : Nat) : (l.start now).isPending = true := rfl

/-- No probe is in flight after one has been completed. -/
theorem isPending_finish (l : Latency) (now : Nat) : (l.finish now).2.isPending = false := by
  unfold finish
  split
  · rename_i h
    rw [isPending, h, Option.isSome_none]
  · rfl

/-- A fold leaves the probe in flight alone. -/
theorem pending_fold (l : Latency) : l.fold.2.pending = l.pending := by
  unfold fold
  split <;> rfl

/-- A second fold has nothing to do. -/
theorem fold_fold (l : Latency) : l.fold.2.fold = (false, l.fold.2) := by
  unfold fold
  split <;> simp_all

end Latency

/-! ## Clients -/

/-- A connected session. `bridge` is the remote broker if the session is a bridge. -/
structure Client where
  id : String
  address : String
  bridge : Option String
  filters : List String
  published : Dict Edge
  latency : Latency
  deriving DecidableEq, Repr

namespace Client

/-- A session that has just connected. -/
def fresh (address id : String) (bridge : Option String) : Client :=
  ⟨id, address, bridge, [], Dict.empty, .empty⟩

/-- The key of a client. -/
def key (c : Client) : ClientKey :=
  ⟨c.address, c.id⟩

/-- Whether a remembered filter covers a topic. -/
def subscribesTo (c : Client) (topic : String) : Bool :=
  c.filters.any fun f => Filter.covers f topic

/-- What a sample makes of a client: the client, the topics of the edges that expired in listed
order, and whether a reported value moved. -/
structure Sampled where
  client : Client
  expired : List String
  changed : Bool
  deriving DecidableEq, Repr

/-- A sample folds the latency, measures every edge and takes out the expired ones. -/
def sampled (secs : Float) (c : Client) : Sampled :=
  let (folded, latency) := c.latency.fold
  let rates := c.published.values.any fun e => moved e.rate (e.measured secs)
  let swept := (c.published.map (Edge.sampled secs)).removeIf Edge.isExpired
  { client := { c with latency := latency, published := swept.dict }
    expired := swept.removed.map (·.1)
    changed := folded || rates }

end Client

/-! ## Hosts -/

/-- An address with the clients connected from it. -/
structure Host where
  address : String
  clients : Dict Client
  deriving DecidableEq, Repr

/-- An address without clients. -/
def Host.fresh (address : String) : Host :=
  ⟨address, Dict.empty⟩

end BrokerTopology
