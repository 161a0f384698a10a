import BrokerTopology.Dict.Hash
/-!
# A resizable chained dictionary

Addresses, clients, topics and publish edges are all kept in a `Dict`: an array of chains, where
the entry of a key lies in the chain numbered by its hash modulo the number of chains. The array
starts with one chain, doubles when an insertion finds as many entries as chains, and halves while
a removal has left it fewer entries than a quarter of its chains, in whole numbers: with two or three
chains the quarter is nothing, so an empty array of two chains stays.

The order of `toList` (chain by chain, front to back) is part of the contract of this type: the
rendered documents show it. A new entry goes to the front of its chain, and a rebuild of the array
appends the entries to their new chains in the order in which they were listed.
-/

namespace BrokerTopology

/-! ## Entries and dictionaries -/

/-- A key with its hash and the value filed under it. -/
structure Dict.Entry (α : Type) where
  hash : UInt64
  key : String
  value : α
  deriving DecidableEq, Repr

/-- A dictionary from strings to values. `size` counts the entries. -/
structure Dict (α : Type) where
  chains : Array (List (Dict.Entry α))
  size : Nat
  chains_pos : 0 < chains.size
  deriving DecidableEq, Repr

/-- The one way in which an insertion fails: the key is already filed. -/
structure Dict.Duplicate where
  key : String
  deriving DecidableEq, Repr

/-- The text of a refused insertion. -/
def Dict.Duplicate.message (e : Dict.Duplicate) : String :=
  "duplicate key: " ++ e.key

namespace Dict

variable {α β σ : Type}

namespace Entry

/-- The entry that files `value` under `key`. -/
def of (key : String) (value : α) : Entry α :=
  ⟨sdbm key, key, value⟩

/-- An entry answers for a key when both the hash and the key itself agree. -/
def answers (hash : UInt64) (key : String) (e : Entry α) : Bool :=
  e.hash == hash && e.key == key

/-- The same entry with another value. -/
def withValue (e : Entry α) (value : β) : Entry β :=
  ⟨e.hash, e.key, value⟩

/-- The key and the value, without the hash. -/
def pair (e : Entry α) : String × α :=
  (e.key, e.value)

end Entry

/-- The empty dictionary has a single chain. -/
def empty : Dict α :=
  ⟨#[[]], 0, by simp⟩

instance : EmptyCollection (Dict α) := ⟨empty⟩
instance : Inhabited (Dict α) := ⟨empty⟩

/-! ## Views -/

/-- The number of chains. -/
def capacity (d : Dict α) : Nat :=
  d.chains.size

/-- All entries, chain by chain and front to back. -/
def entries (d : Dict α) : List (Entry α) :=
  d.chains.toList.flatten

/-- All pairs of a key and its value, in the order of `entries`. -/
def toList (d : Dict α) : List (String × α) :=
  d.entries.map Entry.pair

/-- All keys, in the order of `entries`. -/
def keys (d : Dict α) : List String :=
  d.entries.map Entry.key

/-- All values, in the order of `entries`. -/
def values (d : Dict α) : List α :=
  d.entries.map Entry.value

/-- A dictionary is empty when it counts no entry. -/
def isEmpty (d : Dict α) : Bool :=
  d.size == 0

/-! ## Looking up -/

/-- The number of the chain that holds the entries with a given hash. -/
def index (d : Dict α) (hash : UInt64) : Nat :=
  hash.toNat % d.capacity

theorem index_lt (d : Dict α) (hash : UInt64) : d.index hash < d.chains.size :=
  Nat.mod_lt _ d.chains_pos

/-- The chain that holds the entries with a given hash. -/
def chain (d : Dict α) (hash : UInt64) : List (Entry α) :=
  have := d.index_lt hash
  d.chains[d.index hash]

/-- The value filed under `key`. Only the chain of the key is searched. -/
def find? (d : Dict α) (key : String) : Option α :=
  ((d.chain (sdbm key)).find? (Entry.answers (sdbm key) key)).map Entry.value

/-- Whether a value is filed under `key`. -/
def contains (d : Dict α) (key : String) : Bool :=
  (d.find? key).isSome

/-! ## Rebuilding the array of chains -/

/-- Appends an entry to its chain in an array of chains. -/
def place (chains : Array (List (Entry α))) (e : Entry α) : Array (List (Entry α)) :=
  chains.modify (e.hash.toNat % chains.size) (· ++ [e])

theorem size_place (chains : Array (List (Entry α))) (e : Entry α) :
    (place chains e).size = chains.size := by
  simp [place]

theorem size_foldl_place (es : List (Entry α)) (chains : Array (List (Entry α))) :
    (es.foldl place chains).size = chains.size := by
  induction es generalizing chains with
  | nil => rfl
  | cons e es ih => rw [List.foldl_cons, ih, size_place]

/-- Moves every entry, in listed order, into a fresh array of `capacity` chains (at least one). -/
def rebuild (d : Dict α) (capacity : Nat) : Dict α where
  chains := d.entries.foldl place (Array.replicate (max capacity 1) [])
  size := d.size
  chains_pos := by rw [size_foldl_place, Array.size_replicate]; omega

/-- Halves the array while it has more than one chain and fewer entries than a quarter of them, rounded
down. The first argument bounds the number of halvings. -/
def shrinkWithin : Nat → Dict α → Dict α
  | 0, d => d
  | n + 1, d =>
    if d.capacity ≤ 1 ∨ d.capacity / 4 ≤ d.size then d
    else shrinkWithin n (d.rebuild (d.capacity / 2))

/-- Halves the array until it has one chain, or at least as many entries as a quarter of its chains,
rounded down. -/
def shrink (d : Dict α) : Dict α :=
  shrinkWithin d.capacity d

/-! ## Changing -/

/-- Replaces one chain. -/
def setChain (d : Dict α) (hash : UInt64) (c : List (Entry α)) : Dict α where
  chains := d.chains.set (d.index hash) c (d.index_lt hash)
  size := d.size
  chains_pos := by simpa using d.chains_pos

/-- Doubles the array if there are as many entries as chains. -/
def makeRoom (d : Dict α) : Dict α :=
  if d.size = d.capacity then d.rebuild (d.capacity * 2) else d

/-- Files an entry at the front of its chain, without looking for its key. -/
def consEntry (d : Dict α) (e : Entry α) : Dict α :=
  { d.setChain e.hash (e :: d.chain e.hash) with size := d.size + 1 }

/-- Files `value` under a new key, at the front of its chain. A key that is already filed is
refused. -/
def insert (d : Dict α) (key : String) (value : α) : Except Duplicate (Dict α) :=
  if d.contains key then .error ⟨key⟩
  else .ok (d.makeRoom.consEntry (.of key value))

/-- Applies `f` to the first value of a chain that answers for the key. -/
def modifyFirst (hash : UInt64) (key : String) (f : α → α) : List (Entry α) → List (Entry α)
  | [] => []
  | e :: es =>
    if e.answers hash key then e.withValue (f e.value) :: es
    else e :: modifyFirst hash key f es

/-- Applies `f` to the value filed under `key`, if there is one. The layout stays. -/
def modify (d : Dict α) (key : String) (f : α → α) : Dict α :=
  d.setChain (sdbm key) (modifyFirst (sdbm key) key f (d.chain (sdbm key)))

/-- Takes the entry of `key` out of its chain and then lets the array shrink. -/
def erase (d : Dict α) (key : String) : Dict α :=
  if d.contains key then
    shrink { d.setChain (sdbm key) ((d.chain (sdbm key)).eraseP (Entry.answers (sdbm key) key)) with
      size := d.size - 1 }
  else d

/-- Applies `f` to every value. The layout stays. -/
def map (f : α → β) (d : Dict α) : Dict β where
  chains := d.chains.map fun c => c.map fun e => e.withValue (f e.value)
  size := d.size
  chains_pos := by simpa using d.chains_pos

/-- Applies `f` to every value, with its key. The layout stays. -/
def mapWithKey (f : String → α → β) (d : Dict α) : Dict β where
  chains := d.chains.map fun c => c.map fun e => e.withValue (f e.key e.value)
  size := d.size
  chains_pos := by simpa using d.chains_pos

/-! ## Under a given hash

The hash of a key does no more than choose the chain. Here are the operations on one key with the
hash given apart from it; given the hash of the key, they are the operations above. -/

/-- The value filed under `key` in the chain of a hash. -/
def findHashed (d : Dict α) (hash : UInt64) (key : String) : Option α :=
  ((d.chain hash).find? (Entry.answers hash key)).map Entry.value

/-- Files `value` under a new key with a hash. -/
def insertHashed (d : Dict α) (hash : UInt64) (key : String) (value : α) :
    Except Duplicate (Dict α) :=
  if (d.findHashed hash key).isSome then .error ⟨key⟩
  else .ok (d.makeRoom.consEntry ⟨hash, key, value⟩)

/-- Applies `f` to the value filed under `key` with a hash. -/
def modifyHashed (d : Dict α) (hash : UInt64) (key : String) (f : α → α) : Dict α :=
  d.setChain hash (modifyFirst hash key f (d.chain hash))

/-- Takes the entry of `key` with a hash out of its chain and then lets the array shrink. -/
def eraseHashed (d : Dict α) (hash : UInt64) (key : String) : Dict α :=
  if (d.findHashed hash key).isSome then
    shrink { d.setChain hash ((d.chain hash).eraseP (Entry.answers hash key)) with
      size := d.size - 1 }
  else d

theorem find?_eq_findHashed (d : Dict α) (key : String) : d.find? key = d.findHashed (sdbm key) key :=
  rfl

theorem insert_eq_insertHashed (d : Dict α) (key : String) (value : α) :
    d.insert key value = d.insertHashed (sdbm key) key value :=
  rfl

theorem modify_eq_modifyHashed (d : Dict α) (key : String) (f : α → α) :
    d.modify key f = d.modifyHashed (sdbm key) key f :=
  rfl

theorem erase_eq_eraseHashed (d : Dict α) (key : String) : d.erase key = d.eraseHashed (sdbm key) key :=
  rfl

/-! ## Removing by a predicate -/

/-- What a visitor answers for one entry: whether to take it out, the value it leaves, and its own
next state. -/
structure Verdict (α σ : Type) where
  remove : Bool
  value : α
  state : σ

/-- A list of entries after a visitor has gone through it. -/
structure Sweep (α σ : Type) where
  kept : List (Entry α)
  removed : List (Entry α)
  state : σ

/-- Shows the entries of a chain to a visitor, front to back. -/
def sweepChain (visit : σ → String → α → Verdict α σ) (s : σ) : List (Entry α) → Sweep α σ
  | [] => ⟨[], [], s⟩
  | e :: es =>
    let v := visit s e.key e.value
    let rest := sweepChain visit v.state es
    if v.remove then ⟨rest.kept, e.withValue v.value :: rest.removed, rest.state⟩
    else ⟨e.withValue v.value :: rest.kept, rest.removed, rest.state⟩

/-- Several chains after a visitor has gone through them. -/
structure SweepAll (α σ : Type) where
  kept : List (List (Entry α))
  removed : List (Entry α)
  state : σ

/-- Shows the entries of all chains to a visitor, chain by chain. -/
def sweepChains (visit : σ → String → α → Verdict α σ) (s : σ) :
    List (List (Entry α)) → SweepAll α σ
  | [] => ⟨[], [], s⟩
  | c :: cs =>
    let here := sweepChain visit s c
    let rest := sweepChains visit here.state cs
    ⟨here.kept :: rest.kept, here.removed ++ rest.removed, rest.state⟩

theorem length_kept_sweepChains (visit : σ → String → α → Verdict α σ) (s : σ)
    (cs : List (List (Entry α))) : (sweepChains visit s cs).kept.length = cs.length := by
  induction cs generalizing s with
  | nil => rfl
  | cons c cs ih => simp [sweepChains, ih]

/-- A dictionary after a removal, with the removed pairs in listed order and the last state of the
visitor. -/
structure Removal (α σ : Type) where
  dict : Dict α
  removed : List (String × α)
  state : σ

/-- Shows every entry to a visitor in listed order, takes out the ones it names, and lets the array
shrink if any was taken out. The visitor may change the values it sees. -/
def removeWhere (d : Dict α) (visit : σ → String → α → Verdict α σ) (s : σ) : Removal α σ :=
  let swept := sweepChains visit s d.chains.toList
  let rest : Dict α :=
    { chains := swept.kept.toArray
      size := d.size - swept.removed.length
      chains_pos := by simpa [swept, length_kept_sweepChains] using d.chains_pos }
  { dict := if swept.removed.isEmpty then rest else rest.shrink
    removed := swept.removed.map Entry.pair
    state := swept.state }

/-- Takes out the entries whose value satisfies `p`, in listed order. -/
def removeIf (d : Dict α) (p : α → Bool) : Removal α Unit :=
  d.removeWhere (fun _ _ v => ⟨p v, v, ()⟩) ()

/-! ## The views of the simplest dictionaries -/

@[simp] theorem toList_empty : (empty : Dict α).toList = [] := rfl

@[simp] theorem size_empty : (empty : Dict α).size = 0 := rfl

@[simp] theorem capacity_empty : (empty : Dict α).capacity = 1 := rfl

@[simp] theorem capacity_map (f : α → β) (d : Dict α) : (d.map f).capacity = d.capacity := by
  simp [capacity, map]

@[simp] theorem capacity_setChain (d : Dict α) (hash : UInt64) (c : List (Entry α)) :
    (d.setChain hash c).capacity = d.capacity := by
  simp [capacity, setChain]

@[simp] theorem capacity_rebuild (d : Dict α) (n : Nat) : (d.rebuild n).capacity = max n 1 := by
  simp [capacity, rebuild, size_foldl_place]

end Dict

end BrokerTopology
