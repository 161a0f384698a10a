import Mathlib.Logic.Function.Basic
import BrokerTopology.Proofs.Dict.Sweep
/-!
# A dictionary is a finite map

Whoever uses a dictionary may think of it as a finite map from strings to values. Such a map is given
by its look-ups, and where an operation shows the present keys it lists them in some order. This file
says what each operation answers on a finite map and what it leaves there, and shows that every
sequence of operations on a dictionary, from the empty one on, answers as the same sequence on the
empty map does. The chains, the growing and shrinking of their array and the hashes are not seen: the
hash function may be any, and keys may share one hash.
-/

namespace BrokerTopology

namespace Dict

variable {α : Type}

/-! ## Operations and answers -/

/-- What can be asked of a dictionary. -/
inductive Operation (α : Type) : Type 1 where
  | insert (key : String) (value : α)
  | find (key : String)
  /-- Looks up a key and writes to what is found. -/
  | modify (key : String) (f : α → α)
  | contains (key : String)
  | erase (key : String)
  | removeWhere {σ : Type} (visit : σ → String → α → Verdict α σ) (start : σ)
  /-- Goes through all pairs and writes to the values. -/
  | mapWithKey (f : String → α → α)
  | size
  | isEmpty
  | keys
  | toList

/-- What an operation answers. -/
inductive Answer (α : Type) where
  | filed
  | refused (e : Duplicate)
  | value (v : Option α)
  | flag (b : Bool)
  | count (n : Nat)
  | keys (ks : List String)
  | pairs (kvs : List (String × α))
  deriving DecidableEq, Repr

/-- The answer to an operation and the dictionary after it. -/
def Operation.perform (d : Dict α) : Operation α → Answer α × Dict α
  | .insert key value =>
    match d.insert key value with
    | .error e => (.refused e, d)
    | .ok d' => (.filed, d')
  | .find key => (.value (d.find? key), d)
  | .modify key f => (.value (d.find? key), d.modify key f)
  | .contains key => (.flag (d.contains key), d)
  | .erase key => (.value (d.find? key), d.erase key)
  | .removeWhere visit s => (.pairs (d.removeWhere visit s).removed, (d.removeWhere visit s).dict)
  | .mapWithKey f => (.pairs d.toList, d.mapWithKey f)
  | .size => (.count d.size, d)
  | .isEmpty => (.flag d.isEmpty, d)
  | .keys => (.keys d.keys, d)
  | .toList => (.pairs d.toList, d)

/-- The same where the keys have the hashes of a given function. Only the operations on one key look
at its hash. -/
def Operation.performHashed (hash : String → UInt64) (d : Dict α) : Operation α → Answer α × Dict α
  | .insert key value =>
    match d.insertHashed (hash key) key value with
    | .error e => (.refused e, d)
    | .ok d' => (.filed, d')
  | .find key => (.value (d.findHashed (hash key) key), d)
  | .modify key f => (.value (d.findHashed (hash key) key), d.modifyHashed (hash key) key f)
  | .contains key => (.flag (d.findHashed (hash key) key).isSome, d)
  | .erase key => (.value (d.findHashed (hash key) key), d.eraseHashed (hash key) key)
  | op => op.perform d

/-- With the hash of the dictionaries, the operations are those of the dictionaries. -/
theorem Operation.performHashed_sdbm (d : Dict α) (op : Operation α) :
    op.performHashed sdbm d = op.perform d := by
  cases op <;> rfl

/-- The answers to several operations, the first of the list first. -/
def answers (step : Dict α → Operation α → Answer α × Dict α) (d : Dict α) :
    List (Operation α) → List (Answer α)
  | [] => []
  | op :: ops => (step d op).1 :: answers step (step d op).2 ops

end Dict

/-! ## Finite maps -/

namespace FiniteMap

open Dict (Operation Answer verdicts taken kept)

variable {α : Type} {m m' : String → Option α} {l l' : List (String × α)} {key : String} {value : α}

/-- A list of pairs names every present key of a map once, with its value. -/
structure Lists (l : List (String × α)) (m : String → Option α) : Prop where
  nodup : (l.map Prod.fst).Nodup
  mem_iff : ∀ key value, (key, value) ∈ l ↔ m key = some value

/-- What an operation may answer on a map, and what it leaves there. -/
inductive Step (m : String → Option α) : Operation α → Answer α → (String → Option α) → Prop where
  /-- A new key is filed. -/
  | insert (key : String) (value : α) (hnew : m key = none) :
      Step m (.insert key value) .filed (Function.update m key (some value))
  /-- A present key is refused. -/
  | refuse (key : String) (value old : α) (hold : m key = some old) :
      Step m (.insert key value) (.refused ⟨key⟩) m
  | find (key : String) : Step m (.find key) (.value (m key)) m
  | modify (key : String) (f : α → α) :
      Step m (.modify key f) (.value (m key)) (Function.update m key ((m key).map f))
  | contains (key : String) : Step m (.contains key) (.flag (m key).isSome) m
  | erase (key : String) : Step m (.erase key) (.value (m key)) (Function.update m key none)
  /-- The pairs are shown to the visitor in some order. -/
  | removeWhere {σ : Type} (visit : σ → String → α → Dict.Verdict α σ) (s : σ)
      (l : List (String × α)) (hl : Lists l m) (m' : String → Option α)
      (hm' : Lists (kept (verdicts visit s l)) m') :
      Step m (.removeWhere visit s) (.pairs (taken (verdicts visit s l))) m'
  | mapWithKey (f : String → α → α) (l : List (String × α)) (hl : Lists l m) :
      Step m (.mapWithKey f) (.pairs l) fun key => (m key).map (f key)
  | size (l : List (String × α)) (hl : Lists l m) : Step m .size (.count l.length) m
  | isEmpty (b : Bool) (hb : b = true ↔ ∀ key, m key = none) : Step m .isEmpty (.flag b) m
  | keys (l : List (String × α)) (hl : Lists l m) : Step m .keys (.keys (l.map Prod.fst)) m
  | toList (l : List (String × α)) (hl : Lists l m) : Step m .toList (.pairs l) m

/-- What several operations may answer, one after the other. -/
inductive Run : (String → Option α) → List (Operation α) → List (Answer α) → Prop where
  | nil (m : String → Option α) : Run m [] []
  | cons {m m' : String → Option α} {op : Operation α} {a : Answer α} {ops : List (Operation α)}
      {as : List (Answer α)} (step : Step m op a m') (rest : Run m' ops as) :
      Run m (op :: ops) (a :: as)

/-! ## Lists of maps -/

namespace Lists

/-- A list determines the map. -/
theorem unique (h : Lists l m) (h' : Lists l m') : m = m' := by
  funext key
  refine Option.ext fun value => ?_
  rw [← h.mem_iff, ← h'.mem_iff]

/-- The order of a list does not matter. -/
theorem perm (h : Lists l m) (hperm : l'.Perm l) : Lists l' m where
  nodup := (hperm.map Prod.fst).nodup_iff.mpr h.nodup
  mem_iff := fun key value => by rw [hperm.mem_iff, h.mem_iff]

/-- A map without a present key has the empty list. -/
theorem nil_iff : Lists [] m ↔ ∀ key, m key = none := by
  constructor
  · intro h key
    rw [Option.eq_none_iff_forall_not_mem]
    intro value hvalue
    cases (h.mem_iff key value).mpr hvalue
  · intro h
    refine ⟨List.nodup_nil, fun key value => ?_⟩
    simp [h key]

/-- A present key is one of the list. -/
theorem mem_keys_iff (h : Lists l m) : key ∈ l.map Prod.fst ↔ m key ≠ none := by
  rw [List.mem_map, Option.ne_none_iff_exists']
  constructor
  · rintro ⟨⟨k, v⟩, hmem, rfl⟩
    exact ⟨v, (h.mem_iff k v).mp hmem⟩
  · rintro ⟨v, hv⟩
    exact ⟨(key, v), (h.mem_iff key v).mpr hv, rfl⟩

/-- A new key is listed beside the others. -/
theorem cons (h : Lists l m) (hnew : m key = none) (value : α) :
    Lists ((key, value) :: l) (Function.update m key (some value)) where
  nodup := by
    refine List.nodup_cons.mpr ⟨fun hmem => ?_, h.nodup⟩
    exact h.mem_keys_iff.mp hmem hnew
  mem_iff := by
    intro k v
    rw [List.mem_cons, Prod.mk.injEq, h.mem_iff]
    by_cases hk : k = key
    · subst hk
      simp [hnew, eq_comm]
    · simp [hk]

/-- Without its first pair a list is that of the map without the key. -/
theorem of_cons (h : Lists ((key, value) :: l) m) : Lists l (Function.update m key none) where
  nodup := (List.nodup_cons.mp h.nodup).2
  mem_iff := by
    intro k v
    by_cases hk : k = key
    · -- the key is not listed a second time
      subst hk
      have honce : (k, v) ∉ l := fun hmem =>
        (List.nodup_cons.mp h.nodup).1 (List.mem_map.mpr ⟨_, hmem, rfl⟩)
      simp [honce]
    · rw [Function.update_of_ne hk, ← h.mem_iff]
      simp [hk]

/-- Writing to the values of the list is writing to those of the map. -/
theorem map (h : Lists l m) (f : String → α → α) :
    Lists (l.map fun e => (e.1, f e.1 e.2)) fun key => (m key).map (f key) where
  nodup := by
    rw [List.map_map]
    exact h.nodup
  mem_iff := by
    intro k v
    simp only [List.mem_map, Prod.exists, Prod.mk.injEq, h.mem_iff, Option.map_eq_some_iff]
    constructor
    · rintro ⟨k', v', hv', rfl, rfl⟩
      exact ⟨v', hv', rfl⟩
    · rintro ⟨v', hv', rfl⟩
      exact ⟨k, v', hv', rfl, rfl⟩

end Lists

end FiniteMap

/-! ## The map of a dictionary -/

namespace Dict

open FiniteMap (Lists Step Run)

variable {α : Type} {hash : String → UInt64} {d d' : Dict α} {l : List (String × α)}
  {m : String → Option α}

/-- The look-ups of a dictionary. -/
def lookups (hash : String → UInt64) (d : Dict α) (key : String) : Option α :=
  d.findHashed (hash key) key

/-- A dictionary lists its own map. -/
theorem HashedBy.lists (h : d.HashedBy hash) : Lists d.toList (d.lookups hash) where
  nodup := by
    rw [toList, List.map_map]
    exact h.keys_nodup
  mem_iff := by
    intro key value
    rw [lookups, findHashed_eq_some_iff h, toList, List.mem_map]
    refine exists_congr fun e => and_congr_right' ?_
    rw [Entry.pair, Prod.mk.injEq]

/-- A list of the pairs of a dictionary, in any order, tells its map. -/
theorem HashedBy.lookups_eq (h : d.HashedBy hash) (hperm : d.toList.Perm l) (hl : Lists l m) :
    d.lookups hash = m :=
  h.lists.unique (hl.perm hperm)

/-- The keys are those of the listed pairs. -/
theorem keys_eq_map_toList (d : Dict α) : d.keys = d.toList.map Prod.fst := by
  rw [keys, toList, List.map_map]
  rfl

/-- A dictionary counts its pairs. -/
theorem HashedBy.size_eq_length_toList (h : d.HashedBy hash) : d.size = d.toList.length := by
  rw [h.size_eq, toList, List.length_map]

/-! ## One operation -/

/-- A dictionary takes up what a map takes up, and refuses what a map refuses. -/
theorem insert_refines (h : d.HashedBy hash) (key : String) (value : α) :
    ((Operation.insert key value).performHashed hash d).2.HashedBy hash ∧
      Step (d.lookups hash) (.insert key value)
        ((Operation.insert key value).performHashed hash d).1
        (((Operation.insert key value).performHashed hash d).2.lookups hash) := by
  rw [Operation.performHashed]
  cases hfind : d.findHashed (hash key) key with
  | some old =>
    have hinsert : d.insertHashed (hash key) key value = .error ⟨key⟩ := by
      rw [insertHashed, hfind]
      rfl
    rw [hinsert]
    exact ⟨h, .refuse key value old hfind⟩
  | none =>
    obtain ⟨d', hinsert, hwf, hperm⟩ := insertHashed_spec h value (by rw [hfind]; rfl)
    have hlookups : d'.lookups hash = Function.update (d.lookups hash) key (some value) :=
      hwf.lookups_eq (hperm.map Entry.pair) (h.lists.cons hfind value)
    rw [hinsert]
    dsimp only
    rw [hlookups]
    exact ⟨hwf, .insert key value hfind⟩

/-- A write to what is found under a key is a write to the map at the key. -/
theorem modify_refines (h : d.HashedBy hash) (key : String) (f : α → α) :
    (d.modifyHashed (hash key) key f).HashedBy hash ∧
      (d.modifyHashed (hash key) key f).lookups hash =
        Function.update (d.lookups hash) key ((d.lookups hash key).map f) := by
  have hwf := hashedBy_modifyHashed h key f
  -- at the other keys the written function is the identity
  have hwrite : Function.update (d.lookups hash) key ((d.lookups hash key).map f) =
      fun k => (d.lookups hash k).map fun v => if k = key then f v else v := by
    funext k
    by_cases hk : k = key
    · subst hk
      simp
    · simp [hk]
  refine ⟨hwf, ?_⟩
  rw [hwrite]
  refine hwf.lookups_eq (List.Perm.of_eq ?_) (h.lists.map fun k v => if k = key then f v else v)
  rw [toList, entries_modifyHashed h, toList, List.map_map, List.map_map]
  rfl

/-- What is taken out under a key is missing in the map. -/
theorem erase_refines (h : d.HashedBy hash) (key : String) :
    (d.eraseHashed (hash key) key).HashedBy hash ∧
      (d.eraseHashed (hash key) key).lookups hash = Function.update (d.lookups hash) key none := by
  cases hfind : d.findHashed (hash key) key with
  | none =>
    have hsame : d.eraseHashed (hash key) key = d := by
      rw [eraseHashed, hfind]
      rfl
    rw [hsame]
    refine ⟨h, ?_⟩
    rw [← show d.lookups hash key = none from hfind, Function.update_eq_self]
  | some old =>
    have hfiled : (d.findHashed (hash key) key).isSome = true := by rw [hfind]; rfl
    obtain ⟨hwf, e, hkey, hperm⟩ := eraseHashed_spec h hfiled
    subst hkey
    have hlists : Lists (e.pair :: (d.eraseHashed (hash e.key) e.key).toList) (d.lookups hash) :=
      h.lists.perm (hperm.map Entry.pair).symm
    exact ⟨hwf, hwf.lists.unique hlists.of_cons⟩

/-- A write to all values is a write to the map. -/
theorem mapWithKey_refines (h : d.HashedBy hash) (f : String → α → α) :
    (d.mapWithKey f).HashedBy hash ∧
      (d.mapWithKey f).lookups hash = fun key => (d.lookups hash key).map (f key) := by
  have hwf := hashedBy_mapWithKey h f
  refine ⟨hwf, hwf.lookups_eq (List.Perm.of_eq ?_) (h.lists.map f)⟩
  rw [toList, entries_mapWithKey, toList, List.map_map, List.map_map]
  rfl

/-- A dictionary says that it is empty when no key is present. -/
theorem isEmpty_iff_lookups (h : d.HashedBy hash) :
    d.isEmpty = true ↔ ∀ key, d.lookups hash key = none := by
  rw [isEmpty, beq_iff_eq, h.size_eq_length_toList, List.length_eq_zero_iff, ← FiniteMap.Lists.nil_iff]
  constructor
  · intro hnil
    rw [← hnil]
    exact h.lists
  · intro hnil
    refine List.eq_nil_iff_forall_not_mem.mpr fun e he => ?_
    cases (hnil.mem_iff e.1 e.2).mpr ((h.lists.mem_iff e.1 e.2).mp he)

/-- Every operation answers what it may answer on the map of the dictionary, and leaves the map of the
dictionary after it. -/
theorem perform_refines (h : d.HashedBy hash) (op : Operation α) :
    (op.performHashed hash d).2.HashedBy hash ∧
      Step (d.lookups hash) op (op.performHashed hash d).1
        ((op.performHashed hash d).2.lookups hash) := by
  cases op with
  | insert key value => exact insert_refines h key value
  | find key => exact ⟨h, .find key⟩
  | modify key f =>
    obtain ⟨hwf, hlookups⟩ := modify_refines h key f
    refine ⟨hwf, ?_⟩
    dsimp only [Operation.performHashed]
    rw [hlookups]
    exact .modify key f
  | contains key => exact ⟨h, .contains key⟩
  | erase key =>
    obtain ⟨hwf, hlookups⟩ := erase_refines h key
    refine ⟨hwf, ?_⟩
    dsimp only [Operation.performHashed]
    rw [hlookups]
    exact .erase key
  | removeWhere visit s =>
    obtain ⟨hwf, hperm, hremoved⟩ := removeWhere_spec h visit s
    refine ⟨hwf, ?_⟩
    dsimp only [Operation.performHashed, Operation.perform]
    rw [hremoved]
    exact .removeWhere visit s d.toList h.lists _ (hwf.lists.perm hperm.symm)
  | mapWithKey f =>
    obtain ⟨hwf, hlookups⟩ := mapWithKey_refines h f
    refine ⟨hwf, ?_⟩
    dsimp only [Operation.performHashed, Operation.perform]
    rw [hlookups]
    exact .mapWithKey f d.toList h.lists
  | size =>
    refine ⟨h, ?_⟩
    dsimp only [Operation.performHashed, Operation.perform]
    rw [h.size_eq_length_toList]
    exact .size d.toList h.lists
  | isEmpty => exact ⟨h, .isEmpty d.isEmpty (isEmpty_iff_lookups h)⟩
  | keys =>
    refine ⟨h, ?_⟩
    dsimp only [Operation.performHashed, Operation.perform]
    rw [keys_eq_map_toList]
    exact .keys d.toList h.lists
  | toList => exact ⟨h, .toList d.toList h.lists⟩

/-! ## Sequences of operations -/

/-- Every sequence of operations is answered as on the map of the dictionary. -/
theorem answers_refine (h : d.HashedBy hash) (ops : List (Operation α)) :
    Run (d.lookups hash) ops (answers (fun d op => op.performHashed hash d) d ops) := by
  induction ops generalizing d with
  | nil => exact .nil _
  | cons op ops ih =>
    obtain ⟨hwf, hstep⟩ := perform_refines h op
    exact .cons hstep (ih hwf)

/-- Nothing is found in the empty dictionary. -/
theorem lookups_empty (hash : String → UInt64) :
    (empty : Dict α).lookups hash = fun _ => none :=
  (hashedBy_empty hash).lookups_eq (List.Perm.refl _) (FiniteMap.Lists.nil_iff.mpr fun _ => rfl)

/-- Every sequence of operations from the empty dictionary on is answered as on a finite map, whatever
hashes the keys have. -/
theorem finiteMap_run (ops : List (Operation α)) :
    Run (fun _ => none) ops (answers Operation.perform empty ops) ∧
      ∀ hash : String → UInt64,
        Run (fun _ => none) ops (answers (fun d op => op.performHashed hash d) empty ops) := by
  have hany : ∀ hash : String → UInt64,
      Run (fun _ => none) ops (answers (fun d op => op.performHashed hash d) (empty : Dict α) ops) := by
    intro hash
    rw [← lookups_empty hash]
    exact answers_refine (hashedBy_empty hash) ops
  refine ⟨?_, hany⟩
  have hsdbm := hany sdbm
  simp only [Operation.performHashed_sdbm] at hsdbm
  exact hsdbm

/-- Two names with one hash are filed apart. -/
example : sdbm "lniukjpseokq" = sdbm "olrfoqjgvkoj" ∧
    answers Operation.perform (empty : Dict Nat)
      [.insert "lniukjpseokq" 1, .insert "olrfoqjgvkoj" 2, .erase "lniukjpseokq",
        .find "lniukjpseokq", .find "olrfoqjgvkoj"] =
      [.filed, .filed, .value (some 1), .value none, .value (some 2)] := by
  decide +kernel

end Dict

end BrokerTopology
