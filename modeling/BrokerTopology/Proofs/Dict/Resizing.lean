import Mathlib.Order.Bounds.Basic
import BrokerTopology.Proofs.Dict.Balance
/-!
# How often a dictionary is rebuilt

The array of chains doubles when it is full and halves when it is under a quarter full. Between the two
there is room: just after a doubling or a halving about half of the chains could hold one entry each, so
many entries have to come or go before the array is rebuilt again. The room that is left is the `leeway` of
a dictionary. An operation on one entry uses up at most one of it as long as the number of chains stays,
and changes that number only where one is left.

This is about operations that file or take out one entry at a time. A removal with a visitor may take out
many, and may stop right at the next halving.

Main statement: `resizing_run`.
-/

namespace BrokerTopology

namespace Dict

variable {α : Type} {d d' : Dict α} {op : Operation α}

/-! ## Filing and taking out -/

/-- Whether an operation may take out several entries at once. -/
def Operation.isBulk : Operation α → Bool
  | .removeWhere _ _ => true
  | _ => false

/-- Whether an operation on one key files it or takes it out: an insertion that is not refused, or a removal
that finds something. -/
def Operation.alters (d : Dict α) : Operation α → Bool
  | .insert key value => (d.insert key value).isOk
  | .erase key => (d.find? key).isSome
  | _ => false

/-- How many of several operations, the first of the list first, file a key or take one out. -/
def alterations (d : Dict α) : List (Operation α) → Nat
  | [] => 0
  | op :: ops => (op.alters d).toNat + (op.perform d).2.alterations ops

/-! ## One operation in numbers -/

/-- What an operation on one entry does to the number of entries and the number of chains. -/
inductive Resized (d : Dict α) (op : Operation α) (d' : Dict α) : Prop where
  /-- Nothing is filed or taken out. -/
  | kept (alters : op.alters d = false) (size_eq : d'.size = d.size)
      (capacity_eq : d'.capacity = d.capacity)
  /-- An entry is filed where there is room. -/
  | filed (alters : op.alters d = true) (size_eq : d'.size = d.size + 1)
      (room : d.size < d.capacity) (capacity_eq : d'.capacity = d.capacity)
  /-- An entry is filed after the array has been doubled. -/
  | grown (alters : op.alters d = true) (size_eq : d'.size = d.size + 1)
      (full : d.size = d.capacity) (capacity_eq : d'.capacity = d.capacity * 2)
  /-- An entry is taken out, and enough of them are left. -/
  | taken (alters : op.alters d = true) (size_eq : d.size = d'.size + 1)
      (enough : d.capacity / 4 ≤ d'.size) (capacity_eq : d'.capacity = d.capacity)
  /-- An entry is taken out and the array is halved, once. -/
  | halved (alters : op.alters d = true) (size_eq : d.size = d'.size + 1)
      (sparse : d.size = d.capacity / 4) (capacity_eq : d.capacity = d'.capacity * 2)

/-- A dictionary that is a quarter full does not shrink. -/
theorem shrink_of_enough (h : d.capacity / 4 ≤ d.size) : d.shrink = d := by
  cases hcapacity : d.capacity with
  | zero => exact absurd hcapacity (Nat.ne_of_gt d.chains_pos)
  | succ n => rw [shrink, hcapacity, shrinkWithin, if_pos (Or.inr h)]

/-- If half of the chains are enough, a dictionary that is under a quarter full halves them once. -/
theorem shrink_of_sparse (h : d.size < d.capacity / 4) (hhalf : d.capacity / 2 / 4 ≤ d.size) :
    d.shrink = d.rebuild (d.capacity / 2) := by
  have hrest : ∀ n, shrinkWithin n (d.rebuild (d.capacity / 2)) = d.rebuild (d.capacity / 2) := by
    intro n
    have henough : (d.rebuild (d.capacity / 2)).capacity / 4 ≤ (d.rebuild (d.capacity / 2)).size := by
      rw [capacity_rebuild, Nat.max_eq_left (by omega)]
      exact hhalf
    cases n with
    | zero => rfl
    | succ n => rw [shrinkWithin, if_pos (Or.inr henough)]
  cases hcapacity : d.capacity with
  | zero => omega
  | succ n =>
    rw [shrink, hcapacity, shrinkWithin, if_neg (by omega), hrest, hcapacity]

/-- What an insertion leaves if it is not refused. -/
theorem eq_of_insert {key : String} {value : α} (hinsert : d.insert key value = .ok d') :
    d' = d.makeRoom.consEntry (.of key value) := by
  rw [insert] at hinsert
  split at hinsert
  · cases hinsert
  · exact (Except.ok.inj hinsert).symm

/-- A key that is filed is counted. -/
theorem size_insert {key : String} {value : α} (hinsert : d.insert key value = .ok d') :
    d'.size = d.size + 1 := by
  have hroom : d.makeRoom.size = d.size := by
    rw [makeRoom]
    split <;> rfl
  rw [eq_of_insert hinsert, ← hroom]
  rfl

/-- Filing a key takes the chains that there are once there is room. -/
theorem capacity_insert {key : String} {value : α} (hinsert : d.insert key value = .ok d') :
    d'.capacity = d.makeRoom.capacity := by
  rw [eq_of_insert hinsert]
  exact capacity_setChain _ _ _

/-- Filing a new key. -/
theorem resized_insert (h : d.Balanced) {key : String} {value : α}
    (hinsert : d.insert key value = .ok d') : Resized d (.insert key value) d' := by
  have halters : (Operation.insert key value).alters d = true := by
    rw [Operation.alters, hinsert]
    rfl
  have hsize := size_insert hinsert
  have hcapacity := capacity_insert hinsert
  by_cases hfull : d.size = d.capacity
  · refine .grown halters hsize hfull ?_
    rw [hcapacity, makeRoom, if_pos hfull, capacity_rebuild]
    exact Nat.max_eq_left (Nat.mul_pos d.chains_pos (by decide))
  · refine .filed halters hsize (Nat.lt_of_le_of_ne h.size_le hfull) ?_
    rw [hcapacity, makeRoom, if_neg hfull]

/-- A key that is taken out is counted no more. -/
theorem size_erase (hwf : d.WellFormed) {key : String} (hfiled : d.contains key = true) :
    d.size = (d.erase key).size + 1 := by
  obtain ⟨hwf', e, -, hperm⟩ := erase_spec hwf hfiled
  rw [hwf.size_eq, hwf'.size_eq, hperm.length_eq, List.length_cons]

/-- A key that is not filed cannot be taken out. -/
theorem erase_of_contains_eq_false {key : String} (hnew : d.contains key = false) :
    d.erase key = d := by
  rw [erase, hnew, if_neg Bool.false_ne_true]

/-- Taking out a key. -/
theorem resized_erase (hwf : d.WellFormed) (h : d.Balanced) (key : String) :
    Resized d (.erase key) (d.erase key) := by
  cases hcontains : d.contains key with
  | false =>
    rw [erase_of_contains_eq_false hcontains]
    exact .kept hcontains rfl rfl
  | true =>
    have hsize := size_erase hwf hcontains
    -- the dictionary between the removal and the shrinking
    generalize hcut : ({ d.setChain (sdbm key) ((d.chain (sdbm key)).eraseP
      (Entry.answers (sdbm key) key)) with size := d.size - 1 } : Dict α) = cut
    have herase : d.erase key = cut.shrink := by rw [erase, hcontains, if_pos rfl, hcut]
    have hcapacity : cut.capacity = d.capacity := by
      rw [← hcut]
      exact d.capacity_setChain _ _
    have hcount : cut.size = d.size - 1 := by rw [← hcut]
    have hquarter := h.quarter_le
    by_cases henough : cut.capacity / 4 ≤ cut.size
    · have hsame := herase.trans (shrink_of_enough henough)
      rw [hcapacity, hcount] at henough
      exact .taken hcontains hsize (by omega) (by rw [hsame, hcapacity])
    · have hhalf := herase.trans (shrink_of_sparse (Nat.lt_of_not_le henough) (by omega))
      refine .halved hcontains hsize (by omega) ?_
      obtain ⟨k, hk⟩ := h.power
      rw [hhalf, capacity_rebuild, hcapacity]
      -- an array with a quarter to spare has an even number of chains
      cases k with
      | zero => omega
      | succ k => omega

/-- Every operation that is not on many entries at once. -/
theorem resized_perform (hwf : d.WellFormed) (h : d.Balanced) (hbulk : op.isBulk = false) :
    Resized d op (op.perform d).2 := by
  cases op with
  | insert key value =>
    rw [Operation.perform]
    cases hinsert : d.insert key value with
    | error e => exact .kept (by rw [Operation.alters, hinsert]; rfl) rfl rfl
    | ok d' => exact resized_insert h hinsert
  | erase key => exact resized_erase hwf h key
  | removeWhere visit s => cases hbulk
  | modify key f => exact .kept rfl rfl (d.capacity_setChain _ _)
  | mapWithKey f => exact .kept rfl rfl (by simp [Operation.perform, capacity, mapWithKey])
  | find | contains | size | isEmpty | keys | toList => exact .kept rfl rfl rfl

/-! ## The room that is left -/

/-- How many entries have to come or go before the array is rebuilt: one more than there is room for, or
one more than there are above a quarter. -/
def leeway (d : Dict α) : Nat :=
  min (d.capacity + 1 - d.size) (d.size + 1 - d.capacity / 4)

/-- As long as the number of chains stays, an entry that comes or goes uses up one at most. -/
theorem Resized.leeway_le (h : Resized d op d') (hcapacity : d'.capacity = d.capacity) :
    d.leeway ≤ (op.alters d).toNat + d'.leeway := by
  rw [leeway, leeway, hcapacity]
  cases h with
  | kept alters size_eq => rw [size_eq]; omega
  | filed alters size_eq => rw [alters, Bool.toNat_true]; omega
  | taken alters size_eq => rw [alters, Bool.toNat_true]; omega
  | grown alters size_eq full capacity_eq =>
    have hpos : 0 < d.capacity := d.chains_pos
    omega
  | halved alters size_eq sparse capacity_eq =>
    have hpos : 0 < d.capacity := d.chains_pos
    omega

/-- The number of chains changes only when an entry comes or goes and at the last of the leeway, and then
there is new leeway for a quarter of the chains. -/
theorem Resized.leeway_of_ne (h : Resized d op d') (hne : d'.capacity ≠ d.capacity) :
    op.alters d = true ∧ d.leeway ≤ 1 ∧ d'.capacity / 4 ≤ d'.leeway := by
  rw [leeway, leeway]
  cases h with
  | kept _ _ capacity_eq => exact absurd capacity_eq hne
  | filed _ _ _ capacity_eq => exact absurd capacity_eq hne
  | taken _ _ _ capacity_eq => exact absurd capacity_eq hne
  | grown alters size_eq full capacity_eq => exact ⟨alters, by omega, by omega⟩
  | halved alters size_eq sparse capacity_eq => exact ⟨alters, by omega, by omega⟩

/-- The number of chains stays while there is leeway: an operation that changes it comes after all but one
of the entries that the leeway is for. -/
theorem leeway_le_alterations {ops : List (Operation α)} (hwf : d.WellFormed) (h : d.Balanced)
    (hops : ∀ o ∈ ops, o.isBulk = false) (hop : op.isBulk = false)
    (hne : (op.perform (d.run ops)).2.capacity ≠ (d.run ops).capacity) :
    d.leeway ≤ d.alterations ops + 1 := by
  induction ops generalizing d with
  | nil =>
    obtain ⟨-, hlast, -⟩ := (resized_perform hwf h hop).leeway_of_ne hne
    exact hlast
  | cons first ops ih =>
    obtain ⟨hfirst, hops⟩ := List.forall_mem_cons.mp hops
    have hstep := resized_perform hwf h hfirst
    rw [alterations]
    -- a first change at once finds the last of the leeway, and else `first` leaves all but one of it
    by_cases hcapacity : (first.perform d).2.capacity = d.capacity
    · have hrest := ih (wellFormed_perform hwf first) (h.perform first) hops hne
      have hle := hstep.leeway_le hcapacity
      omega
    · obtain ⟨-, hlast, -⟩ := hstep.leeway_of_ne hcapacity
      omega

/-! ## Filing only -/

/-- The chains are as few as they can be: the least power of two with room for the entries. -/
def Snug (d : Dict α) : Prop :=
  IsLeast {c | d.size ≤ c ∧ ∃ k, c = 2 ^ k} d.capacity

/-- The one chain of the empty dictionary is the least there can be. -/
theorem snug_empty : (empty : Dict α).Snug := by
  refine ⟨⟨Nat.zero_le 1, 0, rfl⟩, ?_⟩
  rintro c ⟨-, k, rfl⟩
  exact Nat.one_le_two_pow

/-- An operation that takes nothing out leaves the chains as few as they can be. -/
theorem Resized.snug (h : Resized d op d') (hsnug : d.Snug) (hsize : d.size ≤ d'.size) : d'.Snug := by
  obtain ⟨⟨hle, k, hk⟩, hleast⟩ := hsnug
  cases h with
  | kept alters size_eq capacity_eq =>
    rw [Snug, size_eq, capacity_eq]
    exact ⟨⟨hle, k, hk⟩, hleast⟩
  | filed alters size_eq room capacity_eq =>
    rw [Snug, size_eq, capacity_eq]
    refine ⟨⟨room, k, hk⟩, ?_⟩
    rintro c ⟨hc, hpower⟩
    exact hleast ⟨Nat.le_of_succ_le hc, hpower⟩
  | grown alters size_eq full capacity_eq =>
    rw [Snug, size_eq, capacity_eq, full, hk]
    refine ⟨⟨?_, k + 1, rfl⟩, ?_⟩
    · have hpos : 0 < 2 ^ k := Nat.two_pow_pos k
      omega
    · -- a power of two above another one is its double at least
      rintro c ⟨hc, j, rfl⟩
      have hlt : k < j := (Nat.pow_lt_pow_iff_right (by decide)).mp hc
      exact Nat.pow_le_pow_right Nat.two_pos hlt
  | taken alters size_eq => omega
  | halved alters size_eq => omega

/-- The insertions of several pairs, one after the other. -/
def insertions (pairs : List (String × α)) : List (Operation α) :=
  pairs.map fun pair => .insert pair.1 pair.2

/-- A key that no entry has is not filed. -/
theorem contains_eq_false (hwf : d.WellFormed) {key : String} (hfresh : key ∉ d.keys) :
    d.contains key = false := by
  rw [Bool.eq_false_iff]
  intro hfiled
  obtain ⟨e, he, hkey⟩ := (contains_iff hwf).mp hfiled
  exact hfresh (List.mem_map.mpr ⟨e, he, hkey⟩)

/-- New keys, all different, are filed every one of them, in chains as few as they can be. -/
theorem run_insertions {pairs : List (String × α)} (hwf : d.WellFormed) (h : d.Balanced)
    (hsnug : d.Snug) (hnodup : (pairs.map Prod.fst ++ d.keys).Nodup) :
    (d.run (insertions pairs)).size = pairs.length + d.size ∧ (d.run (insertions pairs)).Snug := by
  induction pairs generalizing d with
  | nil => exact ⟨(Nat.zero_add _).symm, hsnug⟩
  | cons pair pairs ih =>
    obtain ⟨key, value⟩ := pair
    rw [List.map_cons, List.cons_append, List.nodup_cons] at hnodup
    obtain ⟨hfresh, hnodup⟩ := hnodup
    have hnew := contains_eq_false hwf fun hkey => hfresh (List.mem_append_right _ hkey)
    obtain ⟨d', hinsert, hwf', hperm⟩ := insert_spec hwf value hnew
    have hperform : ((Operation.insert key value).perform d).2 = d' := by
      rw [Operation.perform, hinsert]
    have hsize := size_insert hinsert
    -- the key has only moved from the pairs to the dictionary
    have hkeys : (pairs.map Prod.fst ++ d'.keys).Nodup := by
      have hmiddle := ((hperm.map Entry.key).append_left (pairs.map Prod.fst)).trans List.perm_middle
      exact hmiddle.nodup_iff.mpr (List.nodup_cons.mpr ⟨hfresh, hnodup⟩)
    have hsnug' := (resized_insert h hinsert).snug hsnug (by omega)
    obtain ⟨hcount, hlast⟩ := ih hwf' (h.insert hinsert) hsnug' hkeys
    have hrun : d.run (insertions ((key, value) :: pairs)) = d'.run (insertions pairs) := by
      rw [insertions, List.map_cons, run, List.foldl_cons, hperform]
      rfl
    rw [hrun, List.length_cons]
    exact ⟨by omega, hlast⟩

/-! ## Every run -/

/-- The array of chains is not rebuilt again and again. -/
structure Unhurried (d : Dict α) : Prop where
  /-- When one operation has changed the number of chains and, after some others, `next` changes it too,
  then `next` files or takes out an entry, and the operations that do so after the first change, `next`
  with them, are at least a quarter of the chains in number. -/
  apart : ∀ (op : Operation α) (between : List (Operation α)) (next : Operation α),
    op.isBulk = false → (∀ o ∈ between, o.isBulk = false) → next.isBulk = false →
    (op.perform d).2.capacity ≠ d.capacity →
    (next.perform ((op.perform d).2.run between)).2.capacity ≠
      ((op.perform d).2.run between).capacity →
    next.alters ((op.perform d).2.run between) = true ∧
      (op.perform d).2.capacity / 4 ≤ (op.perform d).2.alterations between + 1
  /-- Taking out one key halves the number of chains once at most. -/
  once : ∀ key, (d.erase key).capacity = d.capacity ∨ d.capacity = (d.erase key).capacity * 2

/-- A dictionary that is well formed and balanced is not rebuilt again and again. -/
theorem unhurried (hwf : d.WellFormed) (h : d.Balanced) : Unhurried d where
  apart := by
    intro op between next hop hbetween hnext hfirst hsecond
    have hwf' := wellFormed_perform hwf op
    have h' := h.perform op
    obtain ⟨hwfNext, hNext⟩ := run_spec between hwf' h'
    obtain ⟨halters, -, -⟩ := (resized_perform hwfNext hNext hnext).leeway_of_ne hsecond
    obtain ⟨-, -, hquarter⟩ := (resized_perform hwf h hop).leeway_of_ne hfirst
    exact ⟨halters, hquarter.trans (leeway_le_alterations hwf' h' hbetween hnext hsecond)⟩
  once := by
    intro key
    cases hcontains : d.contains key with
    | false => exact .inl (congrArg capacity (erase_of_contains_eq_false hcontains))
    | true =>
      have hsize := size_erase hwf hcontains
      cases resized_erase hwf h key with
      | kept _ _ capacity_eq => exact .inl capacity_eq
      | taken _ _ _ capacity_eq => exact .inl capacity_eq
      | halved _ _ _ capacity_eq => exact .inr capacity_eq
      | filed _ size_eq => omega
      | grown _ size_eq => omega

/-- After any sequence of operations from the empty dictionary on, the array of chains is not rebuilt again
and again. And new keys that are filed in an empty dictionary, all different, are all counted and have as
many chains as the least power of two that is not below their number. -/
theorem resizing_run (before : List (Operation α)) :
    Unhurried ((empty : Dict α).run before) ∧
    ∀ pairs : List (String × α), (pairs.map Prod.fst).Nodup →
      ((empty : Dict α).run (insertions pairs)).size = pairs.length ∧
      IsLeast {c | pairs.length ≤ c ∧ ∃ k, c = 2 ^ k}
        ((empty : Dict α).run (insertions pairs)).capacity := by
  obtain ⟨hwf, hbalanced⟩ := run_spec before (hashedBy_empty sdbm) (balanced_empty (α := α))
  refine ⟨unhurried hwf hbalanced, fun pairs hnodup => ?_⟩
  have hkeys : (pairs.map Prod.fst ++ (empty : Dict α).keys).Nodup := by
    rw [show (empty : Dict α).keys = [] from rfl, List.append_nil]
    exact hnodup
  obtain ⟨hsize, hsnug⟩ := run_insertions (hashedBy_empty sdbm) balanced_empty snug_empty hkeys
  rw [size_empty, Nat.add_zero] at hsize
  rw [Snug, hsize] at hsnug
  exact ⟨hsize, hsnug⟩

/-- Sixteen entries are filed, and twelve of them taken out again. -/
def quartered : List (Operation Nat) :=
  insertions ((List.range 16).map fun n => (toString n, n)) ++
    (List.range 12).map fun n => .erase (toString n)

/-- The dictionary after one more is gone. -/
def halved : Dict Nat :=
  ((Operation.erase "12").perform (empty.run quartered)).2

/-- Of sixteen chains eight are left, and the second removal after that leaves four. Five keys are filed in
eight chains. -/
theorem resizing_run_quartered :
    halved.capacity = 8 ∧ halved.capacity ≠ ((empty : Dict Nat).run quartered).capacity ∧
    ((Operation.erase "14").perform (halved.run [.erase "13"])).2.capacity ≠
      (halved.run [.erase "13"]).capacity ∧
    (Operation.erase "14").alters (halved.run [.erase "13"]) = true ∧
    halved.capacity / 4 ≤ halved.alterations [.erase "13"] + 1 ∧
    halved.alterations [.erase "13"] = 1 ∧
    (["a", "b", "c", "d", "e"] : List String).Nodup ∧
    IsLeast {c | 5 ≤ c ∧ ∃ k, c = 2 ^ k} ((empty : Dict Nat).run
      (insertions [("a", 1), ("b", 2), ("c", 3), ("d", 4), ("e", 5)])).capacity := by
  have hfirst : halved.capacity ≠ ((empty : Dict Nat).run quartered).capacity := by decide +kernel
  have hsecond : ((Operation.erase "14").perform (halved.run [.erase "13"])).2.capacity ≠
      (halved.run [.erase "13"]).capacity := by
    decide +kernel
  have hnodup : (["a", "b", "c", "d", "e"] : List String).Nodup := by decide
  obtain ⟨hunhurried, hfiled⟩ := resizing_run quartered
  have hhalved : ((Operation.erase "12").perform ((empty : Dict Nat).run quartered)).2 = halved := rfl
  have hapart := hunhurried.apart (.erase "12") [.erase "13"] (.erase "14") rfl
    (List.forall_mem_singleton.mpr rfl) rfl
  rw [hhalved] at hapart
  obtain ⟨halters, hquarter⟩ := hapart hfirst hsecond
  obtain ⟨-, hleast⟩ := hfiled [("a", 1), ("b", 2), ("c", 3), ("d", 4), ("e", 5)] hnodup
  exact ⟨by decide +kernel, hfirst, hsecond, halters, hquarter, by decide +kernel, hnodup, hleast⟩

end Dict

end BrokerTopology
