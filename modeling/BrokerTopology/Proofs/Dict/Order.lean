import Mathlib.Logic.Relation
import BrokerTopology.Proofs.Dict.Balance
/-!
# The order of a dictionary

The entries of a dictionary are listed chain by chain, and documents show that order. It changes only
where the array of chains is rebuilt: a growth splits every chain in two, a halving joins the chains two by
two, and both keep the order within the chains. As the chain of an entry is its hash modulo the number of
chains, and that number is a power of two, this is a matter of remainders by a number and by its double.

Main statement: `ordered_run`.
-/

namespace BrokerTopology

namespace Dict

variable {α σ : Type}

/-! ## Chains by their numbers -/

/-- The chain of a number; beyond the last one there is nothing. -/
def chainAt (d : Dict α) (i : Nat) : List (Entry α) :=
  d.chains[i]?.getD []

theorem chainAt_index (d : Dict α) (word : UInt64) : d.chainAt (d.index word) = d.chain word := by
  rw [chainAt, chain, Array.getElem?_eq_getElem (d.index_lt word), Option.getD_some]

/-- The entries are those of the chains, in the order of their numbers. -/
theorem entries_eq_flatMap (d : Dict α) : d.entries = (List.range d.capacity).flatMap d.chainAt := by
  have hchains : d.chains.toList = (List.range d.capacity).map d.chainAt := by
    refine List.ext_getElem (by simp [capacity]) fun i hi _ => ?_
    have hi' : i < d.chains.size := by simpa using hi
    simp [chainAt, hi']
  rw [entries, hchains, List.flatMap_def]

/-- An entry of a chain belongs there. -/
theorem hash_of_mem_chainAt {d : Dict α} (h : Placed d.chains) {i : Nat} {e : Entry α}
    (he : e ∈ d.chainAt i) : e.hash.toNat % d.capacity = i := by
  rw [chainAt] at he
  by_cases hi : i < d.chains.size
  · rw [Array.getElem?_eq_getElem hi] at he
    exact h i hi e he
  · rw [Array.getElem?_eq_none (Nat.le_of_not_lt hi)] at he
    cases he

/-- Entries that are selected by the numbers of their chains are those of the selected chains. -/
theorem filter_entries {d : Dict α} (h : Placed d.chains) (p : Nat → Bool) :
    (d.entries.filter fun e => p (e.hash.toNat % d.capacity)) =
      ((List.range d.capacity).filter p).flatMap d.chainAt := by
  have hchain : ∀ i, ((d.chainAt i).filter fun e => p (e.hash.toNat % d.capacity)) =
      if p i then d.chainAt i else [] := by
    intro i
    cases hp : p i with
    | true =>
      refine List.filter_eq_self.mpr fun e he => ?_
      rw [hash_of_mem_chainAt h he, hp]
    | false =>
      refine List.filter_eq_nil_iff.mpr fun e he => ?_
      rw [hash_of_mem_chainAt h he, hp]
      exact Bool.false_ne_true
  rw [entries_eq_flatMap, List.filter_flatMap]
  simp only [hchain]
  induction List.range d.capacity with
  | nil => rfl
  | cons i is ih =>
    rw [List.flatMap_cons, ih, List.filter_cons]
    split
    · rw [List.flatMap_cons]
    · rw [List.nil_append]

/-! ## Rebuilding -/

/-- Placing several entries appends to every chain those that belong there, in their order. -/
theorem getElem?_foldl_place (es : List (Entry α)) (chains : Array (List (Entry α))) (i : Nat) :
    (es.foldl place chains)[i]? =
      chains[i]?.map (· ++ es.filter fun e => e.hash.toNat % chains.size = i) := by
  induction es generalizing chains with
  | nil => simp
  | cons e es ih =>
    rw [List.foldl_cons, ih, size_place, place, Array.getElem?_modify]
    by_cases hhere : e.hash.toNat % chains.size = i
    · rw [if_pos hhere, Option.map_map, List.filter_cons, if_pos (decide_eq_true hhere)]
      refine congrArg (fun f => chains[i]?.map f) (funext fun c => ?_)
      exact List.append_assoc c [e] _
    · rw [if_neg hhere, List.filter_cons, if_neg (by simpa using hhere)]

/-- In a fresh array every chain holds the entries that belong there, in the order in which they were
listed. -/
theorem chainAt_rebuild (d : Dict α) {n i : Nat} (hi : i < n) :
    (d.rebuild n).chainAt i = d.entries.filter fun e => e.hash.toNat % n = i := by
  have hn : max n 1 = n := by omega
  rw [chainAt, rebuild]
  dsimp only
  rw [getElem?_foldl_place, hn]
  simp [hi]

/-- The entries of a dictionary moved, each of them once, to a fresh array of chains. -/
structure Moved (d d' : Dict α) : Prop where
  /-- A new chain holds the entries that belong there, in the order in which they were listed. -/
  chainAt_eq : ∀ i < d'.capacity,
    d'.chainAt i = d.entries.filter fun e => e.hash.toNat % d'.capacity = i
  /-- No entry is lost, and none comes twice. -/
  perm : d'.entries.Perm d.entries
  size_eq : d'.size = d.size

/-- A rebuild gives the number of chains that is asked for. -/
theorem capacity_rebuild_of_pos (d : Dict α) {n : Nat} (hn : 0 < n) : (d.rebuild n).capacity = n := by
  rw [capacity_rebuild]
  omega

/-- A rebuild moves the entries. -/
theorem moved_rebuild (d : Dict α) {n : Nat} (hn : 0 < n) : Moved d (d.rebuild n) := by
  refine ⟨fun i hi => ?_, (d.rebuild_spec n).2, rfl⟩
  rw [d.capacity_rebuild_of_pos hn] at hi ⊢
  exact d.chainAt_rebuild hi

/-! ## Growing -/

/-- The entries moved to an array of twice the size. -/
structure Doubled (d d' : Dict α) : Prop extends Moved d d' where
  capacity_eq : d'.capacity = d.capacity * 2
  /-- Every chain is split in two, and both parts keep the order. -/
  split : ∀ i < d.capacity,
    d'.chainAt i = ((d.chainAt i).filter fun e => e.hash.toNat % d'.capacity = i) ∧
      d'.chainAt (i + d.capacity) = (d.chainAt i).filter fun e => e.hash.toNat % d'.capacity ≠ i

/-- A remainder and the remainder by twice the number. -/
theorem mod_double (m c : Nat) : m % (c * 2) = m % c ∨ m % (c * 2) = m % c + c := by
  rw [Nat.mod_mul]
  rcases Nat.mod_two_eq_zero_or_one (m / c) with h | h
  · rw [h]
    exact .inl rfl
  · rw [h, Nat.mul_one]
    exact .inr rfl

/-- A test that only one number below a bound passes selects that one. -/
theorem filter_range_eq {n i : Nat} {p : Nat → Bool} (hi : i < n)
    (hp : ∀ j < n, p j = true ↔ j = i) : (List.range n).filter p = [i] := by
  have hsame : ∀ j ∈ List.range n, p j = decide (j = i) := fun j hj => by
    rw [Bool.eq_iff_iff, hp j (List.mem_range.mp hj), decide_eq_true_iff]
  rw [List.filter_congr hsame, List.filter_eq, List.count_range, if_pos hi, List.replicate_one]

/-- A rebuild with twice as many chains splits every chain. -/
theorem doubled_rebuild {d : Dict α} (h : Placed d.chains) : Doubled d (d.rebuild (d.capacity * 2)) := by
  have hpos : 0 < d.capacity * 2 := Nat.mul_pos d.chains_pos (by decide)
  have hcapacity := d.capacity_rebuild_of_pos hpos
  -- what belongs in a new chain was in one of the old ones
  have hchain : ∀ i < d.capacity, ∀ k < d.capacity * 2, k % d.capacity = i →
      (d.rebuild (d.capacity * 2)).chainAt k =
        (d.chainAt i).filter fun e => e.hash.toNat % (d.capacity * 2) = k := by
    intro i hi k hk hmod
    have hold := filter_entries h fun j => j = i
    rw [filter_range_eq hi fun j _ => decide_eq_true_iff, List.flatMap_singleton] at hold
    rw [d.chainAt_rebuild hk, ← hold, List.filter_filter]
    refine List.filter_congr fun e _ => ?_
    rw [Bool.eq_iff_iff, Bool.and_eq_true, decide_eq_true_iff, decide_eq_true_iff]
    refine ⟨fun hhash => ⟨hhash, ?_⟩, And.left⟩
    rw [← hmod, ← hhash, Nat.mod_mod_of_dvd _ (Nat.dvd_mul_right _ 2)]
  refine ⟨d.moved_rebuild hpos, hcapacity, fun i hi => ?_⟩
  rw [hcapacity]
  refine ⟨hchain i hi i (by omega) (Nat.mod_eq_of_lt hi), ?_⟩
  rw [hchain i hi (i + d.capacity) (by omega) (by rw [Nat.add_mod_right, Nat.mod_eq_of_lt hi])]
  refine List.filter_congr fun e he => ?_
  have hmod := hash_of_mem_chainAt h he
  rcases mod_double e.hash.toNat d.capacity with hhash | hhash
  · simp [hhash, hmod]
    omega
  · simp [hhash, hmod]
    omega

/-! ## Halving -/

/-- The entries moved to an array of half the size. -/
structure Halved (d d' : Dict α) : Prop extends Moved d d' where
  capacity_eq : d.capacity = d'.capacity * 2
  /-- Every chain of the second half is appended to one of the first. -/
  join : ∀ i < d'.capacity, d'.chainAt i = d.chainAt i ++ d.chainAt (i + d'.capacity)

/-- A rebuild with half as many chains joins them two by two. -/
theorem halved_rebuild {d : Dict α} (h : Placed d.chains) {n : Nat} (hcapacity : d.capacity = n * 2) :
    Halved d (d.rebuild n) := by
  have hpos : 0 < d.capacity := d.chains_pos
  have hn : 0 < n := by omega
  have hhalf := d.capacity_rebuild_of_pos hn
  refine ⟨d.moved_rebuild hn, by rw [hhalf, hcapacity], fun i hi => ?_⟩
  rw [hhalf] at hi ⊢
  have hnumbers : ((List.range d.capacity).filter fun j => j % n = i) = [i, i + n] := by
    have hlow : ∀ j < n, decide (j % n = i) = true ↔ j = i := fun j hj => by
      rw [Nat.mod_eq_of_lt hj, decide_eq_true_iff]
    have hhigh : ∀ j < n, ((fun j => decide (j % n = i)) ∘ (n + ·)) j = true ↔ j = i :=
      fun j hj => by
        rw [Function.comp_apply, Nat.add_mod_left]
        exact hlow j hj
    rw [hcapacity, Nat.mul_two, List.range_add, List.filter_append, List.filter_map,
      filter_range_eq hi hlow, filter_range_eq hi hhigh, Nat.add_comm i n]
    rfl
  have hold := filter_entries h fun j => j % n = i
  rw [hnumbers, List.flatMap_cons, List.flatMap_singleton] at hold
  rw [d.chainAt_rebuild hi, ← hold]
  refine List.filter_congr fun e _ => ?_
  rw [hcapacity, Nat.mod_mod_of_dvd _ (Nat.dvd_mul_right n 2)]

/-- A shrinking halves the array again and again. -/
theorem halvings_shrinkWithin (n : Nat) {d : Dict α} (h : Placed d.chains)
    (hpower : ∃ k, d.capacity = 2 ^ k) : Relation.ReflTransGen Halved d (shrinkWithin n d) := by
  induction n generalizing d with
  | zero => exact .refl
  | succ n ih =>
    rw [shrinkWithin]
    split
    · exact .refl
    · rename_i hsparse
      obtain ⟨_ | k, hk⟩ := hpower
      · exact absurd (Or.inl (Nat.le_of_eq hk)) hsparse
      · have hcapacity : d.capacity = 2 ^ k * 2 := hk
        have hhalf : d.capacity / 2 = 2 ^ k := by omega
        have hstep : Halved d (d.rebuild (d.capacity / 2)) := by
          rw [hhalf]
          exact halved_rebuild h hcapacity
        refine .head hstep (ih (d.rebuild_spec _).1 ⟨k, ?_⟩)
        rw [hhalf]
        exact d.capacity_rebuild_of_pos (Nat.two_pow_pos k)

/-- A shrinking that leaves fewer chains halves the array once at least. -/
theorem halvings_shrink {d : Dict α} (h : Placed d.chains) (hpower : ∃ k, d.capacity = 2 ^ k)
    (hless : d.shrink.capacity < d.capacity) : Relation.TransGen Halved d d.shrink := by
  rcases Relation.reflTransGen_iff_eq_or_transGen.mp (halvings_shrinkWithin d.capacity h hpower) with
    hsame | hsteps
  · rw [shrink, hsame] at hless
    exact absurd hless (Nat.lt_irrefl _)
  · exact hsteps

/-! ## Changes in place -/

/-- What is left of a dictionary in the layout it had: in every chain some of the entries, in their order
and up to their values. -/
structure Thinned (d d' : Dict α) : Prop where
  capacity_eq : d'.capacity = d.capacity
  sublist : ∀ i, ((d'.chainAt i).map Entry.key).Sublist ((d.chainAt i).map Entry.key)

/-- The keys that are left are listed in the order that they had. -/
theorem Thinned.keys_sublist {d d' : Dict α} (h : Thinned d d') : d'.keys.Sublist d.keys := by
  rw [keys, keys, entries_eq_flatMap, entries_eq_flatMap, List.map_flatMap, List.map_flatMap,
    h.capacity_eq]
  induction List.range d.capacity with
  | nil => exact List.Sublist.refl _
  | cons i is ih => exact (h.sublist i).append ih

/-- In a list without repetition, a sublist is the part of the list that is in it. -/
theorem filter_mem_eq_of_sublist {β : Type} [DecidableEq β] {l l' : List β} (h : l'.Sublist l)
    (hnodup : l.Nodup) : l.filter (· ∈ l') = l' := by
  have hself : l'.filter (· ∈ l') = l' := List.filter_eq_self.mpr fun x hx => decide_eq_true hx
  have hsub : l'.Sublist (l.filter (· ∈ l')) := by
    have hfilter := h.filter (· ∈ l')
    rwa [hself] at hfilter
  have hperm : l'.Perm (l.filter (· ∈ l')) := by
    refine (List.perm_ext_iff_of_nodup (hnodup.sublist h) (hnodup.filter _)).mpr fun x => ?_
    rw [List.mem_filter, decide_eq_true_iff]
    exact ⟨fun hx => ⟨h.subset hx, hx⟩, And.right⟩
  exact (hsub.eq_of_length hperm.length_eq).symm

/-- The chains after one of them has been replaced. -/
theorem chainAt_setChain (d : Dict α) (word : UInt64) (c : List (Entry α)) (i : Nat) :
    (d.setChain word c).chainAt i = if i = d.index word then c else d.chainAt i := by
  rw [chainAt, setChain]
  dsimp only
  rw [Array.getElem?_set]
  by_cases hi : i = d.index word
  · rw [if_pos hi.symm, if_pos hi, Option.getD_some]
  · rw [if_neg (Ne.symm hi), if_neg hi, chainAt]

/-- The chains after an entry has been filed. -/
theorem chainAt_consEntry (d : Dict α) (e : Entry α) (i : Nat) :
    (d.consEntry e).chainAt i = if i = d.index e.hash then e :: d.chainAt i else d.chainAt i := by
  have hset : (d.consEntry e).chainAt i = (d.setChain e.hash (e :: d.chain e.hash)).chainAt i := rfl
  rw [hset, chainAt_setChain]
  split
  · rename_i hi
    rw [hi, chainAt_index]
  · rfl

/-! ## Operations -/

/-- The keys that are present in both dictionaries are listed in one order. -/
def SameOrder (d d' : Dict α) : Prop :=
  (d'.keys.filter (· ∈ d.keys)) = d.keys.filter (· ∈ d'.keys)

/-- What an operation does to the order of the entries. -/
structure Ordered (d : Dict α) (op : Operation α) (d' : Dict α) : Prop where
  /-- As long as the number of chains stays, so does the order of what is there before and after. -/
  stays : d'.capacity = d.capacity → SameOrder d d'
  /-- A new entry comes first in its chain. -/
  first : ∀ key value, op = .insert key value → d.contains key = false →
    ∃ rest, d'.chain (sdbm key) = .of key value :: rest
  /-- The array grows to twice its size, and before a new entry is filed in it. -/
  grows : d.capacity < d'.capacity → ∃ key value grown, op = .insert key value ∧ Doubled d grown ∧
    d'.capacity = grown.capacity ∧
    ∀ i, d'.chainAt i =
      if i = d'.index (sdbm key) then .of key value :: grown.chainAt i else grown.chainAt i
  /-- The array shrinks by halvings, and after the entries that go have gone. -/
  shrinks : d'.capacity < d.capacity → ∃ left, Thinned d left ∧
    left.keys = d.keys.filter (· ∈ d'.keys) ∧ Relation.TransGen Halved left d'

/-- Dictionaries with the same keys. -/
theorem SameOrder.of_keys_eq {d d' : Dict α} (h : d'.keys = d.keys) : SameOrder d d' := by
  rw [SameOrder, h]

/-- The order of two dictionaries is the same from both sides. -/
theorem SameOrder.symm {d d' : Dict α} (h : SameOrder d d') : SameOrder d' d :=
  Eq.symm h

/-- A dictionary of which some keys are left. -/
theorem SameOrder.of_sublist {d d' : Dict α} (h : d'.keys.Sublist d.keys) (hnodup : d.keys.Nodup) :
    SameOrder d d' := by
  rw [SameOrder, filter_mem_eq_of_sublist h hnodup, List.filter_eq_self]
  exact fun key hkey => decide_eq_true (h.subset hkey)

section Operations

variable {d d' : Dict α} {op : Operation α}

/-- An operation that files no new key and keeps the keys and the array. -/
theorem Ordered.of_keys_eq (hkeys : d'.keys = d.keys) (hcapacity : d'.capacity = d.capacity)
    (hop : ∀ key value, op = .insert key value → d.contains key = true) : Ordered d op d' where
  stays := fun _ => .of_keys_eq hkeys
  first := by
    intro key value hinsert hnew
    rw [hop key value hinsert] at hnew
    cases hnew
  grows := fun hless => absurd hcapacity.symm (Nat.ne_of_lt hless)
  shrinks := fun hless => absurd hcapacity (Nat.ne_of_lt hless)

/-- Halvings lose no key. -/
theorem keys_perm_of_halvings (h : Relation.ReflTransGen Halved d d') : d'.keys.Perm d.keys := by
  induction h with
  | refl => exact List.Perm.refl _
  | tail _ hstep ih => exact (hstep.perm.map Entry.key).trans ih

/-- An operation that takes out entries and then lets the array shrink, if it does. -/
theorem Ordered.of_thinned {left : Dict α} (hd : d.WellFormed) (hpower : ∃ k, d.capacity = 2 ^ k)
    (hleft : Thinned d left) (hplaced : Placed left.chains) (hd' : d' = left ∨ d' = left.shrink)
    (hop : ∀ key value, op ≠ .insert key value) : Ordered d op d' := by
  have hpower' : ∃ k, left.capacity = 2 ^ k := by
    rw [hleft.capacity_eq]
    exact hpower
  have hsub := hleft.keys_sublist
  have hsame : d'.capacity = d.capacity → d' = left := by
    intro hcapacity
    rcases hd' with rfl | rfl
    · rfl
    · rw [← hleft.capacity_eq] at hcapacity
      exact shrink_eq_self hcapacity
  have hle : d'.capacity ≤ d.capacity := by
    rw [← hleft.capacity_eq]
    rcases hd' with rfl | rfl
    · exact Nat.le_refl _
    · rcases shrinkWithin_eq_or_capacity_lt left.capacity left with hshrink | hshrink
      · exact Nat.le_of_eq (congrArg capacity hshrink)
      · exact Nat.le_of_lt hshrink
  refine ⟨fun hcapacity => ?_, fun key value hinsert => absurd hinsert (hop key value),
    fun hless => absurd hle (Nat.not_le_of_lt hless), fun hless => ?_⟩
  · rw [hsame hcapacity]
    exact .of_sublist hsub hd.keys_nodup
  · rcases hd' with rfl | rfl
    · exact absurd hleft.capacity_eq (Nat.ne_of_lt hless)
    · rw [← hleft.capacity_eq] at hless
      have hsteps := halvings_shrink hplaced hpower' hless
      have hperm := keys_perm_of_halvings hsteps.to_reflTransGen
      refine ⟨left, hleft, ?_, hsteps⟩
      have hkeys := filter_mem_eq_of_sublist hsub hd.keys_nodup
      refine hkeys.symm.trans (List.filter_congr fun key _ => ?_)
      rw [decide_eq_decide, hperm.mem_iff]

/-- Where there is no room the array grows to twice its size. -/
theorem makeRoom_cases (h : Placed d.chains) : d.makeRoom = d ∨ Doubled d d.makeRoom := by
  rw [makeRoom]
  split
  · exact .inr (doubled_rebuild h)
  · exact .inl rfl

/-- Filing an entry keeps the others in their order. -/
theorem keys_sublist_consEntry (d : Dict α) (e : Entry α) : d.keys.Sublist (d.consEntry e).keys := by
  obtain ⟨before, after, hd, hset⟩ := d.exists_entries_setChain e.hash
  have hentries : (d.consEntry e).entries = before ++ (e :: d.chain e.hash ++ after) := hset _
  rw [keys, keys, hentries, hd]
  refine List.Sublist.map _ (List.Sublist.append_left ?_ before)
  exact List.sublist_cons_self e _

/-- Filing a value under a new key. -/
theorem ordered_insert (hd : d.WellFormed) {key : String} {value : α} (hnew : d.contains key = false) :
    Ordered d (.insert key value) (d.makeRoom.consEntry (.of key value)) := by
  obtain ⟨d', hinsert, hwf, -⟩ := insert_spec hd value hnew
  rw [insert, hnew] at hinsert
  obtain rfl : d.makeRoom.consEntry (.of key value) = d' := Except.ok.inj hinsert
  have hcapacity : (d.makeRoom.consEntry (.of key value)).capacity = d.makeRoom.capacity :=
    capacity_setChain _ _ _
  have hindex : (d.makeRoom.consEntry (.of key value)).index (sdbm key) =
      d.makeRoom.index (sdbm key) := by
    rw [index, hcapacity, index]
  have hchains : ∀ i, (d.makeRoom.consEntry (.of key value)).chainAt i =
      if i = (d.makeRoom.consEntry (.of key value)).index (sdbm key) then
        .of key value :: d.makeRoom.chainAt i
      else d.makeRoom.chainAt i := by
    intro i
    rw [hindex]
    exact d.makeRoom.chainAt_consEntry (.of key value) i
  have hpos : 0 < d.capacity := d.chains_pos
  refine ⟨fun hsame => ?_, ?_, fun hless => ?_, fun hless => ?_⟩
  · rcases makeRoom_cases hd.placed with hroom | hdoubled
    · rw [hroom] at hwf ⊢
      exact (SameOrder.of_sublist (keys_sublist_consEntry d _) hwf.keys_nodup).symm
    · have hgrown := hdoubled.capacity_eq
      omega
  · rintro key' value' hop -
    cases hop
    refine ⟨d.makeRoom.chainAt (d.makeRoom.index (sdbm key)), ?_⟩
    rw [← chainAt_index, hchains, if_pos rfl, hindex]
  · rcases makeRoom_cases hd.placed with hroom | hdoubled
    · rw [hcapacity, hroom] at hless
      exact absurd hless (Nat.lt_irrefl _)
    · exact ⟨key, value, d.makeRoom, rfl, hdoubled, hcapacity, hchains⟩
  · rcases makeRoom_cases hd.placed with hroom | hdoubled
    · rw [hcapacity, hroom] at hless
      exact absurd hless (Nat.lt_irrefl _)
    · have hgrown := hdoubled.capacity_eq
      omega

/-- Taking out a key. -/
theorem ordered_erase (hd : d.WellFormed) (hbalanced : d.Balanced) (key : String) :
    Ordered d (.erase key) (d.erase key) := by
  rw [erase]
  split
  · -- the chain of the key loses an entry, and all other chains stay
    have hsublist : ((d.chain (sdbm key)).eraseP (Entry.answers (sdbm key) key)).Sublist
        (d.chain (sdbm key)) := List.eraseP_sublist
    have hleft : Thinned d { d.setChain (sdbm key) ((d.chain (sdbm key)).eraseP
        (Entry.answers (sdbm key) key)) with size := d.size - 1 } := by
      refine ⟨d.capacity_setChain _ _, fun i => ?_⟩
      show (((d.setChain (sdbm key) ((d.chain (sdbm key)).eraseP
        (Entry.answers (sdbm key) key))).chainAt i).map Entry.key).Sublist _
      rw [chainAt_setChain]
      split
      · rename_i hi
        rw [hi, chainAt_index]
        exact hsublist.map Entry.key
      · exact List.Sublist.refl _
    refine .of_thinned hd hbalanced.power hleft ?_ (.inr rfl) fun _ _ hop => by cases hop
    exact placed_setChain hd.placed fun e he => hd.placed _ (d.index_lt _) e (hsublist.subset he)
  · exact .of_keys_eq rfl rfl fun _ _ hop => by cases hop

/-- A visit leaves in every chain some of its entries. -/
theorem thinned_swept (d : Dict α) (visit : σ → String → α → Verdict α σ) (s : σ) :
    Thinned d (d.swept visit s) := by
  have hlabels := labels_sweepChains visit s d.chains.toList
  refine ⟨d.capacity_swept visit s, fun i => ?_⟩
  by_cases hi : i < d.chains.size
  · have hi' : i < (sweepChains visit s d.chains.toList).kept.length := by
      rw [hlabels.length_eq]
      simpa using hi
    have hchain := (hlabels.get hi' (by simpa using hi)).map Prod.snd
    have hkey : Prod.snd ∘ (Entry.label : Entry α → UInt64 × String) = Entry.key := rfl
    rw [List.map_map, List.map_map, hkey] at hchain
    simpa [chainAt, swept, hi, hi'] using hchain
  · have hnone : (d.swept visit s).chainAt i = [] := by
      have hi' : (d.swept visit s).chains.size ≤ i := by
        rw [← capacity, capacity_swept]
        exact Nat.le_of_not_lt hi
      rw [chainAt, Array.getElem?_eq_none hi', Option.getD_none]
    rw [hnone]
    exact List.nil_sublist _

/-- Removing with a visitor. -/
theorem ordered_removeWhere (hd : d.WellFormed) (hbalanced : d.Balanced)
    (visit : σ → String → α → Verdict α σ) (s : σ) :
    Ordered d (.removeWhere visit s) (d.removeWhere visit s).dict := by
  refine .of_thinned hd hbalanced.power (d.thinned_swept visit s) (hashedBy_swept hd visit s).placed
    ?_ fun _ _ hop => by cases hop
  rw [removeWhere_eq]
  dsimp only
  split
  · exact .inl rfl
  · exact .inr rfl

/-- Every operation on a well-formed dictionary. -/
theorem ordered_perform (hd : d.WellFormed) (hbalanced : d.Balanced) (op : Operation α) :
    Ordered d op (op.perform d).2 := by
  cases op with
  | insert key value =>
    rw [Operation.perform, insert]
    cases hcontains : d.contains key with
    | true =>
      refine .of_keys_eq rfl rfl fun key' value' hop => ?_
      cases hop
      exact hcontains
    | false => exact ordered_insert hd hcontains
  | erase key => exact ordered_erase hd hbalanced key
  | removeWhere visit s => exact ordered_removeWhere hd hbalanced visit s
  | modify key f =>
    have hkeys : (d.modify key f).keys = d.keys := by
      rw [keys, entries_modify hd, List.map_map]
      rfl
    exact .of_keys_eq hkeys (d.capacity_setChain _ _) fun _ _ hop => by cases hop
  | mapWithKey f =>
    have hkeys : (d.mapWithKey f).keys = d.keys := by
      rw [keys, entries_mapWithKey, List.map_map]
      rfl
    exact .of_keys_eq hkeys (by simp [Operation.perform, capacity, mapWithKey]) fun _ _ hop => by cases hop
  | find key => exact .of_keys_eq rfl rfl fun _ _ hop => by cases hop
  | contains key => exact .of_keys_eq rfl rfl fun _ _ hop => by cases hop
  | size => exact .of_keys_eq rfl rfl fun _ _ hop => by cases hop
  | isEmpty => exact .of_keys_eq rfl rfl fun _ _ hop => by cases hop
  | keys => exact .of_keys_eq rfl rfl fun _ _ hop => by cases hop
  | toList => exact .of_keys_eq rfl rfl fun _ _ hop => by cases hop

end Operations

/-- After any sequence of operations from the empty dictionary on, an operation that leaves the number of
chains as it is keeps the order of what is there before and after, and a new entry comes first in its
chain; any other operation doubles the array before it files its entry, or halves it again and again after
its entries are gone, and each time every entry is moved once and no chain changes the order. -/
theorem ordered_run (ops : List (Operation α)) (op : Operation α) :
    Ordered ((empty : Dict α).run ops) op (op.perform ((empty : Dict α).run ops)).2 := by
  obtain ⟨hwf, hbalanced⟩ := run_spec ops (hashedBy_empty sdbm) (balanced_empty (α := α))
  exact ordered_perform hwf hbalanced op

end Dict

end BrokerTopology
