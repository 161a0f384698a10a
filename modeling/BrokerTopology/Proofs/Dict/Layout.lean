import Mathlib.Data.List.Nodup
import Mathlib.Data.List.Perm.Basic
import BrokerTopology.Dict.Basic
/-!
# Well-formed dictionaries

A look-up searches one chain only, so it finds what has been filed only while every entry lies in
the chain of its hash. This file states that condition, together with distinct keys and a correct
count, shows that every operation keeps it, and says what each operation makes of the list of
entries: up to order where the array of chains may be rebuilt, and exactly where the layout stays.

Nothing depends on which hash the keys have. So the statements are for any hash function, and for
the hash of the dictionaries they are repeated only where an operation looks at the hash of a key.

Main statements: `findHashed_eq_some_iff` (a look-up is membership in the list of entries), and for
each operation a pair of `wellFormed_…` and `entries_…`.
-/

namespace BrokerTopology

namespace Dict

variable {α β : Type} {hash : String → UInt64}

/-! ## One chain among the others -/

/-- The entries are those of one chain between those of the chains before and after it, and
replacing the chain replaces just that part. -/
theorem exists_entries_setChain (d : Dict α) (hash : UInt64) :
    ∃ before after, d.entries = before ++ (d.chain hash ++ after) ∧
      ∀ c, (d.setChain hash c).entries = before ++ (c ++ after) := by
  have hlt : d.index hash < d.chains.toList.length := by simpa using d.index_lt hash
  refine ⟨(d.chains.toList.take (d.index hash)).flatten,
    (d.chains.toList.drop (d.index hash + 1)).flatten, ?_, ?_⟩
  · have hcut : d.chains.toList =
        d.chains.toList.take (d.index hash) ++
          d.chain hash :: d.chains.toList.drop (d.index hash + 1) := by
      rw [chain, ← Array.getElem_toList, List.getElem_cons_drop, List.take_append_drop]
    rw [entries]
    conv_lhs => rw [hcut]
    rw [List.flatten_append, List.flatten_cons]
  · intro c
    rw [entries, setChain, Array.toList_set, List.set_eq_take_append_cons_drop, if_pos hlt,
      List.flatten_append, List.flatten_cons]

/-- A chain holds entries of the dictionary only. -/
theorem mem_entries_of_mem_chain {d : Dict α} {hash : UInt64} {e : Entry α}
    (h : e ∈ d.chain hash) : e ∈ d.entries := by
  obtain ⟨before, after, hd, -⟩ := d.exists_entries_setChain hash
  rw [hd]
  exact List.mem_append_right _ (List.mem_append_left _ h)

/-! ## Placement -/

/-- Every entry lies in the chain numbered by its hash. -/
def Placed (chains : Array (List (Entry α))) : Prop :=
  ∀ (i : Nat) (h : i < chains.size), ∀ e ∈ chains[i], e.hash.toNat % chains.size = i

/-- An array of empty chains is placed. -/
theorem placed_replicate (n : Nat) : Placed (Array.replicate n ([] : List (Entry α))) := by
  intro i h e he
  simp at he

/-- Placing one more entry keeps the placement. -/
theorem placed_place {chains : Array (List (Entry α))} (h : Placed chains) (e : Entry α) :
    Placed (place chains e) := by
  intro i hi x hx
  rw [size_place] at hi ⊢
  simp only [place, Array.getElem_modify] at hx
  split at hx
  · rename_i same
    rcases List.mem_append.mp hx with hx | hx
    · exact h i hi x hx
    · rw [List.mem_singleton.mp hx]
      exact same
  · exact h i hi x hx

/-- Placing one more entry adds it to the listed entries. -/
theorem flatten_place_perm {chains : Array (List (Entry α))} (hpos : 0 < chains.size)
    (e : Entry α) : (place chains e).toList.flatten.Perm (e :: chains.toList.flatten) := by
  have hlt : e.hash.toNat % chains.size < chains.toList.length := Nat.mod_lt _ hpos
  have hcut := List.take_append_drop (e.hash.toNat % chains.size) chains.toList
  rw [List.drop_eq_getElem_cons hlt] at hcut
  rw [place, Array.toList_modify, List.modify_eq_take_cons_drop hlt]
  conv_rhs => rw [← hcut]
  simp only [List.flatten_append, List.flatten_cons, List.append_assoc, List.cons_append,
    List.nil_append]
  exact ((List.perm_middle.append_left _).trans List.perm_middle)

/-- Placing several entries keeps the placement and adds them all. -/
theorem placed_foldl_place (es : List (Entry α)) {chains : Array (List (Entry α))}
    (h : Placed chains) (hpos : 0 < chains.size) :
    Placed (es.foldl place chains) ∧
      (es.foldl place chains).toList.flatten.Perm (es ++ chains.toList.flatten) := by
  induction es generalizing chains with
  | nil => exact ⟨h, List.Perm.refl _⟩
  | cons e es ih =>
    obtain ⟨hplaced, hperm⟩ := ih (placed_place h e) (by rwa [size_place])
    refine ⟨hplaced, hperm.trans ?_⟩
    exact ((flatten_place_perm hpos e).append_left es).trans List.perm_middle

/-- A placed entry lies in the chain of its own hash. -/
theorem mem_chain_of_mem_entries {d : Dict α} (h : Placed d.chains) {e : Entry α}
    (he : e ∈ d.entries) : e ∈ d.chain e.hash := by
  obtain ⟨c, hc, hec⟩ := List.mem_flatten.mp he
  obtain ⟨i, hi, rfl⟩ := List.mem_iff_getElem.mp hc
  have hi' : i < d.chains.size := by simpa using hi
  rw [Array.getElem_toList hi'] at hec
  have hindex : d.index e.hash = i := h i hi' e hec
  simpa only [chain, hindex] using hec

/-- Replacing a chain by entries with the same place keeps the placement. -/
theorem placed_setChain {d : Dict α} (h : Placed d.chains) {hash : UInt64} {c : List (Entry α)}
    (hc : ∀ e ∈ c, e.hash.toNat % d.chains.size = d.index hash) :
    Placed (d.setChain hash c).chains := by
  intro i hi e he
  simp only [setChain, Array.size_set] at hi ⊢
  simp only [setChain, Array.getElem_set] at he
  split at he
  · rename_i same
    rw [hc e he, same]
  · exact h i hi e he

/-! ## Well-formed dictionaries -/

/-- The entries lie in the chains of their hashes, the hashes are those of the keys, no key is filed
twice, and the count is right. -/
structure HashedBy (hash : String → UInt64) (d : Dict α) : Prop where
  placed : Placed d.chains
  hashed : ∀ e ∈ d.entries, e.hash = hash e.key
  keys_nodup : d.keys.Nodup
  size_eq : d.size = d.entries.length

/-- A dictionary is well formed when its keys are hashed as its operations do it. -/
abbrev WellFormed (d : Dict α) : Prop :=
  HashedBy sdbm d

/-- The empty dictionary is well formed. -/
theorem hashedBy_empty (hash : String → UInt64) : HashedBy hash (empty : Dict α) where
  placed := placed_replicate 1
  hashed := by
    intro e he
    cases he
  keys_nodup := List.nodup_nil
  size_eq := rfl

namespace HashedBy

variable {d : Dict α}

/-- Two entries with one key are one entry. -/
theorem eq_of_key_eq (h : d.HashedBy hash) {e e' : Entry α} (he : e ∈ d.entries)
    (he' : e' ∈ d.entries) (hkey : e.key = e'.key) : e = e' :=
  List.inj_on_of_nodup_map h.keys_nodup he he' hkey

/-- Among the entries the key alone decides which one answers. -/
theorem answers_iff (h : d.HashedBy hash) {e : Entry α} (he : e ∈ d.entries) (key : String) :
    e.answers (hash key) key = true ↔ e.key = key := by
  rw [Entry.answers, Bool.and_eq_true, beq_iff_eq, beq_iff_eq, h.hashed e he]
  constructor
  · exact fun ⟨_, hkey⟩ => hkey
  · rintro rfl
    exact ⟨rfl, rfl⟩

/-- An entry lies in the chain of its key. -/
theorem mem_chain (h : d.HashedBy hash) {e : Entry α} (he : e ∈ d.entries) :
    e ∈ d.chain (hash e.key) := by
  rw [← h.hashed e he]
  exact mem_chain_of_mem_entries h.placed he

end HashedBy

/-! ## Looking up -/

/-- A look-up finds exactly the entries of the dictionary. -/
theorem findHashed_eq_some_iff {d : Dict α} (h : d.HashedBy hash) {key : String} {v : α} :
    d.findHashed (hash key) key = some v ↔ ∃ e ∈ d.entries, e.key = key ∧ e.value = v := by
  constructor
  · intro hfind
    obtain ⟨e, he, hv⟩ := Option.map_eq_some_iff.mp hfind
    have hmem := mem_entries_of_mem_chain (List.mem_of_find?_eq_some he)
    exact ⟨e, hmem, (h.answers_iff hmem key).mp (List.find?_some he), hv⟩
  · rintro ⟨e, he, rfl, rfl⟩
    have hfound : ((d.chain (hash e.key)).find? (Entry.answers (hash e.key) e.key)).isSome := by
      rw [List.find?_isSome]
      exact ⟨e, h.mem_chain he, (h.answers_iff he e.key).mpr rfl⟩
    obtain ⟨e', he'⟩ := Option.isSome_iff_exists.mp hfound
    have hmem := mem_entries_of_mem_chain (List.mem_of_find?_eq_some he')
    have hkey := (h.answers_iff hmem e.key).mp (List.find?_some he')
    rw [findHashed, he', h.eq_of_key_eq hmem he hkey]
    rfl

theorem find?_eq_some_iff {d : Dict α} (h : d.WellFormed) {key : String} {v : α} :
    d.find? key = some v ↔ ∃ e ∈ d.entries, e.key = key ∧ e.value = v := by
  rw [find?_eq_findHashed]
  exact findHashed_eq_some_iff h

/-- A key is filed when some entry has it. -/
theorem isSome_findHashed_iff {d : Dict α} (h : d.HashedBy hash) {key : String} :
    (d.findHashed (hash key) key).isSome = true ↔ ∃ e ∈ d.entries, e.key = key := by
  rw [Option.isSome_iff_exists]
  constructor
  · rintro ⟨v, hv⟩
    obtain ⟨e, he, hkey, -⟩ := (findHashed_eq_some_iff h).mp hv
    exact ⟨e, he, hkey⟩
  · rintro ⟨e, he, hkey⟩
    exact ⟨e.value, (findHashed_eq_some_iff h).mpr ⟨e, he, hkey, rfl⟩⟩

theorem contains_iff {d : Dict α} (h : d.WellFormed) {key : String} :
    d.contains key = true ↔ ∃ e ∈ d.entries, e.key = key := by
  rw [contains, find?_eq_findHashed]
  exact isSome_findHashed_iff h

/-- Nothing is filed in the empty dictionary. -/
theorem contains_empty (key : String) : (empty : Dict α).contains key = false := by
  rw [Bool.eq_false_iff]
  intro h
  obtain ⟨e, he, -⟩ := (contains_iff (hashedBy_empty sdbm)).mp h
  cases he

/-- Nothing is found in the empty dictionary. -/
theorem find?_empty (key : String) : (empty : Dict α).find? key = none := by
  simpa [contains] using contains_empty (α := α) key

/-- A dictionary is empty when it lists no value. -/
theorem isEmpty_iff {d : Dict α} (h : d.HashedBy hash) : d.isEmpty = true ↔ d.values = [] := by
  rw [isEmpty, beq_iff_eq, h.size_eq, values, List.map_eq_nil_iff, List.length_eq_zero_iff]

/-! ## Rebuilding the array of chains -/

/-- A dictionary whose entries are those of a well-formed one, placed anew. -/
theorem HashedBy.of_perm {d d' : Dict α} (h : d.HashedBy hash) (hplaced : Placed d'.chains)
    (hperm : d'.entries.Perm d.entries) (hsize : d'.size = d.size) : d'.HashedBy hash where
  placed := hplaced
  hashed := fun e he => h.hashed e (hperm.mem_iff.mp he)
  keys_nodup := (hperm.map Entry.key).nodup_iff.mpr h.keys_nodup
  size_eq := by rw [hsize, h.size_eq, hperm.length_eq]

/-- A rebuild places every entry and loses none. -/
theorem rebuild_spec (d : Dict α) (n : Nat) :
    Placed (d.rebuild n).chains ∧ (d.rebuild n).entries.Perm d.entries := by
  have hpos : 0 < (Array.replicate (max n 1) ([] : List (Entry α))).size := by
    rw [Array.size_replicate]
    omega
  obtain ⟨hplaced, hperm⟩ := placed_foldl_place d.entries (placed_replicate (max n 1)) hpos
  refine ⟨hplaced, hperm.trans (List.Perm.of_eq ?_)⟩
  simp

/-- A rebuild keeps a dictionary well formed. -/
theorem hashedBy_rebuild {d : Dict α} (h : d.HashedBy hash) (n : Nat) :
    (d.rebuild n).HashedBy hash :=
  h.of_perm (d.rebuild_spec n).1 (d.rebuild_spec n).2 rfl

/-- Shrinking, however often the array is halved, keeps a dictionary well formed and its entries. -/
theorem shrinkWithin_spec (n : Nat) {d : Dict α} (h : d.HashedBy hash) :
    (shrinkWithin n d).HashedBy hash ∧ (shrinkWithin n d).entries.Perm d.entries := by
  induction n generalizing d with
  | zero => exact ⟨h, List.Perm.refl _⟩
  | succ n ih =>
    rw [shrinkWithin]
    split
    · exact ⟨h, List.Perm.refl _⟩
    · obtain ⟨hwf, hperm⟩ := ih (hashedBy_rebuild h (d.capacity / 2))
      exact ⟨hwf, hperm.trans (d.rebuild_spec _).2⟩

/-- Making room keeps a dictionary well formed and its entries. -/
theorem makeRoom_spec {d : Dict α} (h : d.HashedBy hash) :
    d.makeRoom.HashedBy hash ∧ d.makeRoom.entries.Perm d.entries := by
  rw [makeRoom]
  split
  · exact ⟨hashedBy_rebuild h _, (d.rebuild_spec _).2⟩
  · exact ⟨h, List.Perm.refl _⟩

/-! ## Inserting -/

/-- Filing an entry under a new key adds just this entry. -/
theorem consEntry_spec {d : Dict α} (h : d.HashedBy hash) {e : Entry α}
    (hhash : e.hash = hash e.key) (hnew : e.key ∉ d.keys) :
    (d.consEntry e).HashedBy hash ∧ (d.consEntry e).entries.Perm (e :: d.entries) := by
  obtain ⟨before, after, hd, hset⟩ := d.exists_entries_setChain e.hash
  have hperm : (d.consEntry e).entries.Perm (e :: d.entries) := by
    have hentries : (d.consEntry e).entries = before ++ (e :: d.chain e.hash ++ after) := hset _
    rw [hentries, hd]
    exact List.perm_middle
  refine ⟨⟨?_, ?_, ?_, ?_⟩, hperm⟩
  · refine placed_setChain h.placed fun x hx => ?_
    rcases List.mem_cons.mp hx with rfl | hx
    · rfl
    · exact h.placed _ (d.index_lt e.hash) x hx
  · intro x hx
    rcases List.mem_cons.mp (hperm.mem_iff.mp hx) with rfl | hx
    · exact hhash
    · exact h.hashed x hx
  · refine (hperm.map Entry.key).nodup_iff.mpr ?_
    exact List.nodup_cons.mpr ⟨hnew, h.keys_nodup⟩
  · have hsize : (d.consEntry e).size = d.size + 1 := rfl
    rw [hsize, hperm.length_eq, List.length_cons, h.size_eq]

/-- A new key is filed, and nothing else changes but the order. -/
theorem insertHashed_spec {d : Dict α} (h : d.HashedBy hash) {key : String} (v : α)
    (hnew : (d.findHashed (hash key) key).isSome = false) :
    ∃ d', d.insertHashed (hash key) key v = .ok d' ∧ d'.HashedBy hash ∧
      d'.entries.Perm (⟨hash key, key, v⟩ :: d.entries) := by
  obtain ⟨hroom, hroomPerm⟩ := makeRoom_spec h
  have hkey : key ∉ d.makeRoom.keys := by
    intro hmem
    obtain ⟨e, he, hkey⟩ := List.mem_map.mp hmem
    have hfiled := (isSome_findHashed_iff h).mpr ⟨e, hroomPerm.mem_iff.mp he, hkey⟩
    rw [hnew] at hfiled
    cases hfiled
  obtain ⟨hwf, hperm⟩ := consEntry_spec (e := ⟨hash key, key, v⟩) hroom rfl hkey
  refine ⟨_, ?_, hwf, hperm.trans (hroomPerm.cons _)⟩
  rw [insertHashed, hnew]
  rfl

theorem insert_spec {d : Dict α} (h : d.WellFormed) {key : String} (v : α)
    (hnew : d.contains key = false) :
    ∃ d', d.insert key v = .ok d' ∧ d'.WellFormed ∧
      d'.entries.Perm (Entry.of key v :: d.entries) := by
  rw [contains, find?_eq_findHashed] at hnew
  rw [insert_eq_insertHashed]
  exact insertHashed_spec h v hnew

/-! ## Changing values in place -/

/-- Entries that agree with those of a well-formed dictionary but for their values, in a layout with
as many chains. -/
theorem HashedBy.of_map {d : Dict α} {d' : Dict β} (h : d.HashedBy hash) (f : Entry α → β)
    (hplaced : Placed d'.chains) (hentries : d'.entries = d.entries.map fun e => e.withValue (f e))
    (hsize : d'.size = d.size) : d'.HashedBy hash where
  placed := hplaced
  hashed := by
    rw [hentries]
    intro e he
    obtain ⟨x, hx, rfl⟩ := List.mem_map.mp he
    exact h.hashed x hx
  keys_nodup := by
    rw [keys, hentries, List.map_map]
    exact h.keys_nodup
  size_eq := by rw [hsize, h.size_eq, hentries, List.length_map]

/-- The entry that a change under `key` makes of an entry. -/
def Entry.modifyAt (key : String) (f : α → α) (e : Entry α) : Entry α :=
  e.withValue (if e.key = key then f e.value else e.value)

/-- A change under another key leaves an entry alone. -/
theorem Entry.modifyAt_of_ne {key : String} (f : α → α) {e : Entry α} (h : e.key ≠ key) :
    e.modifyAt key f = e := by
  rw [modifyAt, if_neg h]
  rfl

/-- A change under a key that no entry has leaves all entries alone. -/
theorem map_modifyAt_of_forall_ne {key : String} (f : α → α) {es : List (Entry α)}
    (h : ∀ e ∈ es, e.key ≠ key) : es.map (Entry.modifyAt key f) = es := by
  have hsame : ∀ e ∈ es, Entry.modifyAt key f e = id e := fun e he =>
    Entry.modifyAt_of_ne f (h e he)
  rw [List.map_congr_left hsame, List.map_id]

/-- With distinct keys, changing the first entry that answers is changing every entry of the
key. -/
theorem modifyFirst_eq_map {word : UInt64} {key : String} (f : α → α) {c : List (Entry α)}
    (hanswers : ∀ e ∈ c, e.answers word key = true ↔ e.key = key)
    (hnodup : (c.map Entry.key).Nodup) :
    modifyFirst word key f c = c.map (Entry.modifyAt key f) := by
  induction c with
  | nil => rfl
  | cons e es ih =>
    obtain ⟨hfresh, hnodup⟩ := List.nodup_cons.mp hnodup
    have hhere := hanswers e List.mem_cons_self
    rw [modifyFirst, List.map_cons]
    split
    · rename_i ha
      have hkey : e.key = key := hhere.mp ha
      have hrest : ∀ x ∈ es, x.key ≠ key := by
        intro x hx hsame
        exact hfresh (List.mem_map.mpr ⟨x, hx, hsame.trans hkey.symm⟩)
      rw [map_modifyAt_of_forall_ne f hrest, Entry.modifyAt, if_pos hkey]
    · rename_i ha
      rw [ih (fun x hx => hanswers x (List.mem_cons_of_mem e hx)) hnodup,
        Entry.modifyAt_of_ne f fun hkey => ha (hhere.mpr hkey)]

/-- In a chain of a well-formed dictionary the change affects every entry of its key. -/
theorem modifyFirst_chain {d : Dict α} (h : d.HashedBy hash) (key : String) (f : α → α) :
    modifyFirst (hash key) key f (d.chain (hash key)) =
      (d.chain (hash key)).map (Entry.modifyAt key f) := by
  refine modifyFirst_eq_map f (fun e he => ?_) ?_
  · exact h.answers_iff (mem_entries_of_mem_chain he) key
  · obtain ⟨before, after, hd, -⟩ := d.exists_entries_setChain (hash key)
    have hkeys := h.keys_nodup
    rw [keys, hd, List.map_append, List.map_append] at hkeys
    exact (List.nodup_append'.mp (List.nodup_append'.mp hkeys).2.1).1

/-- A change under a key changes the value of its entry and nothing else. -/
theorem entries_modifyHashed {d : Dict α} (h : d.HashedBy hash) (key : String) (f : α → α) :
    (d.modifyHashed (hash key) key f).entries = d.entries.map (Entry.modifyAt key f) := by
  obtain ⟨before, after, hd, hset⟩ := d.exists_entries_setChain (hash key)
  -- an entry of the key can only lie in the chain that is replaced
  have helse : ∀ e ∈ before ++ after, e.key ≠ key := by
    rintro e he rfl
    have hin : e ∈ d.entries := by
      rw [hd]
      rcases List.mem_append.mp he with he | he
      · exact List.mem_append_left _ he
      · exact List.mem_append_right _ (List.mem_append_right _ he)
    have hchain := h.mem_chain hin
    have hnodup : d.entries.Nodup := h.keys_nodup.of_map Entry.key
    rw [hd, List.nodup_append'] at hnodup
    obtain ⟨-, hnodup, hbefore⟩ := hnodup
    rcases List.mem_append.mp he with he | he
    · exact hbefore he (List.mem_append_left _ hchain)
    · exact (List.nodup_append'.mp hnodup).2.2 hchain he
  rw [modifyHashed, hset, modifyFirst_chain h, hd, List.map_append, List.map_append,
    map_modifyAt_of_forall_ne f fun e he => helse e (List.mem_append_left _ he),
    map_modifyAt_of_forall_ne f fun e he => helse e (List.mem_append_right _ he)]

theorem entries_modify {d : Dict α} (h : d.WellFormed) (key : String) (f : α → α) :
    (d.modify key f).entries = d.entries.map (Entry.modifyAt key f) := by
  rw [modify_eq_modifyHashed]
  exact entries_modifyHashed h key f

/-- A change under a key keeps a dictionary well formed. -/
theorem hashedBy_modifyHashed {d : Dict α} (h : d.HashedBy hash) (key : String) (f : α → α) :
    (d.modifyHashed (hash key) key f).HashedBy hash := by
  refine h.of_map (fun e => if e.key = key then f e.value else e.value) ?_
    (entries_modifyHashed h key f) rfl
  refine placed_setChain h.placed fun e he => ?_
  rw [modifyFirst_chain h] at he
  obtain ⟨x, hx, rfl⟩ := List.mem_map.mp he
  exact h.placed _ (d.index_lt _) x hx

theorem wellFormed_modify {d : Dict α} (h : d.WellFormed) (key : String) (f : α → α) :
    (d.modify key f).WellFormed := by
  rw [modify_eq_modifyHashed]
  exact hashedBy_modifyHashed h key f

/-- Applying a function to every value, with its key, keeps the layout. -/
theorem entries_mapWithKey (f : String → α → β) (d : Dict α) :
    (d.mapWithKey f).entries = d.entries.map fun e => e.withValue (f e.key e.value) := by
  rw [entries, mapWithKey, Array.toList_map, entries, List.map_flatten]

/-- Applying a function to every value, with its key, keeps a dictionary well formed. -/
theorem hashedBy_mapWithKey {d : Dict α} (h : d.HashedBy hash) (f : String → α → β) :
    (d.mapWithKey f).HashedBy hash := by
  refine h.of_map (fun e => f e.key e.value) ?_ (entries_mapWithKey f d) rfl
  intro i hi e he
  simp only [mapWithKey, Array.size_map, Array.getElem_map] at hi he ⊢
  obtain ⟨x, hx, rfl⟩ := List.mem_map.mp he
  exact h.placed i hi x hx

/-- Applying a function to every value keeps the layout. -/
theorem entries_map (f : α → β) (d : Dict α) :
    (d.map f).entries = d.entries.map fun e => e.withValue (f e.value) :=
  entries_mapWithKey (fun _ => f) d

/-- Applying a function to every value keeps a dictionary well formed. -/
theorem hashedBy_map {d : Dict α} (h : d.HashedBy hash) (f : α → β) : (d.map f).HashedBy hash :=
  hashedBy_mapWithKey h fun _ => f

/-! ## Changes one after the other

Changes in place keep the array of chains, so they compose exactly, layout and all. -/

/-- A chain that has just been put in place is found there. -/
theorem chain_setChain (d : Dict α) (hash : UInt64) (c : List (Entry α)) :
    (d.setChain hash c).chain hash = c := by
  simp [chain, setChain, index, capacity]

/-- Of two chains in one place the later one stays. -/
theorem setChain_setChain (d : Dict α) (hash : UInt64) (c c' : List (Entry α)) :
    (d.setChain hash c).setChain hash c' = d.setChain hash c' := by
  simp [setChain, index, capacity]

/-- Putting a chain where it is changes nothing. -/
theorem setChain_chain (d : Dict α) (hash : UInt64) : d.setChain hash (d.chain hash) = d := by
  simp [setChain, chain]

/-- Two changes of the first value that answers for a key are one. -/
theorem modifyFirst_modifyFirst (hash : UInt64) (key : String) (f g : α → α) (c : List (Entry α)) :
    modifyFirst hash key g (modifyFirst hash key f c) = modifyFirst hash key (g ∘ f) c := by
  induction c with
  | nil => rfl
  | cons e es ih =>
    rw [modifyFirst, modifyFirst]
    split
    · rename_i ha
      have ha' : (e.withValue (f e.value)).answers hash key = true := ha
      rw [modifyFirst, if_pos ha']
      rfl
    · rename_i hnot
      rw [modifyFirst, if_neg hnot, ih]

/-- A change that keeps the first value that answers for a key changes nothing. -/
theorem modifyFirst_eq_self {hash : UInt64} {key : String} {f : α → α} {c : List (Entry α)}
    (hf : ∀ e, c.find? (Entry.answers hash key) = some e → f e.value = e.value) :
    modifyFirst hash key f c = c := by
  induction c with
  | nil => rfl
  | cons e es ih =>
    rw [modifyFirst]
    split
    · rename_i ha
      rw [hf e (List.find?_cons_of_pos ha)]
      rfl
    · rename_i hnot
      rw [ih fun x hx => hf x ((List.find?_cons_of_neg hnot).trans hx)]

/-- Two changes under one key are one, in the same place. -/
theorem modify_modify (d : Dict α) (key : String) (f g : α → α) :
    (d.modify key f).modify key g = d.modify key (g ∘ f) := by
  rw [modify, modify, modify, chain_setChain, setChain_setChain, modifyFirst_modifyFirst]

/-- A change that keeps the value found under its key changes nothing. -/
theorem modify_eq_self {d : Dict α} {key : String} {f : α → α}
    (hf : ∀ v, d.find? key = some v → f v = v) : d.modify key f = d := by
  rw [modify, modifyFirst_eq_self, setChain_chain]
  intro e he
  refine hf e.value ?_
  rw [find?, he, Option.map_some]

/-- The chains and the size are all that there is to a dictionary. -/
theorem eq_of_chains_eq {d d' : Dict α} (hchains : d.chains = d'.chains) (hsize : d.size = d'.size) :
    d = d' := by
  cases d
  cases d'
  cases hchains
  cases hsize
  rfl

/-- Two functions that are applied to every value are one, in the same places. -/
theorem map_map {γ : Type} (f : α → β) (g : β → γ) (d : Dict α) : (d.map f).map g = d.map (g ∘ f) := by
  refine eq_of_chains_eq ?_ rfl
  refine Array.map_map.trans (congrArg (Array.map · d.chains) (funext fun c => ?_))
  exact List.map_map

/-- A function that keeps every value changes nothing. -/
theorem map_eq_self {d : Dict α} {f : α → α} (hf : ∀ v ∈ d.values, f v = v) : d.map f = d := by
  refine eq_of_chains_eq ?_ rfl
  rw [map]
  refine (Array.map_congr_left fun c hc => ?_).trans (Array.map_id _)
  refine (List.map_congr_left fun e he => ?_).trans (List.map_id _)
  have hlisted : e ∈ d.entries := List.mem_flatten.mpr ⟨c, Array.mem_toList_iff.mpr hc, he⟩
  rw [hf e.value (List.mem_map_of_mem hlisted)]
  rfl

/-! ## Removing -/

/-- Taking out a key takes out its entry and nothing else. -/
theorem eraseHashed_spec {d : Dict α} (h : d.HashedBy hash) {key : String}
    (hfiled : (d.findHashed (hash key) key).isSome = true) :
    (d.eraseHashed (hash key) key).HashedBy hash ∧
      ∃ e, e.key = key ∧ d.entries.Perm (e :: (d.eraseHashed (hash key) key).entries) := by
  obtain ⟨x, hx, hxkey⟩ := (isSome_findHashed_iff h).mp hfiled
  subst hxkey
  obtain ⟨e, front, back, -, hanswers, hchain, hcut⟩ :=
    List.exists_of_eraseP (h.mem_chain hx) ((h.answers_iff hx x.key).mpr rfl)
  have hmem : e ∈ d.chain (hash x.key) := by
    rw [hchain]
    exact List.mem_append_right _ List.mem_cons_self
  have hkey := (h.answers_iff (mem_entries_of_mem_chain hmem) x.key).mp hanswers
  obtain ⟨before, after, hd, hset⟩ := d.exists_entries_setChain (hash x.key)
  -- the dictionary between the removal and the shrinking
  generalize hcutd : ({ d.setChain (hash x.key) ((d.chain (hash x.key)).eraseP
    (Entry.answers (hash x.key) x.key)) with size := d.size - 1 } : Dict α) = cut
  have herase : d.eraseHashed (hash x.key) x.key = cut.shrink := by
    rw [eraseHashed, hfiled, if_pos rfl, hcutd]
  have hentries : cut.entries = before ++ (front ++ back ++ after) := by
    rw [← hcutd, ← hcut]
    exact hset _
  have hperm : d.entries.Perm (e :: cut.entries) := by
    rw [hd, hchain, hentries]
    simp only [List.append_assoc, List.cons_append]
    exact (List.perm_middle.append_left before).trans List.perm_middle
  have hwf : cut.HashedBy hash := by
    refine ⟨?_, fun y hy => ?_, ?_, ?_⟩
    · rw [← hcutd]
      refine placed_setChain h.placed fun y hy => ?_
      exact h.placed _ (d.index_lt _) y (List.mem_of_mem_eraseP hy)
    · exact h.hashed y (hperm.mem_iff.mpr (List.mem_cons_of_mem e hy))
    · exact (List.nodup_cons.mp ((hperm.map Entry.key).nodup_iff.mp h.keys_nodup)).2
    · have hsize : cut.size = d.size - 1 := by rw [← hcutd]
      rw [hsize, h.size_eq, hperm.length_eq, List.length_cons, Nat.add_sub_cancel]
  obtain ⟨hshrink, hshrinkPerm⟩ := shrinkWithin_spec cut.capacity hwf
  rw [herase]
  exact ⟨hshrink, e, hkey, hperm.trans (hshrinkPerm.symm.cons e)⟩

theorem erase_spec {d : Dict α} (h : d.WellFormed) {key : String} (hfiled : d.contains key = true) :
    (d.erase key).WellFormed ∧
      ∃ e, e.key = key ∧ d.entries.Perm (e :: (d.erase key).entries) := by
  rw [contains, find?_eq_findHashed] at hfiled
  rw [erase_eq_eraseHashed]
  exact eraseHashed_spec h hfiled

/-- A visitor that only names entries by their values takes out those and keeps the others. -/
theorem sweepChain_of_pred (p : α → Bool) (c : List (Entry α)) :
    sweepChain (fun _ _ v => ⟨p v, v, ()⟩) () c =
      ⟨c.filter fun e => !p e.value, c.filter fun e => p e.value, ()⟩ := by
  induction c with
  | nil => rfl
  | cons e es ih =>
    rw [sweepChain, ih]
    cases hp : p e.value <;> simp [hp, Entry.withValue]

/-- The same for several chains. -/
theorem sweepChains_of_pred (p : α → Bool) (cs : List (List (Entry α))) :
    sweepChains (fun _ _ v => ⟨p v, v, ()⟩) () cs =
      ⟨cs.map fun c => c.filter fun e => !p e.value, cs.flatten.filter fun e => p e.value, ()⟩ := by
  induction cs with
  | nil => rfl
  | cons c cs ih =>
    rw [sweepChains, sweepChain_of_pred, ih, List.flatten_cons, List.filter_append, List.map_cons]

/-- The dictionary without the entries whose value satisfies `p`, in the layout it had. -/
def without (d : Dict α) (p : α → Bool) : Dict α where
  chains := (d.chains.toList.map fun c => c.filter fun e => !p e.value).toArray
  size := d.size - (d.entries.filter fun e => p e.value).length
  chains_pos := by simpa using d.chains_pos

/-- In the layout it had, a dictionary loses exactly the entries that satisfy `p`. -/
theorem entries_without (d : Dict α) (p : α → Bool) :
    (d.without p).entries = d.entries.filter fun e => !p e.value :=
  List.filter_flatten.symm

/-- Losing entries keeps a dictionary well formed. -/
theorem hashedBy_without {d : Dict α} (h : d.HashedBy hash) (p : α → Bool) :
    (d.without p).HashedBy hash where
  placed := by
    intro i hi e he
    simp only [without, List.size_toArray, List.length_map, Array.length_toList,
      List.getElem_toArray, List.getElem_map, Array.getElem_toList] at hi he ⊢
    exact h.placed i hi e (List.mem_of_mem_filter he)
  hashed := by
    rw [entries_without]
    exact fun e he => h.hashed e (List.mem_of_mem_filter he)
  keys_nodup := by
    rw [keys, entries_without]
    exact h.keys_nodup.sublist (List.filter_sublist.map Entry.key)
  size_eq := by
    have hlength := (List.filter_append_perm (fun e : Entry α => p e.value) d.entries).length_eq
    rw [List.length_append] at hlength
    rw [entries_without, without, h.size_eq]
    dsimp only
    omega

/-- A removal by a predicate is the loss of the entries that satisfy it and, if there are any, a
shrinking of the array. -/
theorem removeIf_eq (d : Dict α) (p : α → Bool) :
    d.removeIf p =
      ⟨if (d.entries.filter fun e => p e.value).isEmpty then d.without p else (d.without p).shrink,
        (d.entries.filter fun e => p e.value).map Entry.pair, ()⟩ := by
  simp only [removeIf, removeWhere, sweepChains_of_pred]
  rfl

/-- A removal by a predicate keeps exactly the entries that do not satisfy it. -/
theorem removeIf_spec {d : Dict α} (h : d.HashedBy hash) (p : α → Bool) :
    (d.removeIf p).dict.HashedBy hash ∧
      (d.removeIf p).dict.entries.Perm (d.entries.filter fun e => !p e.value) := by
  rw [removeIf_eq, ← entries_without]
  dsimp only
  split
  · exact ⟨hashedBy_without h p, List.Perm.refl _⟩
  · exact shrinkWithin_spec _ (hashedBy_without h p)

/-- A removal that takes nothing out keeps the entries as they are, in their order. -/
theorem entries_removeIf_of_removed_eq_nil {d : Dict α} {p : α → Bool}
    (h : (d.removeIf p).removed = []) : (d.removeIf p).dict.entries = d.entries := by
  rw [removeIf_eq] at h ⊢
  have hnone : (d.entries.filter fun e => p e.value) = [] := List.map_eq_nil_iff.mp h
  dsimp only
  rw [hnone, List.isEmpty_nil, if_pos rfl, entries_without, List.filter_eq_self]
  intro e he
  simpa using List.filter_eq_nil_iff.mp hnone e he

end Dict

end BrokerTopology
