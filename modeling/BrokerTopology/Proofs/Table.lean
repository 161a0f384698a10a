import Mathlib.Data.List.Nodup
import BrokerTopology.Table
/-!
# Look-ups in tables

What a table answers after a change is said in one equation for each change. A table is built by
filing and taking out, and then no key is repeated: a look-up finds exactly the entries that are
listed. A table may be restricted to some of its keys, and then changes of the others do not show.
-/

namespace BrokerTopology

namespace Table

variable {α : Type} {t : Table α} {key other : String} {value : α}

/-! ## After a change -/

theorem find?_set (t : Table α) (key other : String) (value : α) :
    (t.set key value).find? other = if other = key then some value else t.find? other := by
  by_cases h : other = key
  · rw [h, if_pos rfl, find?_set_self]
  · rw [if_neg h, find?_set_of_ne t h]

theorem find?_erase (t : Table α) (key other : String) :
    (t.erase key).find? other = if other = key then none else t.find? other := by
  by_cases h : other = key
  · rw [h, if_pos rfl, find?_erase_self]
  · rw [if_neg h, find?_erase_of_ne t h]

/-- After filing, the new key is known beside those before. -/
@[simp] theorem contains_set : (t.set key value).contains other = true ↔
    other = key ∨ t.contains other = true := by
  rw [contains, contains, find?_set]
  by_cases h : other = key
  · simp [h]
  · simp [h]

/-- After taking out, the other keys are left. -/
@[simp] theorem contains_erase : (t.erase key).contains other = true ↔
    other ≠ key ∧ t.contains other = true := by
  rw [contains, contains, find?_erase]
  by_cases h : other = key
  · simp [h]
  · simp [h]

/-- Filing lists no other value than the one that is filed. -/
theorem mem_values_of_set {v : α} (h : v ∈ (t.set key value).values) :
    v = value ∨ v ∈ t.values := by
  obtain ⟨es⟩ := t
  have hset : v ∈ (setEntry key value es).map Prod.snd := h
  clear h
  induction es with
  | nil => exact .inl (List.mem_singleton.mp hset)
  | cons e es ih =>
    unfold setEntry at hset
    split at hset
    · rcases List.mem_cons.mp hset with rfl | hold
      · exact .inl rfl
      · exact .inr (List.mem_cons_of_mem e.2 hold)
    · rcases List.mem_cons.mp hset with rfl | hold
      · exact .inr List.mem_cons_self
      · exact (ih hold).imp_right (List.mem_cons_of_mem e.2)

theorem mem_values_of_erase {v : α} (h : v ∈ (t.erase key).values) : v ∈ t.values :=
  (List.filter_sublist.map Prod.snd).subset h

/-! ## Distinct keys -/

/-- The listed keys are those under which something is found. -/
theorem mem_keys_iff : key ∈ t.keys ↔ t.contains key = true := by
  rw [contains, find?, List.lookup_isSome_iff, keys, List.mem_map]
  refine exists_congr fun e => and_congr_right' ?_
  rw [beq_iff_eq, eq_comm]

/-- Where no key is repeated, every listed entry is found. -/
theorem mem_toList_iff (h : t.keys.Nodup) : (key, value) ∈ t.toList ↔ t.find? key = some value := by
  obtain ⟨es⟩ := t
  show (key, value) ∈ es ↔ es.lookup key = some value
  replace h : (es.map Prod.fst).Nodup := h
  induction es with
  | nil => simp
  | cons e es ih =>
    obtain ⟨k, v⟩ := e
    obtain ⟨hnew, hes⟩ := List.nodup_cons.mp h
    rw [List.lookup_cons, List.mem_cons, Prod.mk.injEq]
    by_cases hkey : key = k
    · -- a second entry of the key would repeat it
      subst hkey
      have honce : (key, value) ∉ es := fun hmem => hnew (List.mem_map.mpr ⟨_, hmem, rfl⟩)
      simp [honce, eq_comm]
    · have hother : (key == k) = false := by simpa using hkey
      simp [hkey, hother, ih hes]

/-- Filing lists no other key than the one that is filed. -/
theorem mem_keys_setEntry {es : List (String × α)} {k : String}
    (h : k ∈ (setEntry key value es).map Prod.fst) : k = key ∨ k ∈ es.map Prod.fst := by
  induction es with
  | nil => simpa [setEntry] using h
  | cons e es ih =>
    unfold setEntry at h
    split at h
    · rcases List.mem_cons.mp h with rfl | h
      · exact Or.inl rfl
      · exact Or.inr (List.mem_cons_of_mem e.1 h)
    · rcases List.mem_cons.mp h with rfl | h
      · exact Or.inr List.mem_cons_self
      · exact (ih h).imp_right (List.mem_cons_of_mem e.1)

/-- Filing repeats no key. -/
theorem keys_nodup_set (h : t.keys.Nodup) (key : String) (value : α) :
    (t.set key value).keys.Nodup := by
  obtain ⟨es⟩ := t
  show ((setEntry key value es).map Prod.fst).Nodup
  replace h : (es.map Prod.fst).Nodup := h
  induction es with
  | nil => simp [setEntry]
  | cons e es ih =>
    obtain ⟨hnew, hes⟩ := List.nodup_cons.mp h
    unfold setEntry
    split
    · rename_i hsame
      subst hsame
      exact h
    · rename_i hother
      refine List.nodup_cons.mpr ⟨fun hk => ?_, ih hes⟩
      rcases mem_keys_setEntry hk with hk | hk
      · exact hother hk
      · exact hnew hk

/-- Taking out repeats no key. -/
theorem keys_nodup_erase (h : t.keys.Nodup) (key : String) : (t.erase key).keys.Nodup :=
  h.sublist (List.filter_sublist.map Prod.fst)

/-! ## Selected keys -/

/-- The entries under the keys that are selected. -/
def restrict (t : Table α) (p : String → Bool) : Table α :=
  ⟨t.entries.filter fun e => p e.1⟩

/-- What is filed under a selected key is still found. -/
theorem find?_restrict (t : Table α) {p : String → Bool} (h : p key = true) :
    (t.restrict p).find? key = t.find? key := by
  obtain ⟨es⟩ := t
  show (es.filter fun e => p e.1).lookup key = es.lookup key
  induction es with
  | nil => rfl
  | cons e es ih =>
    obtain ⟨k, v⟩ := e
    by_cases hkey : key = k
    · subst hkey
      simp [h]
    · have hother : (key == k) = false := by simpa using hkey
      rw [List.lookup_cons, hother, List.filter_cons]
      split
      · rw [List.lookup_cons, hother]
        exact ih
      · exact ih

/-- Filing under a key that is not selected leaves the selected entries as they are. -/
theorem restrict_set (t : Table α) (p : String → Bool) (key : String) (value : α) :
    (t.set key value).restrict p = if p key then (t.restrict p).set key value else t.restrict p := by
  obtain ⟨es⟩ := t
  have hentries : (setEntry key value es).filter (fun e => p e.1) =
      if p key then setEntry key value (es.filter fun e => p e.1) else es.filter fun e => p e.1 := by
    induction es with
    | nil => cases hp : p key <;> simp [setEntry, hp]
    | cons e es ih =>
      obtain ⟨k, v⟩ := e
      by_cases hkey : k = key
      · subst hkey
        cases hp : p k <;> simp [setEntry, hp]
      · rw [setEntry, if_neg hkey, List.filter_cons, ih, List.filter_cons]
        cases p k <;> cases p key <;> simp [setEntry, hkey]
  cases hp : p key <;> simp [restrict, set, hentries, hp]

/-- Taking out a key that is not selected leaves the selected entries as they are. -/
theorem restrict_erase (t : Table α) (p : String → Bool) (key : String) :
    (t.erase key).restrict p = if p key then (t.restrict p).erase key else t.restrict p := by
  obtain ⟨es⟩ := t
  have hcomm : (es.filter fun e => e.1 != key).filter (fun e => p e.1) =
      (es.filter fun e => p e.1).filter fun e => e.1 != key :=
    List.filter_comm _ _ _
  cases hp : p key with
  | true => simp [restrict, erase, hcomm]
  | false =>
    -- no selected key is the one that is taken out
    have hothers : ∀ e ∈ es.filter (fun e => p e.1), (e.1 != key) = true := by
      rintro ⟨k, v⟩ he
      rw [bne_iff_ne]
      rintro rfl
      simp [hp] at he
    have hkept := List.filter_eq_self.mpr hothers
    simp [restrict, erase, hcomm, hkept]

end Table

end BrokerTopology
