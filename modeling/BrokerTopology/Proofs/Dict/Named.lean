import BrokerTopology.Proofs.Dict.Layout
/-!
# Dictionaries of named values

Hosts, clients, topics and publish edges all carry their own name, and each is filed under it. Such
a dictionary is determined by the list of its values, so here every operation is described by that
list alone: a look-up finds the value of a name, and the values are listed without repeating a name.
-/

namespace BrokerTopology

namespace Dict

variable {α β : Type}

/-- A well-formed dictionary that files every value under its own name. -/
structure NamedBy (name : α → String) (d : Dict α) : Prop extends toWellFormed : WellFormed d where
  name_eq : ∀ e ∈ d.entries, name e.value = e.key

/-- The empty dictionary files no value under a wrong name. -/
theorem namedBy_empty (name : α → String) : NamedBy name (empty : Dict α) where
  toWellFormed := hashedBy_empty sdbm
  name_eq := by
    intro e he
    cases he

namespace NamedBy

variable {name : α → String} {d : Dict α}

/-! ## Looking up -/

/-- A value is listed with the entry that files it under its name. -/
theorem mem_values_iff (h : NamedBy name d) {v : α} :
    v ∈ d.values ↔ ∃ e ∈ d.entries, e.key = name v ∧ e.value = v := by
  constructor
  · intro hv
    obtain ⟨e, he, rfl⟩ := List.mem_map.mp hv
    exact ⟨e, he, (h.name_eq e he).symm, rfl⟩
  · rintro ⟨e, he, -, rfl⟩
    exact List.mem_map_of_mem he

/-- A look-up finds the value of a name. -/
theorem find?_eq_some_iff (h : NamedBy name d) {key : String} {v : α} :
    d.find? key = some v ↔ v ∈ d.values ∧ name v = key := by
  rw [Dict.find?_eq_some_iff h.toWellFormed, h.mem_values_iff]
  constructor
  · rintro ⟨e, he, rfl, rfl⟩
    exact ⟨⟨e, he, (h.name_eq e he).symm, rfl⟩, h.name_eq e he⟩
  · rintro ⟨⟨e, he, hkey, hv⟩, rfl⟩
    exact ⟨e, he, hkey, hv⟩

/-- A name is filed when some value has it. -/
theorem contains_iff (h : NamedBy name d) {key : String} :
    d.contains key = true ↔ ∃ v ∈ d.values, name v = key := by
  rw [contains, Option.isSome_iff_exists]
  exact exists_congr fun v => h.find?_eq_some_iff

/-- The names of the values are the keys. -/
theorem names_eq_keys (h : NamedBy name d) : d.values.map name = d.keys := by
  rw [values, keys, List.map_map]
  exact List.map_congr_left h.name_eq

/-- No two values have one name. -/
theorem names_nodup (h : NamedBy name d) : (d.values.map name).Nodup := by
  rw [h.names_eq_keys]
  exact h.keys_nodup

/-- Values with one name are one value. -/
theorem eq_of_name_eq (h : NamedBy name d) {v w : α} (hv : v ∈ d.values) (hw : w ∈ d.values)
    (hname : name v = name w) : v = w :=
  List.inj_on_of_nodup_map h.names_nodup hv hw hname

/-- A value that is found is the only one with its name. -/
theorem filter_name_eq (h : NamedBy name d) {key : String} {v : α} (hfind : d.find? key = some v) :
    (d.values.filter fun w => name w = key) = [v] := by
  obtain ⟨hv, hname⟩ := h.find?_eq_some_iff.mp hfind
  have hnodup : (d.values.filter fun w => name w = key).Nodup := h.names_nodup.of_map.filter _
  rw [← List.perm_singleton, List.perm_ext_iff_of_nodup hnodup (List.nodup_singleton v)]
  intro w
  rw [List.mem_filter, decide_eq_true_iff, List.mem_singleton]
  constructor
  · rintro ⟨hw, hsame⟩
    exact h.eq_of_name_eq hw hv (hsame.trans hname.symm)
  · rintro rfl
    exact ⟨hv, hname⟩

/-! ## Inserting and taking out -/

/-- A value with a new name is filed, and the others stay. -/
theorem insert_spec (h : NamedBy name d) (v : α) (hnew : d.contains (name v) = false) :
    ∃ d', d.insert (name v) v = .ok d' ∧ NamedBy name d' ∧ d'.values.Perm (v :: d.values) := by
  obtain ⟨d', hinsert, hwf, hperm⟩ := Dict.insert_spec h.toWellFormed v hnew
  refine ⟨d', hinsert, ⟨hwf, fun e he => ?_⟩, hperm.map Entry.value⟩
  rcases List.mem_cons.mp (hperm.mem_iff.mp he) with rfl | he
  · rfl
  · exact h.name_eq e he

/-- After a value has been added it is found under its name, and the others as before. -/
theorem find?_of_perm_cons {d' : Dict α} (h : NamedBy name d) (h' : NamedBy name d') {v : α}
    (hperm : d'.values.Perm (v :: d.values)) (key : String) :
    d'.find? key = if key = name v then some v else d.find? key := by
  have hnodup := (hperm.map name).nodup_iff.mp h'.names_nodup
  refine Option.ext fun w => ?_
  rw [h'.find?_eq_some_iff, hperm.mem_iff, List.mem_cons]
  split
  · rename_i hkey
    constructor
    · rintro ⟨rfl | hw, hname⟩
      · rfl
      · -- then the name would be repeated
        refine absurd (List.mem_map.mpr ⟨w, hw, ?_⟩) (List.nodup_cons.mp hnodup).1
        rw [hname, hkey]
    · intro hw
      obtain rfl := Option.some.inj hw
      exact ⟨Or.inl rfl, hkey.symm⟩
  · rename_i hother
    rw [h.find?_eq_some_iff]
    refine and_congr_left fun hname => or_iff_right ?_
    rintro rfl
    exact hother hname.symm

/-- What is found under a key is taken out, and the others stay. -/
theorem erase_spec (h : NamedBy name d) {key : String} {v : α} (hfind : d.find? key = some v) :
    NamedBy name (d.erase key) ∧ d.values.Perm (v :: (d.erase key).values) := by
  have hfiled : d.contains key = true := by rw [contains, hfind]; rfl
  obtain ⟨hwf, e, hkey, hperm⟩ := Dict.erase_spec h.toWellFormed hfiled
  have he : e ∈ d.entries := hperm.mem_iff.mpr List.mem_cons_self
  have hv : e.value = v := by
    have hfind' := (Dict.find?_eq_some_iff h.toWellFormed).mpr ⟨e, he, hkey, rfl⟩
    rw [hfind] at hfind'
    exact (Option.some.inj hfind').symm
  refine ⟨⟨hwf, fun x hx => ?_⟩, ?_⟩
  · exact h.name_eq x (hperm.mem_iff.mpr (List.mem_cons_of_mem e hx))
  · rw [← hv]
    exact hperm.map Entry.value

/-- The values that stay have other names than the one taken out. -/
theorem name_ne_of_mem_erase (h : NamedBy name d) {key : String} {v : α}
    (hfind : d.find? key = some v) {w : α} (hw : w ∈ (d.erase key).values) : name w ≠ key := by
  obtain ⟨-, hperm⟩ := h.erase_spec hfind
  obtain ⟨-, hname⟩ := h.find?_eq_some_iff.mp hfind
  have hnodup := (hperm.map name).nodup_iff.mp h.names_nodup
  intro hsame
  refine (List.nodup_cons.mp hnodup).1 ?_
  rw [hname.trans hsame.symm]
  exact List.mem_map_of_mem hw

/-- The values that stay were there before. -/
theorem mem_of_mem_erase (h : NamedBy name d) {key : String} {v : α}
    (hfind : d.find? key = some v) {w : α} (hw : w ∈ (d.erase key).values) : w ∈ d.values :=
  (h.erase_spec hfind).2.mem_iff.mpr (List.mem_cons_of_mem v hw)

/-! ## Changing values -/

/-- A change that keeps the name of the key keeps a dictionary named. -/
theorem modify (h : NamedBy name d) {key : String} {f : α → α}
    (hf : ∀ v ∈ d.values, name v = key → name (f v) = key) : NamedBy name (d.modify key f) where
  toWellFormed := wellFormed_modify h.toWellFormed key f
  name_eq := by
    rw [entries_modify h.toWellFormed]
    intro e he
    obtain ⟨x, hx, rfl⟩ := List.mem_map.mp he
    by_cases hkey : x.key = key
    · rw [Entry.modifyAt, if_pos hkey]
      refine (hf x.value (List.mem_map_of_mem hx) ?_).trans hkey.symm
      rw [h.name_eq x hx, hkey]
    · rw [Entry.modifyAt_of_ne f hkey]
      exact h.name_eq x hx

/-- A change under a key is a change of the value with that name. -/
theorem values_modify (h : NamedBy name d) (key : String) (f : α → α) :
    (d.modify key f).values = d.values.map fun v => if name v = key then f v else v := by
  rw [values, entries_modify h.toWellFormed, values, List.map_map, List.map_map]
  refine List.map_congr_left fun e he => ?_
  simp only [Function.comp, Entry.modifyAt, Entry.withValue, h.name_eq e he]

/-- A change under a key, seen apart from the values of the other keys. -/
theorem values_modify_perm (h : NamedBy name d) {key : String} {v : α}
    (hfind : d.find? key = some v) (f : α → α) :
    (d.modify key f).values.Perm (f v :: (d.erase key).values) := by
  obtain ⟨-, hperm⟩ := h.erase_spec hfind
  obtain ⟨-, hname⟩ := h.find?_eq_some_iff.mp hfind
  have hrest : ∀ w ∈ (d.erase key).values, (if name w = key then f w else w) = id w :=
    fun w hw => if_neg (h.name_ne_of_mem_erase hfind hw)
  have hmap := hperm.map fun w => if name w = key then f w else w
  rw [List.map_cons, if_pos hname, List.map_congr_left hrest, List.map_id] at hmap
  rw [h.values_modify]
  exact hmap

/-- A change that keeps the name of the value found under its key keeps a dictionary named. -/
theorem modify_of_find? (h : NamedBy name d) {key : String} {v : α} {f : α → α}
    (hfind : d.find? key = some v) (hf : name (f v) = key) : NamedBy name (d.modify key f) := by
  obtain ⟨hv, hname⟩ := h.find?_eq_some_iff.mp hfind
  refine h.modify fun w hw hsame => ?_
  rw [h.eq_of_name_eq hw hv (hsame.trans hname.symm)]
  exact hf

/-- After a change the changed value is found under its key. -/
theorem find?_modify (h : NamedBy name d) {key : String} {v : α} {f : α → α}
    (hfind : d.find? key = some v) (hf : name (f v) = key) :
    (d.modify key f).find? key = some (f v) :=
  (h.modify_of_find? hfind hf).find?_eq_some_iff.mpr
    ⟨(h.values_modify_perm hfind f).mem_iff.mpr List.mem_cons_self, hf⟩

/-- What holds of the changed value and of the values of the other keys holds of all values after a
change. -/
theorem forall_mem_modify (h : NamedBy name d) {key : String} {v : α} {f : α → α}
    (hfind : d.find? key = some v) {P : α → Prop} (hchanged : P (f v))
    (hothers : ∀ w ∈ (d.erase key).values, P w) : ∀ w ∈ (d.modify key f).values, P w := by
  intro w hw
  rcases List.mem_cons.mp ((h.values_modify_perm hfind f).mem_iff.mp hw) with rfl | hw
  · exact hchanged
  · exact hothers w hw

/-- A function that keeps all names keeps a dictionary named. -/
theorem map {name' : β → String} (h : NamedBy name d) {f : α → β}
    (hf : ∀ v ∈ d.values, name' (f v) = name v) : NamedBy name' (d.map f) where
  toWellFormed := hashedBy_map h.toWellFormed f
  name_eq := by
    rw [entries_map]
    intro e he
    obtain ⟨x, hx, rfl⟩ := List.mem_map.mp he
    exact (hf x.value (List.mem_map_of_mem hx)).trans (h.name_eq x hx)

/-- Where every value has been changed under its name, the changed values are found. -/
theorem find?_of_map {d' : Dict α} (h : NamedBy name d) (h' : NamedBy name d') {f : α → α}
    (hf : ∀ v, name (f v) = name v) (hvalues : d'.values = d.values.map f) (key : String) :
    d'.find? key = (d.find? key).map f := by
  refine Option.ext fun w => ?_
  rw [h'.find?_eq_some_iff, hvalues, List.mem_map, Option.map_eq_some_iff]
  constructor
  · rintro ⟨⟨v, hv, rfl⟩, hname⟩
    exact ⟨v, h.find?_eq_some_iff.mpr ⟨hv, (hf v).symm.trans hname⟩, rfl⟩
  · rintro ⟨v, hfind, rfl⟩
    obtain ⟨hv, hname⟩ := h.find?_eq_some_iff.mp hfind
    exact ⟨⟨v, hv, rfl⟩, (hf v).trans hname⟩

/-- A removal by a predicate keeps the values that do not satisfy it. -/
theorem removeIf_spec (h : NamedBy name d) (p : α → Bool) :
    NamedBy name (d.removeIf p).dict ∧
      (d.removeIf p).dict.values.Perm (d.values.filter fun v => !p v) ∧
      (d.removeIf p).removed = (d.values.filter p).map fun v => (name v, v) := by
  obtain ⟨hwf, hperm⟩ := Dict.removeIf_spec h.toWellFormed p
  refine ⟨⟨hwf, fun e he => ?_⟩, ?_, ?_⟩
  · exact h.name_eq e (List.mem_of_mem_filter (hperm.mem_iff.mp he))
  · rw [values, values, List.filter_map]
    exact hperm.map Entry.value
  · rw [removeIf_eq, values, List.filter_map, List.map_map]
    refine List.map_congr_left fun e he => ?_
    rw [Entry.pair, Function.comp, h.name_eq e (List.mem_of_mem_filter he)]

/-- After a removal by a predicate the values that do not satisfy it are found. -/
theorem find?_removeIf (h : NamedBy name d) (p : α → Bool) (key : String) :
    (d.removeIf p).dict.find? key = (d.find? key).filter fun v => !p v := by
  obtain ⟨hkept, hperm, -⟩ := h.removeIf_spec p
  refine Option.ext fun w => ?_
  rw [hkept.find?_eq_some_iff, hperm.mem_iff, List.mem_filter, Option.filter_eq_some_iff,
    h.find?_eq_some_iff]
  exact and_right_comm

end NamedBy

/-- Applying a function to every value leaves the keys. -/
theorem keys_map (f : α → β) (d : Dict α) : (d.map f).keys = d.keys := by
  rw [keys, entries_map, List.map_map]
  rfl

/-- Applying a function to every value applies it to the listed values. -/
theorem values_map (f : α → β) (d : Dict α) : (d.map f).values = d.values.map f := by
  rw [values, entries_map, values, List.map_map, List.map_map]
  rfl

/-- Where every value is changed and keeps its name, the changed values are found. -/
theorem NamedBy.find?_map {name : α → String} {d : Dict α} (h : NamedBy name d) {f : α → α}
    (hf : ∀ v, name (f v) = name v) (key : String) : (d.map f).find? key = (d.find? key).map f :=
  h.find?_of_map (h.map fun v _ => hf v) hf (values_map f d) key

end Dict

end BrokerTopology
