import BrokerTopology.Proofs.Filter.Covering
/-!
# Wider filters

A filter is made wider by putting `+` in place of one of its levels, or by putting `#` in place of all
that follows some of them. What the filter covers is still covered by the wider one: the levels that are
left agree with the topic as they did before.

Main statement: `covers_widened`.
-/

namespace BrokerTopology

/-- The text with these levels. -/
def ofLevels (ls : List (List Char)) : String :=
  String.ofList (['/'].intercalate ls)

/-- Levels without slashes are read back from their text. -/
theorem levels_ofLevels {ls : List (List Char)} (hne : ls ≠ []) (hslash : ∀ l ∈ ls, '/' ∉ l) :
    levels (ofLevels ls).toList = ls := by
  rw [ofLevels, String.toList_ofList, levels_eq_splitOn]
  exact List.splitOn_intercalate '/' hslash hne

namespace Filter

variable {fs ts : List (List Char)}

/-- The levels of a filter before a `#` at its end; all of them if it does not end in `#`. -/
def stem (fs : List (List Char)) : List (List Char) :=
  if fs.getLast? = some ['#'] then fs.dropLast else fs

theorem stem_of_hash_not_mem (h : ['#'] ∉ fs) : stem fs = fs :=
  if_neg fun hlast => h (List.mem_of_getLast? hlast)

theorem stem_append_hash (ps : List (List Char)) : stem (ps ++ [['#']]) = ps := by
  rw [stem, List.getLast?_concat, if_pos rfl, List.dropLast_concat]

/-! ## Levels that still agree -/

/-- Levels agree if they do at every position that both have. -/
theorem agree_iff : Agree fs ts ↔
    ∀ (i : Nat) f t, fs[i]? = some f → ts[i]? = some t → f = ['+'] ∨ f = t := by
  constructor
  · intro h i f t hf ht
    exact h (f, t) (List.mem_of_getElem? (List.getElem?_zip_eq_some.mpr ⟨hf, ht⟩))
  · rintro h ⟨f, t⟩ hmem
    obtain ⟨i, hi⟩ := List.mem_iff_getElem?.mp hmem
    obtain ⟨hf, ht⟩ := List.getElem?_zip_eq_some.mp hi
    exact h i f t hf ht

/-- The first levels of what agrees agree. -/
theorem Agree.take (h : Agree fs ts) (k : Nat) : Agree (fs.take k) ts := by
  rw [agree_iff] at h ⊢
  intro i f t hf ht
  rw [List.getElem?_take] at hf
  split at hf
  · exact h i f t hf ht
  · cases hf

/-- A `+` agrees with any level. -/
theorem Agree.setPlus (h : Agree fs ts) (i : Nat) : Agree (fs.set i ['+']) ts := by
  rw [agree_iff] at h ⊢
  intro j f t hf ht
  rw [List.getElem?_set] at hf
  split at hf
  · -- the level that has been replaced
    split at hf
    · exact Or.inl (Option.some.inj hf).symm
    · cases hf
  · exact h j f t hf ht

/-! ## Wider levels -/

/-- A `+` in place of a level is no `#`. -/
theorem hash_not_mem_setPlus (h : ['#'] ∉ fs) (i : Nat) : ['#'] ∉ fs.set i ['+'] := by
  intro hmem
  rcases List.mem_or_eq_of_mem_set hmem with hmem | heq
  · exact h hmem
  · exact absurd heq (by decide)

/-- What stands before a `#` at the end of a filter agrees with the first levels of what it matches. -/
theorem agree_stem (h : matchLevels (fs.map Pattern.ofLevel) ts = true) :
    ['#'] ∉ stem fs ∧ (stem fs).length ≤ ts.length ∧ Agree (stem fs) ts := by
  rcases (matchLevels_iff fs ts).mp h with ⟨hhash, hlength, hagree⟩ | ⟨ps, rfl, hhash, hlength, hagree⟩
  · rw [stem_of_hash_not_mem hhash]
    exact ⟨hhash, Nat.le_of_eq hlength, hagree⟩
  · rw [stem_append_hash]
    exact ⟨hhash, hlength, hagree⟩

theorem length_stem_le (fs : List (List Char)) : (stem fs).length ≤ fs.length := by
  rw [stem]
  split
  · rw [List.length_dropLast]
    exact Nat.sub_le _ _
  · exact Nat.le_refl _

/-- The stem is the beginning of a filter. -/
theorem take_stem {k : Nat} (hk : k ≤ (stem fs).length) : (stem fs).take k = fs.take k := by
  rw [stem] at hk ⊢
  split
  · rename_i hlast
    rw [if_pos hlast] at hk
    rw [List.length_dropLast] at hk
    rw [List.dropLast_eq_take, List.take_take, Nat.min_eq_left hk]
  · rfl

/-- With `+` in place of a level before the end a filter still matches. -/
theorem matchLevels_setPlus (h : matchLevels (fs.map Pattern.ofLevel) ts = true) {i : Nat}
    (hi : i < (stem fs).length) :
    matchLevels ((fs.set i ['+']).map Pattern.ofLevel) ts = true := by
  rw [matchLevels_iff]
  rcases (matchLevels_iff fs ts).mp h with ⟨hhash, hlength, hagree⟩ | ⟨ps, rfl, hhash, hlength, hagree⟩
  · exact Or.inl ⟨hash_not_mem_setPlus hhash i, List.length_set.trans hlength, hagree.setPlus i⟩
  · rw [stem_append_hash] at hi
    refine Or.inr ⟨ps.set i ['+'], List.set_append_left i ['+'] hi, hash_not_mem_setPlus hhash i, ?_,
      hagree.setPlus i⟩
    rw [List.length_set]
    exact hlength

/-- With `#` after some of its first levels a filter still matches. -/
theorem matchLevels_takeHash (h : matchLevels (fs.map Pattern.ofLevel) ts = true) {k : Nat}
    (hk : k ≤ (stem fs).length) :
    matchLevels ((fs.take k ++ [['#']]).map Pattern.ofLevel) ts = true := by
  obtain ⟨hhash, hlength, hagree⟩ := agree_stem h
  rw [matchLevels_iff, ← take_stem hk]
  refine Or.inr ⟨_, rfl, fun hmem => hhash (List.mem_of_mem_take hmem), ?_, hagree.take k⟩
  exact Nat.le_trans (List.length_take_le' k (stem fs)) hlength

/-! ## Wider filters -/

variable {filter topic : String}

/-- A filter with other levels, not all of them empty, covers a topic if they match it. -/
theorem covers_ofLevels (h : covers filter topic = true) (hslash : ∀ f ∈ fs, '/' ∉ f) {f : List Char}
    (hmem : f ∈ fs) (hfilled : f ≠ [])
    (hmatch : matchLevels (fs.map Pattern.ofLevel) (levels topic.toList) = true) :
    covers (ofLevels fs) topic = true := by
  have hlevels := levels_ofLevels (List.ne_nil_of_mem hmem) hslash
  rw [covers_eq_true_iff] at h ⊢
  refine ⟨?_, h.2.1, h.2.2.1, hlevels.symm ▸ hmatch⟩
  -- the empty text has one level, which is empty
  intro hempty
  rw [hempty] at hlevels
  rw [← hlevels] at hmem
  exact hfilled (List.mem_singleton.mp hmem)

/-- A filter covers what it did with `+` in place of any one of its levels other than a `#` at the end,
and with `#` in place of all that follows the first levels, be it none of them or all but a `#` at the
end. -/
theorem covers_widened (h : covers filter topic = true) :
    (∀ i < (stem (filter.toList.splitOn '/')).length,
      covers (ofLevels ((filter.toList.splitOn '/').set i ['+'])) topic = true) ∧
    ∀ k ≤ (stem (filter.toList.splitOn '/')).length,
      covers (ofLevels ((filter.toList.splitOn '/').take k ++ [['#']])) topic = true := by
  rw [← levels_eq_splitOn]
  have hmatch := ((covers_eq_true_iff filter topic).mp h).2.2.2
  constructor
  · intro i hi
    have hlength : i < (levels filter.toList).length := Nat.lt_of_lt_of_le hi (length_stem_le _)
    refine covers_ofLevels h ?_ (List.mem_set hlength ['+']) (List.cons_ne_nil _ _)
      (matchLevels_setPlus hmatch hi)
    intro f hf
    rcases List.mem_or_eq_of_mem_set hf with hf | rfl
    · exact slash_not_mem_of_mem_levels hf
    · decide
  · intro k hk
    refine covers_ofLevels h ?_ (List.mem_append_right _ List.mem_cons_self) (List.cons_ne_nil _ _)
      (matchLevels_takeHash hmatch hk)
    intro f hf
    rcases List.mem_append.mp hf with hf | hf
    · exact slash_not_mem_of_mem_levels (List.mem_of_mem_take hf)
    · rw [List.mem_singleton.mp hf]
      decide

/-- The filter `a//#` covers `a/`, which has all of the levels before the `#` and none below them. So do
the filters with `+` in place of either level, and those with `#` after none or one of them. -/
theorem covers_widened_parent :
    covers "a//#" "a/" = true ∧ covers "+//#" "a/" = true ∧ covers "a/+/#" "a/" = true ∧
      covers "#" "a/" = true ∧ covers "a/#" "a/" = true := by
  have h : covers "a//#" "a/" = true := by decide
  have hlevels : "a//#".toList.splitOn '/' = [['a'], [], ['#']] := by
    rw [← levels_eq_splitOn]
    decide
  obtain ⟨hplus, hhash⟩ := covers_widened h
  rw [hlevels] at hplus hhash
  exact ⟨h, hplus 0 (by decide), hplus 1 (by decide), hhash 0 (by decide), hhash 1 (by decide)⟩

end Filter

end BrokerTopology
