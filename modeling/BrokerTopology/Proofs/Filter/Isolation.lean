import BrokerTopology.Proofs.Filter.ExactNames
/-!
# System topics kept apart

System topics and ordinary ones are routed by different rules: below a first level that both spell out,
what is left of a system topic is compared on its own, and equal texts are accepted without a look at
their levels. Neither rule lets a filter reach a topic of the other kind, and whatever a usable filter
reaches has the levels that it asks for.

Main statement: `system_apart`.
-/

namespace BrokerTopology

/-! ## First levels -/

/-- What is cut off at the first slash are the characters before it. -/
theorem splitRoot_fst (cs : List Char) : (splitRoot cs).1 = cs.takeWhile (· ≠ '/') := by
  induction cs with
  | nil => rfl
  | cons c cs ih =>
    rw [splitRoot, List.takeWhile_cons]
    split
    · rename_i hslash
      rw [hslash]
      rfl
    · rename_i hplain
      rw [if_pos (decide_eq_true hplain), ih]

/-- The characters before the first slash are the first level. -/
theorem exists_levels_eq_cons (cs : List Char) : ∃ ls, levels cs = cs.takeWhile (· ≠ '/') :: ls := by
  induction cs with
  | nil => exact ⟨[], rfl⟩
  | cons c cs ih =>
    obtain ⟨ls, hlevels⟩ := ih
    rw [levels, List.takeWhile_cons]
    split
    · rename_i hslash
      rw [hslash]
      exact ⟨levels cs, rfl⟩
    · rename_i hplain
      rw [hlevels, if_pos (decide_eq_true hplain)]
      exact ⟨ls, rfl⟩

/-- What is cut off at the first slash has no slash in it. -/
theorem slash_not_mem_splitRoot (cs : List Char) : '/' ∉ (splitRoot cs).1 := by
  obtain ⟨ls, hlevels⟩ := exists_levels_eq_cons cs
  rw [splitRoot_fst]
  exact slash_not_mem_of_mem_levels (hlevels ▸ List.mem_cons_self)

/-- A name begins with `$` if its first level does. -/
theorem head?_firstLevel (cs : List Char) :
    (cs.takeWhile (· ≠ '/')).head? = some '$' ↔ cs.head? = some '$' := by
  cases cs with
  | nil => exact Iff.rfl
  | cons c cs =>
    by_cases hslash : c = '/'
    · subst hslash
      constructor
      · intro h
        cases h
      · intro h
        cases h
    · rw [List.takeWhile_cons, if_pos (decide_eq_true hslash)]
      rfl

namespace Filter

variable {f t : List Char} {fs : List (List Char)} {filter topic : String}

/-! ## Levels that match -/

/-- The levels of a usable filter match themselves. -/
theorem matchLevels_of_validLevels (h : validLevels fs = true) :
    matchLevels (fs.map Pattern.ofLevel) fs = true := by
  induction fs with
  | nil => rfl
  | cons f fs ih =>
    rw [validLevels, Bool.and_eq_true] at h
    by_cases hf : f = ['#']
    · rw [hf, if_pos rfl] at h
      rw [hf, matchLevels_hash]
      exact h.1
    · exact (matchLevels_cons hf).mpr ⟨Or.inr rfl, ih h.2⟩

/-- A first level that begins with `$` is not a wildcard, and matches itself only. -/
theorem firstLevel_eq_of_matchLevels (hf : f.head? = some '$')
    (h : matchLevels ((levels f).map Pattern.ofLevel) (levels t) = true) :
    f.takeWhile (· ≠ '/') = t.takeWhile (· ≠ '/') := by
  obtain ⟨fs, hfs⟩ := exists_levels_eq_cons f
  obtain ⟨ts, hts⟩ := exists_levels_eq_cons t
  have hfirst := (head?_firstLevel f).mpr hf
  have hhash : f.takeWhile (· ≠ '/') ≠ ['#'] := by
    intro heq
    rw [heq] at hfirst
    cases hfirst
  have hplus : f.takeWhile (· ≠ '/') ≠ ['+'] := by
    intro heq
    rw [heq] at hfirst
    cases hfirst
  rw [hfs, hts, matchLevels_cons hhash] at h
  exact h.1.resolve_left hplus

/-! ## The two rules -/

/-- A system topic is reached by the filter of the same text, or below a first level that both spell
out. -/
theorem routesChars_system_cases (ht : t.head? = some '$') (h : routesChars f t = true) :
    f = t ∨ ∃ root below below', '/' ∉ root ∧ f = root ++ '/' :: below ∧ t = root ++ '/' :: below' ∧
      matchLevels ((levels below).map Pattern.ofLevel) (levels below') = true := by
  rw [routesChars, if_pos ht] at h
  split at h
  · rename_i root below root' below' hfr htr
    rw [Bool.and_eq_true, Bool.or_eq_true, beq_iff_eq, beq_iff_eq] at h
    obtain ⟨rfl, hbelow⟩ := h
    have hf := eq_append_of_splitRoot hfr
    have ht := eq_append_of_splitRoot htr
    rcases hbelow with rfl | hcovers
    · exact Or.inl (hf.trans ht.symm)
    · rw [coversChars, Bool.and_eq_true] at hcovers
      have hslash : '/' ∉ root := by
        have := slash_not_mem_splitRoot f
        rwa [hfr] at this
      exact Or.inr ⟨root, below, below', hslash, hf, ht, hcovers.2⟩
  · exact Or.inl (beq_iff_eq.mp h)

/-- A filter has the first level of a system topic that it reaches. -/
theorem firstLevel_eq_of_routesChars (ht : t.head? = some '$') (h : routesChars f t = true) :
    f.takeWhile (· ≠ '/') = t.takeWhile (· ≠ '/') := by
  rcases routesChars_system_cases ht h with rfl | ⟨root, below, below', hslash, rfl, rfl, -⟩
  · rfl
  · rw [← splitRoot_fst, ← splitRoot_fst, splitRoot_append_slash hslash, splitRoot_append_slash hslash]

/-- The levels of a system topic match those of a usable filter that reaches it. -/
theorem matchLevels_of_routesChars (hvalid : validLevels (levels f) = true) (ht : t.head? = some '$')
    (h : routesChars f t = true) :
    matchLevels ((levels f).map Pattern.ofLevel) (levels t) = true := by
  rcases routesChars_system_cases ht h with rfl | ⟨root, below, below', hslash, rfl, rfl, hmatch⟩
  · exact matchLevels_of_validLevels hvalid
  · have hhash : root ≠ ['#'] := by
      rintro rfl
      cases ht
    rw [levels_append_slash hslash, levels_append_slash hslash, matchLevels_cons hhash]
    exact ⟨Or.inr rfl, hmatch⟩

/-! ## Filters and topics -/

/-- The levels of a filter match those of a topic: one by one, or as far as a `#` at its end. -/
def Matches (filter topic : String) : Prop :=
  CoversExactly (filter.toList.splitOn '/') (topic.toList.splitOn '/') ∨
    CoversBelow (filter.toList.splitOn '/') (topic.toList.splitOn '/')

theorem matches_iff : Matches filter topic ↔
    matchLevels ((levels filter.toList).map Pattern.ofLevel) (levels topic.toList) = true := by
  rw [Matches, ← levels_eq_splitOn, ← levels_eq_splitOn, matchLevels_iff]

theorem isSystem_eq_false_iff : TopicName.isSystem topic = false ↔ topic.toList.head? ≠ some '$' := by
  rw [TopicName.isSystem, beq_eq_false_iff_ne]

/-- A filter that reaches a topic begins with `$` if the topic does, and not otherwise. -/
theorem head?_iff_of_routes (h : routes filter topic = true) :
    filter.toList.head? = some '$' ↔ topic.toList.head? = some '$' := by
  by_cases ht : topic.toList.head? = some '$'
  · rw [← head?_firstLevel, firstLevel_eq_of_routesChars ht h, head?_firstLevel]
  · refine iff_of_false (fun hf => ht ?_) ht
    rw [routes_of_ordinary (isSystem_eq_false_iff.mpr ht), covers_eq_true_iff] at h
    rw [← head?_firstLevel, ← firstLevel_eq_of_matchLevels hf h.2.2.2, head?_firstLevel]
    exact hf

/-- The levels of a usable filter match those of every topic that it reaches. -/
theorem matches_of_routes (hvalid : isValid filter = true) (h : routes filter topic = true) :
    Matches filter topic := by
  rw [matches_iff]
  by_cases ht : topic.toList.head? = some '$'
  · rw [isValid, isValidChars, Bool.and_eq_true] at hvalid
    exact matchLevels_of_routesChars hvalid.2 ht h
  · rw [routes_of_ordinary (isSystem_eq_false_iff.mpr ht), covers_eq_true_iff] at h
    exact h.2.2.2

/-- A filter that reaches a topic begins with `$` exactly if the topic does, and then the two have the same
first level; so no filter that begins with a wildcard reaches a system topic. If the filter is usable its
levels match those of the topic, and among the ordinary topics it reaches all of which that is true. -/
theorem system_apart (filter topic : String) :
    (routes filter topic = true →
      (filter.toList.head? = some '$' ↔ topic.toList.head? = some '$') ∧
      (topic.toList.head? = some '$' →
        filter.toList.takeWhile (· ≠ '/') = topic.toList.takeWhile (· ≠ '/')) ∧
      (filter.toList.head? = some '+' ∨ filter.toList.head? = some '#' →
        topic.toList.head? ≠ some '$') ∧
      (isValid filter = true → Matches filter topic)) ∧
    (isValid filter = true → topic ≠ "" → topic.toList.head? ≠ some '$' → Matches filter topic →
      routes filter topic = true) := by
  constructor
  · intro h
    have hhead := head?_iff_of_routes h
    refine ⟨hhead, fun ht => firstLevel_eq_of_routesChars ht h, ?_, fun hvalid =>
      matches_of_routes hvalid h⟩
    rintro (hplus | hhash) ht
    · rw [hhead.mpr ht] at hplus
      cases hplus
    · rw [hhead.mpr ht] at hhash
      cases hhash
  · intro hvalid hne ht hmatches
    have hfilter : filter ≠ "" := by
      rintro rfl
      cases hvalid
    rw [routes_of_ordinary (isSystem_eq_false_iff.mpr ht), covers_eq_true_iff]
    exact ⟨hfilter, hne, isSystem_eq_false_iff.mpr ht, matches_iff.mp hmatches⟩

/-- The filter `$SYS/+/#` reaches `$SYS//$x`, and its levels match although it is compared with `/$x` below
the first slash. The filter `+/#` begins with a wildcard and reaches `a`, which is no system topic. -/
theorem system_apart_below :
    (routes "$SYS/+/#" "$SYS//$x" = true ∧ isValid "$SYS/+/#" = true ∧
      "$SYS/+/#".toList.head? = some '$' ∧ Matches "$SYS/+/#" "$SYS//$x" ∧
      "$SYS/+/#".toList.takeWhile (· ≠ '/') = "$SYS//$x".toList.takeWhile (· ≠ '/')) ∧
    (isValid "+/#" = true ∧ Matches "+/#" "a" ∧ routes "+/#" "a" = true ∧
      "+/#".toList.head? = some '+' ∧ "a".toList.head? ≠ some '$') := by
  have hroutes : routes "$SYS/+/#" "$SYS//$x" = true := by decide
  have hvalid : isValid "$SYS/+/#" = true := by decide
  have htopic : "$SYS//$x".toList.head? = some '$' := by decide
  have hwild : isValid "+/#" = true := by decide
  have hmatch : Matches "+/#" "a" := matches_iff.mpr (by decide)
  have hplus : "+/#".toList.head? = some '+' := by decide
  obtain ⟨hhead, hfirst, -, hmatches⟩ := (system_apart "$SYS/+/#" "$SYS//$x").1 hroutes
  obtain ⟨hreached, hreaches⟩ := system_apart "+/#" "a"
  have hroute := hreaches hwild (by decide) (by decide) hmatch
  exact ⟨⟨hroutes, hvalid, hhead.mpr htopic, hmatches hvalid, hfirst htopic⟩,
    hwild, hmatch, hroute, hplus, (hreached hroute).2.2.1 (Or.inl hplus)⟩

end Filter

end BrokerTopology
