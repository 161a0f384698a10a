import BrokerTopology.Proofs.Filter.SystemTopics
/-!
# Names as filters

A topic name holds no wildcard, so it is a filter that asks for every one of its levels as it stands.
This file says that such a filter reaches the topic of that name and no other, whichever way the two are
compared: level by level, below a first level that both spell out, or as plain texts.
-/

namespace BrokerTopology

/-! ## Names and their pieces -/

/-- A name is determined by its levels. -/
theorem levels_injective : Function.Injective levels := by
  intro cs ds h
  rw [← intercalate_levels cs, h, intercalate_levels]

/-- A name with a slash is its first level, the slash and what is below it. -/
theorem eq_append_of_splitRoot {cs root below : List Char} (h : splitRoot cs = (root, some below)) :
    cs = root ++ '/' :: below := by
  induction cs generalizing root with
  | nil => cases h
  | cons c cs ih =>
    rw [splitRoot] at h
    split at h
    · rename_i hslash
      obtain ⟨rfl, hbelow⟩ := Prod.mk.inj h
      rw [hslash, Option.some.inj hbelow, List.nil_append]
    · obtain ⟨rfl, hbelow⟩ := Prod.mk.inj h
      rw [List.cons_append, ← ih (Prod.ext rfl hbelow)]

namespace Filter

/-! ## Names without wildcards -/

variable {cs l f t : List Char} {fs ts : List (List Char)}

theorem isPlain_iff : isPlain cs = true ↔ '#' ∉ cs ∧ '+' ∉ cs := by
  simp [isPlain]

/-- The levels of a name without wildcards are without them too. -/
theorem isPlain_of_mem_levels (h : isPlain cs = true) (hl : l ∈ levels cs) : isPlain l = true := by
  rw [isPlain_iff] at h ⊢
  exact ⟨fun hhash => h.1 (mem_of_mem_level hl hhash), fun hplus => h.2 (mem_of_mem_level hl hplus)⟩

/-- A level without wildcards is neither of the two. -/
theorem ne_of_isPlain (h : isPlain l = true) : l ≠ ['#'] ∧ l ≠ ['+'] := by
  constructor
  · rintro rfl
    cases h
  · rintro rfl
    cases h

/-- Levels without wildcards are usable as a filter. -/
theorem validLevels_of_isPlain (h : ∀ l ∈ fs, isPlain l = true) : validLevels fs = true := by
  induction fs with
  | nil => rfl
  | cons f fs ih =>
    obtain ⟨hf, hfs⟩ := List.forall_mem_cons.mp h
    obtain ⟨hhash, hplus⟩ := ne_of_isPlain hf
    rw [validLevels, if_neg hhash, if_neg hplus, hf, ih hfs]
    rfl

/-- Levels without wildcards match themselves and nothing else. -/
theorem matchLevels_iff_eq (h : ∀ l ∈ fs, isPlain l = true) :
    matchLevels (fs.map Pattern.ofLevel) ts = true ↔ fs = ts := by
  induction fs generalizing ts with
  | nil => cases ts <;> simp [matchLevels]
  | cons f fs ih =>
    obtain ⟨hf, hfs⟩ := List.forall_mem_cons.mp h
    obtain ⟨hhash, hplus⟩ := ne_of_isPlain hf
    cases ts with
    | nil =>
      rw [matchLevels_cons_nil hhash]
      exact iff_of_false Bool.false_ne_true (List.cons_ne_nil f fs)
    | cons t ts => rw [matchLevels_cons hhash, or_iff_right hplus, ih hfs, List.cons.injEq]

/-- The levels of a name without wildcards match those of that name only. -/
theorem matchLevels_levels_iff_eq (h : isPlain f = true) :
    matchLevels ((levels f).map Pattern.ofLevel) (levels t) = true ↔ f = t := by
  rw [matchLevels_iff_eq fun l hl => isPlain_of_mem_levels h hl]
  exact levels_injective.eq_iff

/-! ## The ways to compare -/

/-- What a name without wildcards covers is that name. -/
theorem eq_of_coversChars (hf : isPlain f = true) (h : coversChars f t = true) : f = t := by
  rw [coversChars, Bool.and_eq_true] at h
  exact (matchLevels_levels_iff_eq hf).mp h.2

/-- Below a first level that both spell out, equality comes first and the wildcards add nothing to it. -/
theorem routesChars_system_iff_eq (hf : isPlain f = true) (ht : t.head? = some '$') :
    routesChars f t = true ↔ f = t := by
  rw [routesChars, if_pos ht]
  split
  · rename_i fr below tr below' hfr htr
    have hfilter := eq_append_of_splitRoot hfr
    have hplain : isPlain below = true := by
      rw [hfilter, isPlain_iff] at hf
      rw [isPlain_iff]
      exact ⟨fun hhash => hf.1 (List.mem_append_right _ (List.mem_cons_of_mem _ hhash)),
        fun hplus => hf.2 (List.mem_append_right _ (List.mem_cons_of_mem _ hplus))⟩
    rw [Bool.and_eq_true, Bool.or_eq_true, beq_iff_eq, beq_iff_eq,
      or_iff_left_of_imp (eq_of_coversChars hplain)]
    constructor
    · rintro ⟨rfl, rfl⟩
      rw [hfilter, ← eq_append_of_splitRoot htr]
    · rintro rfl
      obtain ⟨rfl, hbelow⟩ := Prod.mk.inj (hfr.symm.trans htr)
      exact ⟨rfl, Option.some.inj hbelow⟩
  · -- one of the two has no slash
    exact beq_iff_eq

/-! ## Topic names -/

variable {name topic : String}

theorem isPlain_of_isValid (h : TopicName.isValid name = true) : isPlain name.toList = true := by
  rw [TopicName.isValid, Bool.and_eq_true] at h
  exact h.2

theorem ne_empty_of_isValid (h : TopicName.isValid name = true) : name ≠ "" := by
  rintro rfl
  cases h

/-- A topic name is usable as a filter. -/
theorem isValid_of_topicName (h : TopicName.isValid name = true) : isValid name = true := by
  have hlevels : validLevels (levels name.toList) = true :=
    validLevels_of_isPlain fun l hl => isPlain_of_mem_levels (isPlain_of_isValid h) hl
  have hne : name.toList.isEmpty = false := by
    rw [List.isEmpty_eq_false_iff, ne_eq, String.toList_eq_nil_iff]
    exact ne_empty_of_isValid h
  rw [isValid, isValidChars, hlevels, hne]
  rfl

/-- Among the ordinary topics a topic name covers the one of that name. -/
theorem covers_iff_eq (h : TopicName.isValid name = true) (htopic : TopicName.isSystem topic = false) :
    covers name topic = true ↔ name = topic := by
  rw [covers_eq_true_iff, matchLevels_levels_iff_eq (isPlain_of_isValid h), String.toList_inj]
  constructor
  · rintro ⟨-, -, -, hsame⟩
    exact hsame
  · rintro rfl
    exact ⟨ne_empty_of_isValid h, ne_empty_of_isValid h, htopic, rfl⟩

/-- Every topic name, ordinary or of the system, is a usable filter, and such a filter reaches the topic
of that name and no other text. For ordinary topics the same holds of what it covers. -/
theorem exact_of_topicName (h : TopicName.isValid name = true) :
    isValid name = true ∧ ∀ topic,
      (routes name topic = true ↔ name = topic) ∧
      (TopicName.isSystem topic = false → (covers name topic = true ↔ name = topic)) := by
  refine ⟨isValid_of_topicName h, fun topic => ⟨?_, covers_iff_eq h⟩⟩
  cases hsystem : TopicName.isSystem topic with
  | true =>
    rw [TopicName.isSystem, beq_iff_eq] at hsystem
    rw [routes, routesChars_system_iff_eq (isPlain_of_isValid h) hsystem, String.toList_inj]
  | false => rw [routes_of_ordinary hsystem, covers_iff_eq h hsystem]

/-- The name `$SYS//$x/` has an empty level, one that begins with `$` and a slash at its end. As a filter
it reaches itself, and neither the name without the slash nor the one with its levels run together. -/
theorem exact_of_topicName_system :
    TopicName.isValid "$SYS//$x/" = true ∧ isValid "$SYS//$x/" = true ∧
      routes "$SYS//$x/" "$SYS//$x/" = true ∧ routes "$SYS//$x/" "$SYS//$x" ≠ true ∧
      routes "$SYS//$x/" "$SYS/$x/" ≠ true := by
  have hname : TopicName.isValid "$SYS//$x/" = true := by decide
  obtain ⟨hvalid, hexact⟩ := exact_of_topicName hname
  refine ⟨hname, hvalid, (hexact _).1.mpr rfl, ?_, ?_⟩
  · rw [ne_eq, (hexact _).1]
    decide
  · rw [ne_eq, (hexact _).1]
    decide

end Filter

end BrokerTopology
