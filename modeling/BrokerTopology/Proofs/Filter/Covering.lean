import BrokerTopology.Filter
/-!
# Which topics a filter covers

A filter and a topic are compared level by level, from the front, and a `#` ends the comparison. Said
without that order: a filter covers a topic if it has as many levels as the topic, and each of them is
`+` or equal; or if it ends in `#`, and this holds of the levels before the `#` and as many levels of
the topic. A `#` in another place covers nothing.
-/

namespace BrokerTopology

/-- The levels of a name are the pieces into which the slashes cut it. -/
theorem levels_eq_splitOn (cs : List Char) : levels cs = cs.splitOn '/' := by
  have hplain : ∀ l ∈ levels cs, '/' ∉ l := fun l => slash_not_mem_of_mem_levels
  have hjoined := List.splitOn_intercalate '/' hplain (levels_ne_nil cs)
  rw [intercalate_levels] at hjoined
  exact hjoined.symm

namespace Filter

/-! ## Levels that agree -/

/-- The levels of a filter agree with those of a topic, as far as both go: each is `+` or equal. -/
def Agree (fs ts : List (List Char)) : Prop :=
  ∀ p ∈ fs.zip ts, p.1 = ['+'] ∨ p.1 = p.2

variable {f t : List Char} {fs ts : List (List Char)}

@[simp] theorem agree_nil (ts : List (List Char)) : Agree [] ts := by
  simp [Agree]

@[simp] theorem agree_cons : Agree (f :: fs) (t :: ts) ↔ (f = ['+'] ∨ f = t) ∧ Agree fs ts := by
  simp [Agree]

/-! ## Comparing level by level -/

/-- A `#` covers what is left of a topic, but only as the last level. -/
theorem matchLevels_hash (fs ts : List (List Char)) :
    matchLevels ((['#'] :: fs).map Pattern.ofLevel) ts = fs.isEmpty := by
  rw [List.map_cons, show Pattern.ofLevel ['#'] = .anyBelow from rfl, matchLevels, List.isEmpty_map]

/-- Any other level has to agree with the first level of the topic. -/
theorem matchLevels_cons (hf : f ≠ ['#']) :
    matchLevels ((f :: fs).map Pattern.ofLevel) (t :: ts) = true ↔
      (f = ['+'] ∨ f = t) ∧ matchLevels (fs.map Pattern.ofLevel) ts = true := by
  rw [List.map_cons, Pattern.ofLevel, if_neg hf]
  split
  · rename_i hplus
    rw [matchLevels]
    exact (and_iff_right (Or.inl hplus)).symm
  · rename_i hplus
    rw [matchLevels, Bool.and_eq_true, beq_iff_eq, or_iff_right hplus]

/-- A level other than `#` needs a level of the topic. -/
theorem matchLevels_cons_nil (hf : f ≠ ['#']) (fs : List (List Char)) :
    matchLevels ((f :: fs).map Pattern.ofLevel) [] = false := by
  rw [List.map_cons, Pattern.ofLevel, if_neg hf]
  split
  · rfl
  · rfl

/-! ## The two ways to cover a topic -/

/-- A filter without `#` has the levels of the topic, one by one. -/
def CoversExactly (fs ts : List (List Char)) : Prop :=
  ['#'] ∉ fs ∧ fs.length = ts.length ∧ Agree fs ts

/-- A filter that ends in `#` has before it the first levels of the topic, possibly all of them. -/
def CoversBelow (fs ts : List (List Char)) : Prop :=
  ∃ ps, fs = ps ++ [['#']] ∧ ['#'] ∉ ps ∧ ps.length ≤ ts.length ∧ Agree ps ts

theorem coversExactly_cons (hf : f ≠ ['#']) :
    CoversExactly (f :: fs) (t :: ts) ↔ (f = ['+'] ∨ f = t) ∧ CoversExactly fs ts := by
  simp [CoversExactly, Ne.symm hf, and_left_comm]

/-- The `#` at the end is not the first level if that is another one. -/
theorem coversBelow_cons (hf : f ≠ ['#']) :
    CoversBelow (f :: fs) (t :: ts) ↔ (f = ['+'] ∨ f = t) ∧ CoversBelow fs ts := by
  constructor
  · rintro ⟨ps, hps, hhash, hlength, hagree⟩
    cases ps with
    | nil => exact absurd (List.cons.inj hps).1 hf
    | cons p ps =>
      obtain ⟨rfl, rfl⟩ := List.cons.inj hps
      rw [agree_cons] at hagree
      exact ⟨hagree.1, ps, rfl, fun h => hhash (List.mem_cons_of_mem _ h),
        Nat.le_of_succ_le_succ hlength, hagree.2⟩
  · rintro ⟨hlevel, ps, rfl, hhash, hlength, hagree⟩
    refine ⟨f :: ps, rfl, ?_, Nat.succ_le_succ hlength, agree_cons.mpr ⟨hlevel, hagree⟩⟩
    simp [hhash, Ne.symm hf]

/-- The comparison level by level finds exactly the two ways. The induction is on the levels of the
filter; each of them uses up one level of the topic, but for a `#`, which ends the comparison. -/
theorem matchLevels_iff (fs ts : List (List Char)) :
    matchLevels (fs.map Pattern.ofLevel) ts = true ↔ CoversExactly fs ts ∨ CoversBelow fs ts := by
  induction fs generalizing ts with
  | nil => cases ts <;> simp [matchLevels, CoversExactly, CoversBelow]
  | cons f fs ih =>
    by_cases hf : f = ['#']
    · subst hf
      rw [matchLevels_hash, List.isEmpty_iff]
      constructor
      · rintro rfl
        exact Or.inr ⟨[], rfl, List.not_mem_nil, Nat.zero_le _, agree_nil ts⟩
      · rintro (⟨hhash, -⟩ | ⟨ps, hps, hhash, -⟩)
        · exact absurd List.mem_cons_self hhash
        · cases ps with
          | nil => exact (List.cons.inj hps).2
          | cons p ps => exact absurd ((List.cons.inj hps).1 ▸ List.mem_cons_self) hhash
    · cases ts with
      | nil =>
        rw [matchLevels_cons_nil hf]
        refine iff_of_false Bool.false_ne_true ?_
        rintro (⟨-, hlength, -⟩ | ⟨ps, hps, -, hlength, -⟩)
        · cases hlength
        · rw [List.length_eq_zero_iff.mp (Nat.le_zero.mp hlength)] at hps
          exact hf (List.cons.inj hps).1
      | cons t ts =>
        rw [matchLevels_cons hf, ih, coversExactly_cons hf, coversBelow_cons hf, and_or_left]

/-- A `#` before the last level covers nothing. -/
theorem not_covers_of_hash {ps qs : List (List Char)} (hqs : qs ≠ []) (ts : List (List Char)) :
    matchLevels ((ps ++ ['#'] :: qs).map Pattern.ofLevel) ts = false := by
  rw [← Bool.not_eq_true, matchLevels_iff]
  rintro (⟨hhash, -⟩ | ⟨rs, hrs, hhash, -⟩)
  · exact hhash (List.mem_append_right ps List.mem_cons_self)
  · -- what stands before the last level holds the `#`
    have hfront := congrArg List.dropLast hrs
    rw [List.dropLast_concat, List.dropLast_append_of_ne_nil (List.cons_ne_nil _ _),
      List.dropLast_cons_of_ne_nil hqs] at hfront
    exact hhash (hfront ▸ List.mem_append_right ps List.mem_cons_self)

/-! ## Texts -/

/-- A filter covers a topic if neither is empty, the topic is not a system topic, and their levels
match. -/
theorem covers_eq_true_iff (filter topic : String) :
    covers filter topic = true ↔ filter ≠ "" ∧ topic ≠ "" ∧ TopicName.isSystem topic = false ∧
      matchLevels ((levels filter.toList).map Pattern.ofLevel) (levels topic.toList) = true := by
  simp [covers, coversChars, TopicName.isSystem, and_assoc, and_left_comm]

/-- A filter covers a topic exactly when neither is empty, the topic does not begin with `$`, and the
pieces between their slashes agree: all of them, where the filter has as many as the topic and none is
`#`; or those before the only `#`, which is the last, where the topic has at least as many. In
particular a filter with a `#` before the last piece covers nothing. -/
theorem covers_iff_agree (filter topic : String) :
    (covers filter topic = true ↔
      filter ≠ "" ∧ topic ≠ "" ∧ topic.toList.head? ≠ some '$' ∧
        ((['#'] ∉ filter.toList.splitOn '/' ∧
            (filter.toList.splitOn '/').length = (topic.toList.splitOn '/').length ∧
            Agree (filter.toList.splitOn '/') (topic.toList.splitOn '/')) ∨
          ∃ ps, filter.toList.splitOn '/' = ps ++ [['#']] ∧ ['#'] ∉ ps ∧
            ps.length ≤ (topic.toList.splitOn '/').length ∧
            Agree ps (topic.toList.splitOn '/'))) ∧
    ∀ ps qs, filter.toList.splitOn '/' = ps ++ ['#'] :: qs → qs ≠ [] →
      covers filter topic = false := by
  rw [← levels_eq_splitOn, ← levels_eq_splitOn]
  constructor
  · rw [covers_eq_true_iff, matchLevels_iff, TopicName.isSystem, beq_eq_false_iff_ne]
    rfl
  · intro ps qs hlevels hqs
    rw [← Bool.not_eq_true, covers_eq_true_iff, hlevels, not_covers_of_hash hqs]
    rintro ⟨-, -, -, h⟩
    cases h

example : covers "a/#" "a" = true := by decide +kernel

example : covers "a/+" "a/" = true ∧ covers "+" "a/b" = false := by decide +kernel

example : covers "a/#/c" "a/b/c" = false := by decide +kernel

end Filter

end BrokerTopology
