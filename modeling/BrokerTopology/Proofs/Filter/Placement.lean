import BrokerTopology.Proofs.Filter.ExactNames
/-!
# Where wildcards may stand

Whether a text is usable as a filter is decided on its levels, one after the other. On its characters it
is a matter of neighbours: a `+` has nothing but slashes or the ends of the text beside it, and a `#` is
the last character and has nothing but a slash or the beginning before it. Both descriptions fall apart
at the first slash in the same way.

Main statement: `isValid_iff_placed`.
-/

namespace BrokerTopology

/-- What holds of every level, and stays when a level and a slash are put in front, holds of every name. -/
theorem slash_induction {P : List Char → Prop} (level : ∀ l, '/' ∉ l → P l)
    (below : ∀ root cs, '/' ∉ root → P cs → P (root ++ '/' :: cs)) (cs : List Char) : P cs := by
  induction hn : cs.length using Nat.strongRecOn generalizing cs with
  | ind n ih =>
    by_cases hslash : '/' ∈ cs
    · obtain ⟨root, rest, rfl, hroot⟩ := List.eq_append_cons_of_mem hslash
      refine below root rest hroot (ih rest.length ?_ rest rfl)
      rw [← hn, List.length_append, List.length_cons]
      omega
    · exact level cs hslash

namespace Filter

/-! ## Neighbours -/

/-- Nothing of the same level is before this position. -/
def Opens (cs : List Char) (i : Nat) : Prop :=
  i = 0 ∨ cs[i - 1]? = some '/'

/-- Nothing of the same level is after this position. -/
def Closes (cs : List Char) (i : Nat) : Prop :=
  i + 1 = cs.length ∨ cs[i + 1]? = some '/'

/-- Wherever the character occurs, it is a level. -/
def Alone (c : Char) (cs : List Char) : Prop :=
  ∀ i, cs[i]? = some c → Opens cs i ∧ Closes cs i

/-- The character occurs at the end only. -/
def AtEnd (c : Char) (cs : List Char) : Prop :=
  ∀ i, cs[i]? = some c → i + 1 = cs.length

variable {c : Char} {l root cs : List Char}

/-- In a level without slashes only the first position opens it. -/
theorem opens_iff_of_no_slash (hslash : '/' ∉ l) {i : Nat} : Opens l i ↔ i = 0 :=
  or_iff_left fun hbefore => hslash (List.mem_of_getElem? hbefore)

/-- In a level without slashes only the last position closes it. -/
theorem closes_iff_of_no_slash (hslash : '/' ∉ l) {i : Nat} : Closes l i ↔ i + 1 = l.length :=
  or_iff_left fun hafter => hslash (List.mem_of_getElem? hafter)

/-! ## Both sides of a slash -/

theorem getElem?_below (root cs : List Char) (j : Nat) :
    (root ++ '/' :: cs)[root.length + 1 + j]? = cs[j]? := by
  rw [List.getElem?_append_right (by omega), show root.length + 1 + j - root.length = j + 1 by omega,
    List.getElem?_cons_succ]

theorem getElem?_slash (root cs : List Char) : (root ++ '/' :: cs)[root.length]? = some '/' := by
  rw [List.getElem?_append_right (Nat.le_refl _), Nat.sub_self, List.getElem?_cons_zero]

theorem length_below (root cs : List Char) :
    (root ++ '/' :: cs).length = root.length + 1 + cs.length := by
  rw [List.length_append, List.length_cons]
  omega

/-- The positions of a character other than the slash are before the slash or after it. -/
theorem forall_position_iff (hc : c ≠ '/') {P : Nat → Prop} :
    (∀ i, (root ++ '/' :: cs)[i]? = some c → P i) ↔
      (∀ i, i < root.length → root[i]? = some c → P i) ∧
        ∀ j, cs[j]? = some c → P (root.length + 1 + j) := by
  constructor
  · intro h
    refine ⟨fun i hi hchar => h i ?_, fun j hchar => h _ ?_⟩
    · rw [List.getElem?_append_left hi, hchar]
    · rw [getElem?_below, hchar]
  · rintro ⟨hleft, hright⟩ i hchar
    rcases Nat.lt_trichotomy i root.length with hi | rfl | hi
    · rw [List.getElem?_append_left hi] at hchar
      exact hleft i hi hchar
    · rw [getElem?_slash] at hchar
      exact absurd (Option.some.inj hchar).symm hc
    · obtain ⟨j, rfl⟩ := Nat.exists_eq_add_of_le (Nat.succ_le_of_lt hi)
      rw [getElem?_below] at hchar
      exact hright j hchar

theorem opens_left {i : Nat} (hi : i < root.length) : Opens (root ++ '/' :: cs) i ↔ Opens root i := by
  rw [Opens, Opens, List.getElem?_append_left (by omega)]

theorem closes_left {i : Nat} (hi : i < root.length) :
    Closes (root ++ '/' :: cs) i ↔ Closes root i := by
  rw [Closes, Closes, length_below]
  rcases Nat.lt_or_eq_of_le (Nat.succ_le_of_lt hi) with hnext | hlast
  · rw [List.getElem?_append_left hnext]
    exact or_congr_left (by omega)
  · -- the slash is the next character
    rw [← Nat.succ_eq_add_one, hlast, getElem?_slash]
    exact iff_of_true (Or.inr rfl) (Or.inl rfl)

theorem opens_right (j : Nat) : Opens (root ++ '/' :: cs) (root.length + 1 + j) ↔ Opens cs j := by
  cases j with
  | zero => exact iff_of_true (Or.inr (getElem?_slash root cs)) (Or.inl rfl)
  | succ j =>
    rw [Opens, Opens, show root.length + 1 + (j + 1) - 1 = root.length + 1 + j by omega, getElem?_below,
      Nat.add_sub_cancel]
    exact or_congr_left (by omega)

theorem closes_right (j : Nat) : Closes (root ++ '/' :: cs) (root.length + 1 + j) ↔ Closes cs j := by
  rw [Closes, Closes, length_below, Nat.add_assoc (root.length + 1) j 1, getElem?_below]
  exact or_congr_left (by omega)

/-! ## Characters that are levels -/

/-- In a level without slashes a character that stands alone is the level. -/
theorem alone_level (hslash : '/' ∉ l) : Alone c l ↔ (c ∈ l → l = [c]) := by
  constructor
  · intro halone hmem
    obtain ⟨i, hi⟩ := List.mem_iff_getElem?.mp hmem
    obtain ⟨hopens, hcloses⟩ := halone i hi
    rw [opens_iff_of_no_slash hslash] at hopens
    rw [closes_iff_of_no_slash hslash, hopens] at hcloses
    obtain ⟨d, rfl⟩ := List.length_eq_one_iff.mp hcloses.symm
    rw [List.mem_singleton.mp hmem]
  · intro hlevel i hi
    obtain rfl := hlevel (List.mem_of_getElem? hi)
    have hlast : i < 1 := (List.getElem?_eq_some_iff.mp hi).1
    rw [opens_iff_of_no_slash hslash, closes_iff_of_no_slash hslash, List.length_singleton]
    omega

/-- A character stands alone if it does on both sides of a slash. -/
theorem alone_append (hc : c ≠ '/') : Alone c (root ++ '/' :: cs) ↔ Alone c root ∧ Alone c cs := by
  rw [Alone, forall_position_iff hc, Alone, Alone]
  refine and_congr (forall_congr' fun i => ?_) (forall_congr' fun j => ?_)
  · constructor
    · intro h hchar
      have hi := (List.getElem?_eq_some_iff.mp hchar).1
      rw [← opens_left hi, ← closes_left hi]
      exact h hi hchar
    · intro h hi hchar
      rw [opens_left hi, closes_left hi]
      exact h hchar
  · rw [opens_right, closes_right]

/-- A character is at the end only if it is there below a slash and is not above it. -/
theorem atEnd_append (hc : c ≠ '/') : AtEnd c (root ++ '/' :: cs) ↔ c ∉ root ∧ AtEnd c cs := by
  rw [AtEnd, forall_position_iff hc, length_below, AtEnd]
  refine and_congr ?_ (forall_congr' fun j => imp_congr_right fun _ => by omega)
  constructor
  · intro h hmem
    obtain ⟨i, hi⟩ := List.mem_iff_getElem?.mp hmem
    have hlength := (List.getElem?_eq_some_iff.mp hi).1
    have := h i hlength hi
    omega
  · intro hnot i _ hi
    exact absurd (List.mem_of_getElem? hi) hnot

/-- A character stands alone in a name if every level with it in it is no more than it. -/
theorem alone_iff_levels (hc : c ≠ '/') (cs : List Char) :
    Alone c cs ↔ ∀ l ∈ levels cs, c ∈ l → l = [c] := by
  induction cs using slash_induction with
  | level l hslash => rw [levels_of_no_slash hslash, List.forall_mem_singleton, alone_level hslash]
  | below root cs hroot ih =>
    rw [levels_append_slash hroot, List.forall_mem_cons, alone_append hc, alone_level hroot, ih]

/-- A character that stands alone is at the end only if it is no level before the last. -/
theorem atEnd_iff_levels (hc : c ≠ '/') {cs : List Char} (halone : Alone c cs) :
    AtEnd c cs ↔ [c] ∉ (levels cs).dropLast := by
  induction cs using slash_induction with
  | level l hslash =>
    rw [levels_of_no_slash hslash]
    refine iff_of_true (fun i hi => ?_) List.not_mem_nil
    exact (closes_iff_of_no_slash hslash).mp (halone i hi).2
  | below root cs hroot ih =>
    rw [alone_append hc, alone_level hroot] at halone
    have hlevel : c ∈ root ↔ [c] = root :=
      ⟨fun hmem => (halone.1 hmem).symm, fun heq => heq ▸ List.mem_cons_self⟩
    rw [atEnd_append hc, ih halone.2, levels_append_slash hroot,
      List.dropLast_cons_of_ne_nil (levels_ne_nil cs), List.mem_cons, not_or, hlevel]

/-! ## Usable filters -/

/-- What the check asks of a level before other levels. -/
theorem validLevels_cons_iff (l : List Char) (ls : List (List Char)) :
    validLevels (l :: ls) = true ↔
      (('+' ∈ l → l = ['+']) ∧ ('#' ∈ l → l = ['#']) ∧ (l = ['#'] → ls = [])) ∧
        validLevels ls = true := by
  rw [validLevels, Bool.and_eq_true]
  refine and_congr_left fun _ => ?_
  split
  · rename_i hhash
    rw [hhash, List.isEmpty_iff]
    simp
  · rename_i hhash
    split
    · rename_i hplus
      rw [hplus]
      simp
    · rename_i hplus
      rw [isPlain_iff]
      simp [hhash, hplus, and_comm]

/-- Levels are usable as a filter if wildcards are whole levels and no `#` is before the last. -/
theorem validLevels_iff (ls : List (List Char)) :
    validLevels ls = true ↔ (∀ l ∈ ls, '+' ∈ l → l = ['+']) ∧ (∀ l ∈ ls, '#' ∈ l → l = ['#']) ∧
      ['#'] ∉ ls.dropLast := by
  induction ls with
  | nil => simp [validLevels]
  | cons l ls ih =>
    have hlast : ['#'] ∉ (l :: ls).dropLast ↔ (l = ['#'] → ls = []) ∧ ['#'] ∉ ls.dropLast := by
      cases ls with
      | nil => simp
      | cons m ms => simp [eq_comm]
    rw [validLevels_cons_iff, ih, hlast, List.forall_mem_cons, List.forall_mem_cons]
    constructor
    · rintro ⟨⟨hplus, hhash, hend⟩, hpluses, hhashes, hends⟩
      exact ⟨⟨hplus, hpluses⟩, ⟨hhash, hhashes⟩, hend, hends⟩
    · rintro ⟨⟨hplus, hpluses⟩, ⟨hhash, hhashes⟩, hend, hends⟩
      exact ⟨⟨hplus, hhash, hend⟩, hpluses, hhashes, hends⟩

/-- A text is usable as a filter exactly if it is not empty, every `+` in it is preceded by a slash or the
beginning and followed by a slash or the end, and every `#` in it is the last character and preceded by a
slash or the beginning. -/
theorem isValid_iff_placed (filter : String) :
    isValid filter = true ↔ filter ≠ "" ∧
      (∀ i, filter.toList[i]? = some '+' →
        (i = 0 ∨ filter.toList[i - 1]? = some '/') ∧
          (i + 1 = filter.toList.length ∨ filter.toList[i + 1]? = some '/')) ∧
      ∀ i, filter.toList[i]? = some '#' →
        i + 1 = filter.toList.length ∧ (i = 0 ∨ filter.toList[i - 1]? = some '/') := by
  have hplus : '+' ≠ '/' := by decide
  have hhash : '#' ≠ '/' := by decide
  have hlast : Alone '#' filter.toList ∧ AtEnd '#' filter.toList ↔
      ∀ i, filter.toList[i]? = some '#' → i + 1 = filter.toList.length ∧ Opens filter.toList i := by
    constructor
    · rintro ⟨halone, hend⟩ i hi
      exact ⟨hend i hi, (halone i hi).1⟩
    · intro h
      exact ⟨fun i hi => ⟨(h i hi).2, Or.inl (h i hi).1⟩, fun i hi => (h i hi).1⟩
  rw [isValid, isValidChars, Bool.and_eq_true, Bool.not_eq_true', List.isEmpty_eq_false_iff, ne_eq,
    String.toList_eq_nil_iff, validLevels_iff, ← alone_iff_levels hplus, ← alone_iff_levels hhash,
    and_congr_right fun halone => (atEnd_iff_levels hhash halone).symm, hlast]
  rfl

example : isValid "//+//#" = true := by decide +kernel

example : isValid "a/#/" = false ∧ isValid "++" = false := by decide +kernel

end Filter

end BrokerTopology
