import BrokerTopology.Proofs.Filter.Covering
/-!
# Wildcards below the first level of a system topic

A filter reaches a system topic only if it spells out its first level, and what stands below that level
is then compared as if it were a topic of its own. Put beside an ordinary topic with the same levels,
this loses three things: nothing is below `$SYS/` for a wildcard to cover, no wildcard covers `$x` below
`$SYS`, and `$SYS/#` does not cover `$SYS`. Everywhere else the two agree.
-/

namespace BrokerTopology

/-! ## A first level and what is below it -/

section FirstLevel

variable {root : List Char}

/-- Up to its first slash, a name is its first level. -/
theorem levels_append_slash (hroot : '/' ∉ root) (cs : List Char) :
    levels (root ++ '/' :: cs) = root :: levels cs := by
  rw [levels_eq_splitOn, levels_eq_splitOn, List.splitOn_append_cons_self_of_not_mem hroot]

/-- A name without a slash is its only level. -/
theorem levels_of_no_slash (hroot : '/' ∉ root) : levels root = [root] := by
  rw [levels_eq_splitOn, List.splitOn_eq_singleton hroot]

/-- The first slash cuts off the first level. -/
theorem splitRoot_append_slash (hroot : '/' ∉ root) (cs : List Char) :
    splitRoot (root ++ '/' :: cs) = (root, some cs) := by
  induction root with
  | nil => rfl
  | cons c root ih =>
    rw [List.mem_cons, not_or] at hroot
    rw [List.cons_append, splitRoot, if_neg (Ne.symm hroot.1), ih hroot.2]

/-- Without a slash nothing is cut off. -/
theorem splitRoot_of_no_slash (hroot : '/' ∉ root) : splitRoot root = (root, none) := by
  induction root with
  | nil => rfl
  | cons c root ih =>
    rw [List.mem_cons, not_or] at hroot
    rw [splitRoot, if_neg (Ne.symm hroot.1), ih hroot.2]

end FirstLevel

/-- The characters of a level are characters of the name. -/
theorem mem_of_mem_level {c : Char} {l cs : List Char} (hl : l ∈ levels cs) (hc : c ∈ l) : c ∈ cs := by
  induction cs generalizing l with
  | nil =>
    rw [levels, List.mem_singleton] at hl
    exact hl ▸ hc
  | cons d cs ih =>
    rw [levels] at hl
    split at hl
    · rcases List.mem_cons.mp hl with rfl | hl
      · exact absurd hc List.not_mem_nil
      · exact List.mem_cons_of_mem d (ih hl hc)
    · split at hl
      · rename_i empty
        exact absurd empty (levels_ne_nil cs)
      · rename_i m ms rest
        rcases List.mem_cons.mp hl with rfl | hl
        · rcases List.mem_cons.mp hc with rfl | hc
          · exact List.mem_cons_self
          · exact List.mem_cons_of_mem d (ih (rest ▸ List.mem_cons_self) hc)
        · exact List.mem_cons_of_mem d (ih (rest ▸ List.mem_cons_of_mem m hl) hc)

namespace Filter

/-! ## Names against themselves and against the empty name -/

theorem agree_self (ts : List (List Char)) : Agree ts ts := by
  induction ts with
  | nil => exact agree_nil []
  | cons t ts ih => exact agree_cons.mpr ⟨Or.inr rfl, ih⟩

/-- The levels of a name without `#` match themselves. -/
theorem matchLevels_self {cs : List Char} (hhash : '#' ∉ cs) :
    matchLevels ((levels cs).map Pattern.ofLevel) (levels cs) = true := by
  rw [matchLevels_iff]
  refine Or.inl ⟨fun hlevel => hhash ?_, rfl, agree_self _⟩
  exact mem_of_mem_level hlevel List.mem_cons_self

/-- The one empty level of the empty filter matches only that of the empty name. -/
theorem eq_nil_of_matchLevels_nil {cs : List Char}
    (h : matchLevels ((levels []).map Pattern.ofLevel) (levels cs) = true) : cs = [] := by
  cases hlevels : levels cs with
  | nil => exact absurd hlevels (levels_ne_nil cs)
  | cons t ts =>
    rw [hlevels, levels, matchLevels_cons (by decide)] at h
    obtain ⟨hlevel, hrest⟩ := h
    have ht : t = [] := (hlevel.resolve_left (by decide)).symm
    have hts : ts = [] := by
      cases ts with
      | nil => rfl
      | cons => cases hrest
    rw [← intercalate_levels cs, hlevels, ht, hts]
    rfl

/-! ## First levels -/

/-- A level that is not a wildcard has no `#` in it. -/
theorem hash_not_mem_of_isPlain {cs : List Char} (h : isPlain cs = true) : '#' ∉ cs := by
  simp only [isPlain, Bool.and_eq_true, Bool.not_eq_true', List.contains_eq_mem,
    decide_eq_false_iff_not] at h
  exact h.1

/-- A level that an ordinary topic may begin with: it is not empty, has no wildcard in it and does not
begin with `$`. -/
structure IsRoot (root : String) : Prop where
  ne_empty : root ≠ ""
  no_slash : '/' ∉ root.toList
  plain : isPlain root.toList = true
  ordinary : TopicName.isSystem root = false

namespace IsRoot

variable {root : String}

theorem toList_ne_nil (h : IsRoot root) : root.toList ≠ [] :=
  fun hempty => h.ne_empty (String.toList_eq_nil_iff.mp hempty)

theorem ne_hash (h : IsRoot root) : root.toList ≠ ['#'] :=
  fun hroot => hash_not_mem_of_isPlain h.plain (hroot ▸ List.mem_cons_self)

/-- What begins with such a level is not empty. -/
theorem append_ne_empty (h : IsRoot root) (below : String) : root ++ below ≠ "" := by
  intro hempty
  have hchars := congrArg String.toList hempty
  rw [String.toList_append] at hchars
  exact h.toList_ne_nil (List.append_eq_nil_iff.mp hchars).1

/-- What begins with such a level is an ordinary topic. -/
theorem isSystem_append (h : IsRoot root) (below : String) :
    TopicName.isSystem (root ++ below) = false := by
  have hordinary := h.ordinary
  rw [TopicName.isSystem, beq_eq_false_iff_ne] at hordinary ⊢
  rw [String.toList_append]
  cases hroot : root.toList with
  | nil => exact absurd hroot h.toList_ne_nil
  | cons c cs =>
    rw [hroot] at hordinary
    exact hordinary

/-- With a `$` before it, such a level is still one level. -/
theorem slash_not_mem_system (h : IsRoot root) : '/' ∉ ("$" ++ root).toList := by
  simpa using h.no_slash

end IsRoot

/-! ## Below the first level -/

/-- An ordinary topic is compared as a whole. -/
theorem routes_of_ordinary {topic : String} (h : TopicName.isSystem topic = false) (filter : String) :
    routes filter topic = covers filter topic := by
  rw [TopicName.isSystem, beq_eq_false_iff_ne] at h
  rw [routes, routesChars, if_neg h, covers]

theorem toList_below (root below : String) :
    (root ++ "/" ++ below).toList = root.toList ++ '/' :: below.toList := by
  simp

variable {root : String}

/-- An ordinary topic is covered by a filter with the same first level if what is below it matches. -/
theorem routes_ordinary_iff (h : IsRoot root) (f t : String) :
    routes (root ++ "/" ++ f) (root ++ "/" ++ t) = true ↔
      matchLevels ((levels f.toList).map Pattern.ofLevel) (levels t.toList) = true := by
  have hsystem : TopicName.isSystem (root ++ "/" ++ t) = false := by
    rw [String.append_assoc]
    exact h.isSystem_append ("/" ++ t)
  have hne : ∀ below, root ++ "/" ++ below ≠ "" := by
    intro below
    rw [String.append_assoc]
    exact h.append_ne_empty ("/" ++ below)
  rw [routes_of_ordinary hsystem, covers_eq_true_iff, toList_below, toList_below,
    levels_append_slash h.no_slash, levels_append_slash h.no_slash, matchLevels_cons h.ne_hash]
  simp only [ne_eq, hne, not_false_eq_true, hsystem, or_true, true_and]

/-- A system topic is covered by a filter with the same first level if what is below it is the same, or
covered as a topic of its own. -/
theorem routes_system_iff (h : IsRoot root) (f t : String) :
    routes ("$" ++ root ++ "/" ++ f) ("$" ++ root ++ "/" ++ t) = true ↔ f = t ∨ covers f t = true := by
  have hhead : (("$" ++ root).toList ++ '/' :: t.toList).head? = some '$' := by
    simp
  rw [routes, routesChars, toList_below, toList_below, if_pos hhead,
    splitRoot_append_slash h.slash_not_mem_system, splitRoot_append_slash h.slash_not_mem_system]
  simp only [beq_self_eq_true, Bool.true_and, Bool.or_eq_true, beq_iff_eq, String.toList_inj, covers]

/-- A name below a first level is free of `#` if the whole name is. -/
theorem hash_not_mem_below {t : String} (ht : TopicName.isValid (root ++ "/" ++ t) = true) :
    '#' ∉ t.toList := by
  rw [TopicName.isValid, toList_below, Bool.and_eq_true] at ht
  intro hhash
  refine hash_not_mem_of_isPlain ht.2 ?_
  exact List.mem_append_right _ (List.mem_cons_of_mem _ hhash)

/-- An ordinary topic is reached by the filter that is its own name. -/
theorem routes_ordinary_self (h : IsRoot root) {t : String}
    (ht : TopicName.isValid (root ++ "/" ++ t) = true) :
    routes (root ++ "/" ++ t) (root ++ "/" ++ t) = true :=
  (routes_ordinary_iff h t t).mpr (matchLevels_self (hash_not_mem_below ht))

/-- Where the filter and the topic differ below the first level, a system topic is reached as the
ordinary one is, but for what is empty or begins with `$` there. -/
theorem routes_system_iff_of_ne (h : IsRoot root) {f t : String} (hne : f ≠ t) :
    routes ("$" ++ root ++ "/" ++ f) ("$" ++ root ++ "/" ++ t) = true ↔
      routes (root ++ "/" ++ f) (root ++ "/" ++ t) = true ∧
        t ≠ "" ∧ TopicName.isSystem t = false := by
  rw [routes_system_iff h, or_iff_right hne, routes_ordinary_iff h, covers_eq_true_iff]
  constructor
  · rintro ⟨-, ht, hsystem, hmatch⟩
    exact ⟨hmatch, ht, hsystem⟩
  · rintro ⟨hmatch, ht, hsystem⟩
    refine ⟨?_, ht, hsystem, hmatch⟩
    -- the empty filter matches nothing but the empty name, to which it is equal
    rintro rfl
    exact ht (String.toList_eq_nil_iff.mp (eq_nil_of_matchLevels_nil hmatch))

/-! ## The first level itself -/

/-- A `#` reaches the ordinary topic that is the level above it. -/
theorem routes_parent (h : IsRoot root) : routes (root ++ "/#") root = true := by
  have hlevels : levels (root ++ "/#").toList = [root.toList, ['#']] := by
    rw [String.toList_append]
    exact levels_append_slash h.no_slash ['#']
  rw [routes_of_ordinary h.ordinary, covers_eq_true_iff, hlevels, levels_of_no_slash h.no_slash,
    matchLevels_cons h.ne_hash, matchLevels_hash]
  exact ⟨h.append_ne_empty "/#", h.ne_empty, h.ordinary, Or.inr rfl, rfl⟩

/-- A `#` does not reach the system topic that is the level above it: there is nothing below the first
level to compare. -/
theorem not_routes_parent_system (h : IsRoot root) : routes ("$" ++ root ++ "/#") ("$" ++ root) = false := by
  have hhead : ("$" ++ root).toList.head? = some '$' := by
    simp
  rw [routes, routesChars, if_pos hhead, splitRoot_of_no_slash h.slash_not_mem_system]
  simp

/-! ## The two kinds of topics side by side -/

/-- Below a first level that the filter spells out, a system topic is reached as the ordinary topic
with the same levels is, if what is below is equal to the filter's or is, as a topic of its own, neither
empty nor a system topic; otherwise it is not reached. A `#` below the first level of a system topic
does not reach the topic that has only that level, as it does for an ordinary topic. -/
theorem routes_below_root (hroot : IsRoot root) :
    (∀ f t, TopicName.isValid (root ++ "/" ++ t) = true →
      routes ("$" ++ root ++ "/" ++ f) ("$" ++ root ++ "/" ++ t) =
        (routes (root ++ "/" ++ f) (root ++ "/" ++ t) &&
          (f == t || (t != "" && !TopicName.isSystem t)))) ∧
    routes ("$" ++ root ++ "/#") ("$" ++ root) = false ∧ routes (root ++ "/#") root = true := by
  refine ⟨?_, not_routes_parent_system hroot, routes_parent hroot⟩
  intro f t ht
  by_cases hne : f = t
  · subst hne
    rw [(routes_system_iff hroot f f).mpr (Or.inl rfl), routes_ordinary_self hroot ht, beq_self_eq_true]
    rfl
  · rw [Bool.eq_iff_iff, routes_system_iff_of_ne hroot hne, beq_false_of_ne hne]
    simp

theorem isRoot_sys : IsRoot "SYS" :=
  ⟨by decide, by decide, by decide, by decide⟩

/-- Below `$SYS`, the filter `$SYS/+` reaches `$SYS/graph` as `SYS/+` reaches `SYS/graph`. -/
theorem routes_below_root_graph :
    IsRoot "SYS" ∧ TopicName.isValid "SYS/graph" = true ∧
      routes "$SYS/+" "$SYS/graph" = routes "SYS/+" "SYS/graph" ∧
      routes "$SYS/#" "$SYS" = false ∧ routes "SYS/#" "SYS" = true := by
  have hvalid : TopicName.isValid ("SYS" ++ "/" ++ "graph") = true := by decide
  obtain ⟨hbelow, hparent⟩ := routes_below_root isRoot_sys
  refine ⟨isRoot_sys, hvalid, ?_, hparent⟩
  have h := hbelow "+" "graph" hvalid
  rw [show (("+" : String) == "graph" || (("graph" : String) != "" && !TopicName.isSystem "graph")) = true
    by decide, Bool.and_true] at h
  exact h

/-- The wildcard rules are not the same for the two kinds of topics, neither below the first level nor
at it: `$SYS/+` does not reach `$SYS/` and `$SYS/#` does not reach `$SYS`, which both are reached without
the `$`. -/
theorem routes_below_root_differs :
    ¬ ((∀ root, IsRoot root → ∀ f t, isValid (root ++ "/" ++ f) = true →
          TopicName.isValid (root ++ "/" ++ t) = true →
          routes ("$" ++ root ++ "/" ++ f) ("$" ++ root ++ "/" ++ t) =
            routes (root ++ "/" ++ f) (root ++ "/" ++ t)) ∨
        ∀ root, IsRoot root → routes ("$" ++ root ++ "/#") ("$" ++ root) = routes (root ++ "/#") root) := by
  rintro (hbelow | hparent)
  · exact absurd (hbelow "SYS" isRoot_sys "+" "" (by decide) (by decide)) (by decide)
  · exact absurd (hparent "SYS" isRoot_sys) (by decide)

example : routes "$SYS/+" "$SYS/$x" = false ∧ routes "SYS/+" "SYS/$x" = true := by decide +kernel

end Filter

end BrokerTopology
