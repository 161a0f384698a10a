import BrokerTopology.Settings.Environment
/-!
# Looking up in trees of settings

A table is a list of members, and what counts of it is which value a name has. Changing a member changes
the value of its name and of no other, and merging a table whose names are distinct gives every one of
them its value, merged over what was there. So a source that is set key by key in a tree shows under the
names with which its keys begin.
-/

namespace BrokerTopology.Settings

namespace Tree

/-! ## Members -/

/-- No two members have one name. -/
def DistinctNames {α : Type} (ms : List (String × α)) : Prop :=
  (ms.map Prod.fst).Nodup

/-- The tree is no table, or a table with distinct names. -/
def Distinct (t : Tree) : Prop :=
  DistinctNames t.members

/-- The value of a name; one that is missing has the value `null`. -/
def valueAt (ms : List (String × Tree)) (name : String) : Tree :=
  (ms.lookup name).getD .null

theorem lookup_cons_ite {α : Type} (k name : String) (a : α) (ms : List (String × α)) :
    ((k, a) :: ms).lookup name = if name = k then some a else ms.lookup name := by
  by_cases hname : name = k
  · rw [if_pos hname, hname, List.lookup_cons_self]
  · rw [if_neg hname, List.lookup_cons, beq_false_of_ne hname]

theorem lookup_eq_none {α : Type} {name : String} {ms : List (String × α)}
    (h : name ∉ ms.map Prod.fst) : ms.lookup name = none := by
  refine List.lookup_eq_none_iff.mpr fun m hm => ?_
  have hne : name ≠ m.1 := fun heq => h (List.mem_map.mpr ⟨m, hm, heq.symm⟩)
  simpa using hne

/-- A name that is changed has the changed value, and any other name the value it had. -/
theorem lookup_alterMember (name other : String) (f : Tree → Tree) (ms : List (String × Tree)) :
    (alterMember name f ms).lookup other =
      if other = name then some (f (valueAt ms name)) else ms.lookup other := by
  induction ms with
  | nil => exact lookup_cons_ite name other (f .null) []
  | cons m ms ih =>
    obtain ⟨k, t⟩ := m
    rw [alterMember]
    by_cases hk : k = name
    · subst hk
      rw [if_pos rfl, lookup_cons_ite, lookup_cons_ite, valueAt, List.lookup_cons_self, Option.getD_some]
      split
      case isTrue => rfl
      case isFalse => rfl
    · have hvalue : valueAt ((k, t) :: ms) name = valueAt ms name := by
        rw [valueAt, lookup_cons_ite, if_neg (Ne.symm hk), valueAt]
      rw [if_neg hk, lookup_cons_ite, lookup_cons_ite, ih, hvalue]
      by_cases hother : other = k
      · rw [if_pos hother, if_pos hother, if_neg (hother ▸ hk)]
      · rw [if_neg hother, if_neg hother]

theorem lookup_alterMember_self (name : String) (f : Tree → Tree) (ms : List (String × Tree)) :
    (alterMember name f ms).lookup name = some (f (valueAt ms name)) := by
  rw [lookup_alterMember, if_pos rfl]

theorem lookup_alterMember_of_ne {name other : String} (h : other ≠ name) (f : Tree → Tree)
    (ms : List (String × Tree)) : (alterMember name f ms).lookup other = ms.lookup other := by
  rw [lookup_alterMember, if_neg h]

/-- The names are those there were, and the one that is changed. -/
theorem mem_names_alterMember {name other : String} {f : Tree → Tree} {ms : List (String × Tree)} :
    other ∈ (alterMember name f ms).map Prod.fst ↔ other = name ∨ other ∈ ms.map Prod.fst := by
  induction ms with
  | nil => simp [alterMember]
  | cons m ms ih =>
    rw [alterMember]
    split
    case isTrue hm => simp [hm]
    case isFalse =>
      rw [List.map_cons, List.mem_cons, ih, List.map_cons, List.mem_cons]
      exact or_left_comm

theorem distinctNames_alterMember {ms : List (String × Tree)} (h : DistinctNames ms) (name : String)
    (f : Tree → Tree) : DistinctNames (alterMember name f ms) := by
  induction ms with
  | nil => exact List.nodup_cons.mpr ⟨List.not_mem_nil, List.nodup_nil⟩
  | cons m ms ih =>
    obtain ⟨hm, hms⟩ := List.nodup_cons.mp h
    rw [alterMember]
    split
    case isTrue heq => exact List.nodup_cons.mpr ⟨heq ▸ hm, hms⟩
    case isFalse hne =>
      refine List.nodup_cons.mpr ⟨fun hmem => ?_, ih hms⟩
      rcases mem_names_alterMember.mp hmem with heq | hold
      · exact hne heq
      · exact hm hold

/-- A member that is there after a change was there, or is the one that was changed. -/
theorem mem_alterMember {name : String} {f : Tree → Tree} {ms : List (String × Tree)}
    {m : String × Tree} (h : m ∈ alterMember name f ms) : m ∈ ms ∨ ∃ t, m = (name, f t) := by
  induction ms with
  | nil => exact .inr ⟨.null, List.mem_singleton.mp h⟩
  | cons m' ms ih =>
    rw [alterMember] at h
    split at h
    case isTrue =>
      rcases List.mem_cons.mp h with rfl | hmem
      · exact .inr ⟨m'.2, rfl⟩
      · exact .inl (List.mem_cons_of_mem m' hmem)
    case isFalse =>
      rcases List.mem_cons.mp h with rfl | hmem
      · exact .inl List.mem_cons_self
      · exact (ih hmem).imp_left (List.mem_cons_of_mem m')

/-! ## Merging -/

/-- A name that a table gives has its value there merged over what it had, and any other name keeps
what it had. -/
theorem lookup_overlayMembers {ms : List (String × Tree)} (h : DistinctNames ms)
    (base : List (String × Tree)) (name : String) :
    (overlayMembers ms base).lookup name =
      match ms.lookup name with
      | some t => some (overlay t (valueAt base name))
      | none => base.lookup name := by
  induction ms generalizing base with
  | nil => rw [overlayMembers, List.lookup_nil]
  | cons m ms ih =>
    obtain ⟨k, t⟩ := m
    obtain ⟨hk, hms⟩ := List.nodup_cons.mp h
    rw [overlayMembers, ih hms, lookup_cons_ite]
    by_cases hname : name = k
    · subst hname
      rw [lookup_eq_none hk, if_pos rfl]
      exact lookup_alterMember_self name (overlay t) base
    · rw [if_neg hname, valueAt, valueAt, lookup_alterMember_of_ne hname]

/-! ## Setting -/

/-- Setting at a path reaches the member with which the path begins, and no other. -/
theorem member?_set (t : Tree) (name other : String) (steps : List Step) (v : Tree) :
    (t.set (.member name :: steps) v).member? other =
      if other = name then some (alter steps (overlay v) (valueAt t.members name))
      else t.member? other :=
  lookup_alterMember name other (alter steps (overlay v)) t.members

end Tree

open Settings.Tree

/-- The path of a key begins with a member. -/
theorem keyPath_eq_cons (k : String) : ∃ name steps, keyPath k = .member name :: steps := by
  unfold keyPath
  dsimp only
  split
  case isTrue => exact ⟨k, [], rfl⟩
  case isFalse =>
    split
    · exact ⟨_, _, rfl⟩
    · exact ⟨k, [], rfl⟩

/-- A source shows under a name as its value there, merged over what was there, if no other key of the
source is a path that begins with the name. -/
theorem member?_setAll {ms : List (String × Tree)} (h : DistinctNames ms) {name : String}
    (hname : keyPath name = [.member name])
    (hother : ∀ m ∈ ms, (keyPath m.1).head? = some (.member name) → m.1 = name) (t : Tree) :
    (setAll t ms).member? name =
      match ms.lookup name with
      | some v => some (overlay v (valueAt t.members name))
      | none => t.member? name := by
  induction ms generalizing t with
  | nil => rfl
  | cons m ms ih =>
    obtain ⟨k, v⟩ := m
    obtain ⟨hk, hms⟩ := List.nodup_cons.mp h
    have hrest := fun m hm => hother m (List.mem_cons_of_mem (k, v) hm)
    have hstep : setAll t ((k, v) :: ms) = setAll (t.set (keyPath k) v) ms := rfl
    rw [hstep, ih hms hrest, lookup_cons_ite]
    by_cases heq : name = k
    · subst heq
      rw [lookup_eq_none hk, if_pos rfl, hname, member?_set, if_pos rfl]
      rfl
    · obtain ⟨first, steps, hpath⟩ := keyPath_eq_cons k
      have hfirst : name ≠ first := by
        rintro rfl
        exact heq (hother (k, v) List.mem_cons_self (by rw [hpath, List.head?_cons])).symm
      have hkept : (t.set (keyPath k) v).member? name = t.member? name := by
        rw [hpath, member?_set, if_neg hfirst]
      have hvalue : valueAt (t.set (keyPath k) v).members name = valueAt t.members name :=
        congrArg (fun found : Option Tree => found.getD .null) hkept
      rw [if_neg heq, hkept, hvalue]

end BrokerTopology.Settings
