import Mathlib.Data.List.Induction
import BrokerTopology.Proofs.Settings.Sections
import BrokerTopology.Proofs.Settings.Trees
/-!
# Settings in variables

A variable sets a setting if its name, in lower case, is the mark of the program, the section and the name
of the setting, with two underscores between them. An environment whose marked variables all set settings
comes down to one scalar for each setting that is set. Put into a tree, that scalar is what the tree gives
to its setting from then on, and to the other settings the tree gives what it gave before.

Main statements: `value?_environment` and `sectioned_environment`.
-/

namespace BrokerTopology

namespace Settings

open Settings.Tree

/-! ## Names of variables -/

/-- The name, in lower case, of the variables that set a setting. -/
def Key.envName (k : Key) : String :=
  "netgraph__" ++ k.table ++ "__" ++ k.name

/-- Whether a variable sets a setting. The case of its letters does not matter. -/
def Key.isSetBy (k : Key) (variableName : String) : Bool :=
  variableName.toList.map Char.toLower == k.envName.toList

/-- Whether the name of a variable bears the mark of the program. -/
def isMarked (variableName : String) : Bool :=
  variableMark.isPrefixOf (variableName.toList.map Char.toLower)

/-- Every variable that bears the mark sets one of the settings. -/
def OnlySettings (env : Environment) : Prop :=
  ∀ e ∈ env, isMarked e.1 = true → ∃ k : Key, k.isSetBy e.1 = true

/-- The value that an environment gives to a setting. Of several variables the latest counts. -/
def envValue? (env : Environment) (k : Key) : Option Tree :=
  (env.reverse.find? fun e => k.isSetBy e.1).map fun e => variableValue e.2

/-- The key under which a setting is set. -/
def Key.dotted (k : Key) : String :=
  k.table ++ "." ++ k.name

/-- The key of a setting leads to it through its section. -/
theorem keyPath_dotted (k : Key) : keyPath k.dotted = [.member k.table, .member k.name] := by
  cases k <;> decide

variable {k k' : Key} {variableName : String} {env : Environment} {e : String × String}

/-- No two settings have one key, as their paths differ. -/
theorem Key.dotted_inj (h : k.dotted = k'.dotted) : k = k' := by
  have hpath := congrArg keyPath h
  rw [keyPath_dotted, keyPath_dotted] at hpath
  simp only [List.cons.injEq, Step.member.injEq] at hpath
  exact Key.name_inj hpath.2.1

theorem isMarked_of_isSetBy (h : k.isSetBy variableName = true) : isMarked variableName = true := by
  rw [isMarked, eq_of_beq h]
  cases k <;> decide

theorem variableKey?_of_isSetBy (h : k.isSetBy variableName = true) :
    variableKey? variableName = some k.dotted := by
  unfold variableKey?
  rw [eq_of_beq h]
  cases k <;> decide

/-- A variable sets one setting at most. -/
theorem Key.eq_of_isSetBy (h : k.isSetBy variableName = true) (h' : k'.isSetBy variableName = true) :
    k = k' :=
  Key.dotted_inj (Option.some.inj ((variableKey?_of_isSetBy h).symm.trans (variableKey?_of_isSetBy h')))

theorem variableKey?_of_not_isMarked (h : isMarked variableName = false) :
    variableKey? variableName = none :=
  if_neg (by rw [← isMarked, h]; exact Bool.false_ne_true)

/-! ## Scalars -/

/-- Whether a tree is a scalar. `null` is none. -/
def Tree.isScalar : Tree → Bool
  | .null => false
  | .array _ => false
  | .table _ => false
  | _ => true

/-- A scalar replaces what it is merged over. -/
theorem overlay_of_isScalar {t : Tree} (h : t.isScalar = true) (base : Tree) : overlay t base = t := by
  cases t with
  | table ms => cases h
  | _ => rw [overlay]; nofun

theorem given_of_isScalar {t : Tree} (h : t.isScalar = true) : given (some t) = some t := by
  cases t with
  | null => cases h
  | _ => rfl

/-- A variable gives a scalar. -/
theorem isScalar_variableValue (value : String) : (variableValue value).isScalar = true := by
  unfold variableValue
  split
  · rfl
  · rfl
  · split
    · rfl
    · split
      · rfl
      · rfl

/-! ## The members of an environment -/

theorem environmentMembers_append_of_isSetBy (h : k.isSetBy e.1 = true) :
    environmentMembers (env ++ [e]) =
      alterMember k.dotted (fun _ => variableValue e.2) (environmentMembers env) := by
  rw [environmentMembers, List.foldl_append, List.foldl_cons, List.foldl_nil, variableKey?_of_isSetBy h]
  rfl

theorem environmentMembers_append_of_not_isMarked (h : isMarked e.1 = false) :
    environmentMembers (env ++ [e]) = environmentMembers env := by
  rw [environmentMembers, List.foldl_append, List.foldl_cons, List.foldl_nil,
    variableKey?_of_not_isMarked h]
  rfl

theorem envValue?_append (env : Environment) (e : String × String) (k : Key) :
    envValue? (env ++ [e]) k =
      if k.isSetBy e.1 then some (variableValue e.2) else envValue? env k := by
  rw [envValue?, List.reverse_append, List.reverse_singleton, List.singleton_append, List.find?_cons]
  cases k.isSetBy e.1 with
  | true => rfl
  | false => rfl

/-- Every member sets one of the settings to a scalar. -/
def SetsScalars (ms : List (String × Tree)) : Prop :=
  ∀ m ∈ ms, ∃ k : Key, m.1 = k.dotted ∧ m.2.isScalar = true

/-- An environment comes down to one member for each setting that it sets, with the value that it gives
to the setting. -/
theorem environmentMembers_spec (h : OnlySettings env) :
    DistinctNames (environmentMembers env) ∧ SetsScalars (environmentMembers env) ∧
      ∀ k : Key, (environmentMembers env).lookup k.dotted = envValue? env k := by
  induction env using List.reverseRecOn with
  | nil => exact ⟨List.nodup_nil, fun m hm => absurd hm List.not_mem_nil, fun k => rfl⟩
  | append_singleton env e ih =>
    obtain ⟨hnames, hscalars, hlookup⟩ := ih fun e' he' => h e' (List.mem_append_left [e] he')
    cases hmarked : isMarked e.1 with
    | false =>
      rw [environmentMembers_append_of_not_isMarked hmarked]
      refine ⟨hnames, hscalars, fun k => ?_⟩
      have hset : k.isSetBy e.1 ≠ true := by
        intro hset
        rw [isMarked_of_isSetBy hset] at hmarked
        cases hmarked
      rw [envValue?_append, if_neg hset, hlookup]
    | true =>
      obtain ⟨k, hk⟩ := h e List.mem_concat_self hmarked
      rw [environmentMembers_append_of_isSetBy hk]
      refine ⟨distinctNames_alterMember hnames _ _, fun m hm => ?_, fun k' => ?_⟩
      · rcases mem_alterMember hm with hold | ⟨_, rfl⟩
        · exact hscalars m hold
        · exact ⟨k, rfl, isScalar_variableValue e.2⟩
      · rw [lookup_alterMember, envValue?_append, hlookup]
        by_cases heq : k' = k
        · rw [if_pos (congrArg Key.dotted heq), if_pos (heq ▸ hk)]
        · rw [if_neg fun hdotted => heq (Key.dotted_inj hdotted),
            if_neg fun hset => heq (Key.eq_of_isSetBy hset hk)]

/-! ## Setting settings -/

/-- A member of what a name stands for, be it there or not. -/
theorem member?_valueAt (ms : List (String × Tree)) (name other : String) :
    (valueAt ms name).member? other = (ms.lookup name).bind (·.member? other) := by
  rw [valueAt]
  cases ms.lookup name with
  | none => rfl
  | some t => rfl

/-- The section of a setting that is set is a table, and the other sections are what they were. -/
theorem member?_set_dotted (t v : Tree) (k : Key) (table : String) :
    (t.set (keyPath k.dotted) v).member? table =
      if table = k.table then
        some (.table (alterMember k.name (overlay v) (valueAt t.members k.table).members))
      else t.member? table := by
  rw [keyPath_dotted, member?_set]
  rfl

/-- A setting that is set to a scalar has that value, and any other setting what it had. -/
theorem value?_set_dotted (t : Tree) {v : Tree} (hv : v.isScalar = true) (k k' : Key) :
    (t.set (keyPath k.dotted) v).value? k' = if k' = k then some v else t.value? k' := by
  rw [value?, member?_set_dotted]
  by_cases htable : k'.table = k.table
  · rw [if_pos htable, Option.bind_some]
    have hmember : (Tree.table (alterMember k.name (overlay v) (valueAt t.members k.table).members)).member?
        k'.name = _ := lookup_alterMember k.name k'.name (overlay v) _
    rw [hmember]
    by_cases hname : k'.name = k.name
    · rw [if_pos hname, if_pos (Key.name_inj hname), overlay_of_isScalar hv, given_of_isScalar hv]
    · rw [if_neg hname, if_neg fun h => hname (congrArg Key.name h), value?, htable]
      exact congrArg given (member?_valueAt t.members k.table k'.name)
  · rw [if_neg htable, if_neg fun h => htable (congrArg Key.table h), value?]

theorem sectioned_set_dotted {t : Tree} (h : Sectioned t) (v : Tree) (k : Key) :
    Sectioned (t.set (keyPath k.dotted) v) := by
  intro k'
  rw [member?_set_dotted]
  split
  case isTrue =>
    intro found hfound
    obtain rfl := Option.some.inj hfound
    exact .inr ⟨_, rfl⟩
  case isFalse => exact h k'

/-- Settings that a source sets have the values of the source, and the others what they had. -/
theorem value?_setAll {ms : List (String × Tree)} (hnames : DistinctNames ms) (hscalars : SetsScalars ms)
    (t : Tree) (k : Key) : (setAll t ms).value? k = (ms.lookup k.dotted).or (t.value? k) := by
  induction ms generalizing t with
  | nil => rfl
  | cons m ms ih =>
    obtain ⟨key, v⟩ := m
    obtain ⟨hkey, hms⟩ := List.nodup_cons.mp hnames
    obtain ⟨k', rfl, hv⟩ := hscalars (key, v) List.mem_cons_self
    have hstep : setAll t ((k'.dotted, v) :: ms) = setAll (t.set (keyPath k'.dotted) v) ms := rfl
    rw [hstep, ih hms fun m hm => hscalars m (List.mem_cons_of_mem _ hm), value?_set_dotted t hv,
      lookup_cons_ite]
    by_cases heq : k = k'
    · subst heq
      rw [lookup_eq_none hkey, if_pos rfl, if_pos rfl, Option.none_or, Option.some_or]
    · rw [if_neg heq, if_neg fun h => heq (Key.dotted_inj h)]

theorem sectioned_setAll {ms : List (String × Tree)} (hscalars : SetsScalars ms) {t : Tree}
    (h : Sectioned t) : Sectioned (setAll t ms) := by
  induction ms generalizing t with
  | nil => exact h
  | cons m ms ih =>
    obtain ⟨key, v⟩ := m
    obtain ⟨k, rfl, -⟩ := hscalars (key, v) List.mem_cons_self
    exact ih (fun m hm => hscalars m (List.mem_cons_of_mem _ hm)) (sectioned_set_dotted h v k)

/-- The environment decides on the settings that it sets, and leaves the others alone. -/
theorem value?_environment (h : OnlySettings env) (t : Tree) (k : Key) :
    (setAll t (environmentMembers env)).value? k = (envValue? env k).or (t.value? k) := by
  obtain ⟨hnames, hscalars, hlookup⟩ := environmentMembers_spec h
  rw [value?_setAll hnames hscalars, hlookup]

theorem sectioned_environment (h : OnlySettings env) {t : Tree} (ht : Sectioned t) :
    Sectioned (setAll t (environmentMembers env)) :=
  sectioned_setAll (environmentMembers_spec h).2.1 ht

end Settings

end BrokerTopology
