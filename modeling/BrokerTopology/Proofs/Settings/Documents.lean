import BrokerTopology.Proofs.Settings.Trees
import BrokerTopology.Settings.Load
/-!
# Names in documents

A table of a document has no two members with one name. In a JSON document the last of several members
with one name replaces the others; in a TOML document a key that has a value takes no other, and this
has to be kept while the tables are built up, wherever a path leads.

Main statement: `Settings.distinct_fileMembers`.
-/

namespace BrokerTopology

open Settings
open Settings.Tree (DistinctNames mem_alterMember distinctNames_alterMember)

namespace Toml

/-! ## Nodes -/

/-- No table of a node has two members with one name, nor has the table at its leaf. -/
inductive Node.Distinct : Node → Prop where
  | leaf {t : Tree} (h : t.Distinct) : Node.Distinct (.leaf t)
  | table {origin : Origin} {ms : List (String × Node)} (names : DistinctNames ms)
      (nodes : ∀ m ∈ ms, Node.Distinct m.2) : Node.Distinct (.table origin ms)
  | tables {ns : List Node} (nodes : ∀ n ∈ ns, Node.Distinct n) : Node.Distinct (.tables ns)

/-- The names of members are distinct, and so are those within each of them. -/
structure DistinctMembers (ms : List (String × Node)) : Prop where
  names : DistinctNames ms
  nodes : ∀ m ∈ ms, m.2.Distinct

variable {ms ms' : List (String × Node)} {n : Node} {key : String}

theorem DistinctMembers.nil : DistinctMembers [] :=
  ⟨List.nodup_nil, fun _ hm => absurd hm List.not_mem_nil⟩

theorem DistinctMembers.table (h : DistinctMembers ms) (origin : Origin) :
    (Node.table origin ms).Distinct :=
  .table h.names h.nodes

/-- The members of a table with distinct names are such members. -/
theorem Node.Distinct.members {origin : Origin} (h : (Node.table origin ms).Distinct) :
    DistinctMembers ms := by
  cases h with
  | table names nodes => exact ⟨names, nodes⟩

theorem Node.Distinct.items {ns : List Node} (h : (Node.tables ns).Distinct) :
    ∀ n ∈ ns, n.Distinct := by
  cases h with
  | tables nodes => exact nodes

theorem Node.distinct_empty : (Node.table .explicit []).Distinct :=
  DistinctMembers.nil.table .explicit

/-- The node of a key. -/
theorem DistinctMembers.of_lookup (h : DistinctMembers ms) (hkey : ms.lookup key = some n) :
    n.Distinct := by
  obtain ⟨l₁, l₂, rfl, -⟩ := List.lookup_eq_some_iff.mp hkey
  exact h.nodes (key, n) (by simp)

/-- A node may be added under a key that is not there. -/
theorem DistinctMembers.append (h : DistinctMembers ms) (hkey : ms.lookup key = none)
    (hn : n.Distinct) : DistinctMembers (ms ++ [(key, n)]) where
  names := by
    have hnew : key ∉ ms.map Prod.fst := by
      intro hmem
      obtain ⟨m, hm, rfl⟩ := List.mem_map.mp hmem
      simpa using List.lookup_eq_none_iff.mp hkey m hm
    rw [DistinctNames, List.map_append]
    refine List.nodup_append.mpr ⟨h.names, by simp, ?_⟩
    rintro a ha b hb rfl
    obtain rfl : a = key := List.mem_singleton.mp hb
    exact hnew ha
  nodes m hm := by
    rcases List.mem_append.mp hm with hold | hnew
    · exact h.nodes m hold
    · rw [List.mem_singleton.mp hnew]
      exact hn

/-- The node of a key may be replaced. -/
theorem DistinctMembers.replace (h : DistinctMembers ms) (hn : n.Distinct) (key : String) :
    DistinctMembers (replaceMember key n ms) where
  names := by
    have hnames : (replaceMember key n ms).map Prod.fst = ms.map Prod.fst := by
      rw [replaceMember, List.map_map]
      refine List.map_congr_left fun m _ => ?_
      dsimp only [Function.comp_apply]
      split
      case isTrue heq => exact heq.symm
      case isFalse => rfl
    rw [DistinctNames, hnames]
    exact h.names
  nodes m hm := by
    obtain ⟨m', hm', rfl⟩ := List.mem_map.mp hm
    split
    case isTrue => exact hn
    case isFalse => exact h.nodes m' hm'

/-! ## Values of nodes -/

/-- A table keeps the names of its members. -/
theorem names_membersToTree (ms : List (String × Node)) :
    (membersToTree ms).map Prod.fst = ms.map Prod.fst := by
  induction ms with
  | nil => rfl
  | cons m ms ih => rw [membersToTree, List.map_cons, ih, List.map_cons]

theorem mem_membersToTree {m : String × Tree} (h : m ∈ membersToTree ms) :
    ∃ m' ∈ ms, m.2 = m'.2.toTree := by
  induction ms with
  | nil => cases h
  | cons m' ms ih =>
    rcases List.mem_cons.mp h with rfl | hm
    · exact ⟨m', List.mem_cons_self, rfl⟩
    · obtain ⟨m'', hm'', heq⟩ := ih hm
      exact ⟨m'', List.mem_cons_of_mem m' hm'', heq⟩

/-- The tree of a node with distinct names has distinct names. -/
theorem Node.Distinct.toTree (h : n.Distinct) : n.toTree.Distinct := by
  cases h with
  | leaf h => exact h
  | @table _ ms names _ =>
    rw [Node.toTree, Tree.Distinct, DistinctNames, Tree.members, names_membersToTree]
    exact names
  | tables => exact List.nodup_nil

/-! ## Construction -/

/-- A step of construction keeps names distinct. -/
def Keeps (f : Construct) : Prop :=
  ∀ ⦃origin ms ms'⦄, DistinctMembers ms → f origin ms = some ms' → DistinctMembers ms'

/-- What is built at the end of a path keeps names distinct in the whole document if it does so where
it is built. -/
theorem keeps_descend {f : Construct} (hf : Keeps f) (dotted : Bool) (path : List String) :
    Keeps (descend dotted path f) := by
  induction path with
  | nil => exact hf
  | cons k ks ih =>
    intro origin ms ms' hms h
    rw [descend] at h
    split at h
    case h_1 hk =>
      obtain ⟨inner, hinner, hout⟩ := Option.bind_eq_some_iff.mp h
      obtain rfl := Option.some.inj hout
      exact hms.append hk ((ih .nil hinner).table _)
    case h_2 => cases h
    case h_3 hk =>
      split at h
      case isTrue => cases h
      case isFalse =>
        obtain ⟨inner, hinner, hout⟩ := Option.bind_eq_some_iff.mp h
        obtain rfl := Option.some.inj hout
        exact hms.replace ((ih (hms.of_lookup hk).members hinner).table _) k
    case h_4 items hk =>
      have hitems := (hms.of_lookup hk).items
      split at h
      case h_1 last hlast =>
        obtain ⟨inner, hinner, hout⟩ := Option.bind_eq_some_iff.mp h
        obtain rfl := Option.some.inj hout
        have hinner := ih (hitems _ (List.mem_of_getLast? hlast)).members hinner
        refine hms.replace (.tables fun n hn => ?_) k
        rcases List.mem_append.mp hn with hold | hnew
        · exact hitems n ((List.dropLast_sublist items).mem hold)
        · rw [List.mem_singleton.mp hnew]
          exact hinner.table _
      case h_2 => cases h

/-- An assignment keeps the names distinct. -/
theorem keeps_assign {v : Tree} (hv : v.Distinct) (path : List String) (key : String) :
    Keeps (assign path key v) := by
  refine keeps_descend (fun origin ms ms' hms h => ?_) true path
  split at h
  case isTrue => cases h
  case isFalse hfree =>
    obtain rfl := Option.some.inj h
    have hkey : ms.lookup key = none := Option.not_isSome_iff_eq_none.mp fun h => hfree (.inr h)
    exact hms.append hkey (.leaf hv)

/-- The header of a table keeps the names distinct. -/
theorem keeps_openTable (key : String) : Keeps (openTable key) := by
  intro origin ms ms' hms h
  rw [openTable] at h
  split at h
  case h_1 hkey =>
    obtain rfl := Option.some.inj h
    exact hms.append hkey Node.distinct_empty
  case h_2 hkey =>
    obtain rfl := Option.some.inj h
    exact hms.replace ((hms.of_lookup hkey).members.table .explicit) key
  case h_3 => cases h

/-- The header of an item keeps the names distinct. -/
theorem keeps_openItem (key : String) : Keeps (openItem key) := by
  intro origin ms ms' hms h
  rw [openItem] at h
  split at h
  case h_1 hkey =>
    obtain rfl := Option.some.inj h
    refine hms.append hkey (.tables fun n hn => ?_)
    rw [List.mem_singleton.mp hn]
    exact Node.distinct_empty
  case h_2 items hkey =>
    obtain rfl := Option.some.inj h
    refine hms.replace (.tables fun n hn => ?_) key
    rcases List.mem_append.mp hn with hold | hnew
    · exact (hms.of_lookup hkey).items n hold
    · rw [List.mem_singleton.mp hnew]
      exact Node.distinct_empty
  case h_3 => cases h

/-! ## Reading TOML -/

/-- A reader gives no table in which two members have one name. -/
def GivesDistinct (read : Reader Tree) : Prop :=
  ∀ ⦃s v rest⦄, read s = some (v, rest) → v.Distinct

/-- A word is no table. -/
theorem distinct_of_wordValue? {w : List Char} {v : Tree} (h : wordValue? w = some v) : v.Distinct := by
  unfold wordValue? at h
  split at h
  case h_1 =>
    obtain rfl := Option.some.inj h
    exact List.nodup_nil
  case h_2 =>
    obtain rfl := Option.some.inj h
    exact List.nodup_nil
  case h_3 =>
    simp only [Option.or_eq_some_iff, Option.map_eq_some_iff] at h
    obtain ⟨_, _, rfl⟩ | ⟨_, ⟨_, _, rfl⟩ | ⟨_, _, _, rfl⟩⟩ := h
    · exact List.nodup_nil
    · exact List.nodup_nil
    · exact List.nodup_nil

/-- The assignments of a table in braces keep names distinct. -/
theorem distinctMembers_inlineMembers {item : Reader Tree} (hitem : GivesDistinct item) {n : Nat}
    {ms ms' : List (String × Node)} {s rest : List Char} (hms : DistinctMembers ms)
    (h : inlineMembers item n ms s = some (ms', rest)) : DistinctMembers ms' := by
  induction n generalizing ms s with
  | zero => cases h
  | succ n ih =>
    rw [inlineMembers] at h
    obtain ⟨s, -, h⟩ := Option.bind_eq_some_iff.mp h
    split at h
    case h_1 =>
      cases h
      exact hms
    case h_2 =>
      obtain ⟨⟨⟨path, k⟩, s⟩, -, h⟩ := Option.bind_eq_some_iff.mp h
      obtain ⟨s, -, h⟩ := Option.bind_eq_some_iff.mp h
      split at h
      case h_1 =>
        obtain ⟨s, -, h⟩ := Option.bind_eq_some_iff.mp h
        obtain ⟨⟨v, s⟩, hv, h⟩ := Option.bind_eq_some_iff.mp h
        obtain ⟨ms, hassign, h⟩ := Option.bind_eq_some_iff.mp h
        obtain ⟨s, -, h⟩ := Option.bind_eq_some_iff.mp h
        have hms := keeps_assign (hitem hv) path k hms hassign
        split at h
        case h_1 => exact ih hms h
        case h_2 =>
          cases h
          exact hms
        case h_3 => cases h
      case h_2 => cases h

/-- A value has distinct names if the values within it have. -/
theorem givesDistinct_valueOver {item : Option (Reader Tree)} (hitem : ∀ r ∈ item, GivesDistinct r) :
    GivesDistinct (valueOver item) := by
  intro s v rest h
  unfold valueOver at h
  split at h
  case h_1 =>
    obtain ⟨_, _, heq⟩ := Option.map_eq_some_iff.mp h
    cases heq
    exact List.nodup_nil
  case h_2 =>
    obtain ⟨_, _, heq⟩ := Option.map_eq_some_iff.mp h
    cases heq
    exact List.nodup_nil
  case h_3 =>
    obtain ⟨r, -, h⟩ := Option.bind_eq_some_iff.mp h
    obtain ⟨_, _, h⟩ := Option.bind_eq_some_iff.mp h
    cases h
    exact List.nodup_nil
  case h_4 =>
    obtain ⟨r, hr, h⟩ := Option.bind_eq_some_iff.mp h
    obtain ⟨⟨ms, s⟩, hms, h⟩ := Option.bind_eq_some_iff.mp h
    cases h
    have hms := distinctMembers_inlineMembers (hitem r hr) .nil hms
    exact (hms.table .explicit).toTree
  case h_5 =>
    obtain ⟨w, hw, heq⟩ := Option.map_eq_some_iff.mp h
    cases heq
    exact distinct_of_wordValue? hw

theorem givesDistinct_value (depth : Nat) : GivesDistinct (value depth) := by
  induction depth with
  | zero => exact givesDistinct_valueOver fun r hr => nomatch hr
  | succ depth ih =>
    refine givesDistinct_valueOver fun r hr => ?_
    obtain rfl := Option.some.inj hr
    exact ih

/-- A statement keeps names distinct. -/
theorem distinctMembers_statement {st st' : State} {s rest : List Char}
    (hst : DistinctMembers st.members) (h : statement st s = some (st', rest)) :
    DistinctMembers st'.members := by
  unfold statement at h
  split at h
  case h_1 =>
    obtain ⟨⟨⟨path, k⟩, s⟩, -, h⟩ := Option.bind_eq_some_iff.mp h
    obtain ⟨ms, hms, h⟩ := Option.bind_eq_some_iff.mp h
    cases h
    exact keeps_descend (keeps_openItem k) false path hst hms
  case h_2 =>
    obtain ⟨⟨⟨path, k⟩, s⟩, -, h⟩ := Option.bind_eq_some_iff.mp h
    obtain ⟨ms, hms, h⟩ := Option.bind_eq_some_iff.mp h
    cases h
    exact keeps_descend (keeps_openTable k) false path hst hms
  case h_3 =>
    obtain ⟨⟨⟨path, k⟩, s⟩, -, h⟩ := Option.bind_eq_some_iff.mp h
    dsimp only at h
    split at h
    case h_1 =>
      obtain ⟨⟨v, s⟩, hv, h⟩ := Option.bind_eq_some_iff.mp h
      obtain ⟨ms, hms, h⟩ := Option.bind_eq_some_iff.mp h
      cases h
      exact keeps_descend (keeps_assign (givesDistinct_value maxDepth hv) path k) false st.path hst hms
    case h_2 => cases h

theorem distinctMembers_statements {n : Nat} {st st' : State} {s : List Char}
    (hst : DistinctMembers st.members) (h : statements n st s = some st') :
    DistinctMembers st'.members := by
  induction n generalizing st s with
  | zero => cases h
  | succ n ih =>
    rw [statements] at h
    obtain ⟨s, -, h⟩ := Option.bind_eq_some_iff.mp h
    split at h
    case h_1 =>
      cases h
      exact hst
    case h_2 =>
      obtain ⟨⟨st, s⟩, hst', h⟩ := Option.bind_eq_some_iff.mp h
      obtain ⟨s, -, h⟩ := Option.bind_eq_some_iff.mp h
      exact ih (distinctMembers_statement hst hst') h

end Toml

namespace Settings

/-! ## Documents -/

/-- The names of a source are distinct, and so are those of the tables among its values. -/
structure DistinctSource (ms : List (String × Tree)) : Prop where
  names : DistinctNames ms
  tables : ∀ m ∈ ms, m.2.Distinct

/-- A TOML document has distinct names. -/
theorem distinctSource_toml {text : String} {ms : List (String × Tree)}
    (h : Toml.read? text = some (.table ms)) : DistinctSource ms := by
  obtain ⟨st, hst, h⟩ := Option.bind_eq_some_iff.mp h
  cases h
  have hmembers := Toml.distinctMembers_statements .nil hst
  refine ⟨?_, fun m hm => ?_⟩
  · rw [DistinctNames, Toml.names_membersToTree]
    exact hmembers.names
  · obtain ⟨m', hm', heq⟩ := Toml.mem_membersToTree hm
    rw [heq]
    exact (hmembers.nodes m' hm').toTree

/-- The members of a JSON object have distinct names. -/
theorem distinctNames_membersOfJson {ms : List (String × Json.Value)} {acc : List (String × Tree)}
    (h : DistinctNames acc) : DistinctNames (membersOfJson ms acc) := by
  induction ms generalizing acc with
  | nil => exact h
  | cons m ms ih => exact ih (distinctNames_alterMember h m.1 _)

/-- The tree of a document has distinct names, as the last member of a name stays. -/
theorem distinct_ofJson (v : Json.Value) : (ofJson v).Distinct := by
  cases v with
  | object ms => exact distinctNames_membersOfJson List.nodup_nil
  | number n => cases n <;> exact List.nodup_nil
  | null => exact List.nodup_nil
  | bool b => exact List.nodup_nil
  | text s => exact List.nodup_nil
  | array vs => exact List.nodup_nil

theorem distinct_mem_membersOfJson {ms : List (String × Json.Value)} {acc : List (String × Tree)}
    (h : ∀ m ∈ acc, m.2.Distinct) : ∀ m ∈ membersOfJson ms acc, m.2.Distinct := by
  induction ms generalizing acc with
  | nil => exact h
  | cons m ms ih =>
    refine ih fun m' hm' => ?_
    rcases mem_alterMember hm' with hold | ⟨_, rfl⟩
    · exact h m' hold
    · exact distinct_ofJson m.2

/-- A JSON document has distinct names. -/
theorem distinctSource_json {v : Json.Value} {ms : List (String × Tree)} (h : ofJson v = .table ms) :
    DistinctSource ms := by
  cases v with
  | object vs =>
    obtain rfl := Tree.table.inj h
    exact ⟨distinctNames_membersOfJson List.nodup_nil,
      distinct_mem_membersOfJson fun _ hm => absurd hm List.not_mem_nil⟩
  | number n => cases n <;> cases h
  | null => cases h
  | bool b => cases h
  | text s => cases h
  | array vs => cases h

theorem distinctSource_read? {f : Format} {text : String} {ms : List (String × Tree)}
    (h : f.read? text = some ms) : DistinctSource ms := by
  unfold Format.read? at h
  dsimp only at h
  split at h
  case h_1 ms' htree =>
    obtain rfl := Option.some.inj h
    cases f with
    | toml => exact distinctSource_toml htree
    | json =>
      obtain ⟨v, -, hv⟩ := Option.map_eq_some_iff.mp htree
      exact distinctSource_json hv
  case h_2 => cases h

/-- The file of settings has distinct names. -/
theorem distinct_fileMembers {files : Files} {path : String} {ms : List (String × Tree)}
    (h : fileMembers files path = .ok ms) : DistinctSource ms := by
  unfold fileMembers at h
  split at h
  case h_1 =>
    obtain rfl := Except.ok.inj h
    exact ⟨List.nodup_nil, fun _ hm => absurd hm List.not_mem_nil⟩
  case h_2 =>
    split at h
    case h_1 hread =>
      obtain rfl := Except.ok.inj h
      exact distinctSource_read? hread
    case h_2 => cases h

end Settings

end BrokerTopology
