import BrokerTopology.Proofs.Json.Reading
import BrokerTopology.Proofs.Settings.Documents
import BrokerTopology.Proofs.Settings.Variables
/-!
# The layers of the settings

The environment lies over the file, and the file over the defaults. For every setting the value of the
environment wins if there is one, else that of the file, if there is one that is not `null`. Only the value
that wins is converted, and what is loaded depends on nothing else.

A key at the top of a file is read as a path. One that begins with a section, such as `server.port`,
reaches into that section; the files considered here have no such keys beside the sections themselves.

Main statement: `layered_load`.
-/

namespace BrokerTopology

namespace Settings

open Settings.Tree

/-! ## The file -/

variable {file : List (String × Tree)} {k : Key}

/-- A tree that is merged over another one is `null` only if it was. -/
theorem given_overlay (t base : Tree) :
    given (some (overlay t base)) = (given (some t)).map (overlay · base) := by
  cases t with
  | table ms => rw [overlay]; rfl
  | _ => rfl

/-- What becomes of a value does not depend on what it is merged over. -/
theorem Key.convert?_overlay (k : Key) (t base : Tree) : k.convert? (overlay t base) = k.convert? t := by
  cases t with
  | table ms => cases k <;> rfl
  | _ => rfl

/-- The name of a section leads to it. -/
theorem keyPath_table (k : Key) : keyPath k.table = [.member k.table] := by
  cases k <;> decide

/-- No key of a file but the name of a section is a path that begins with it. -/
def NoPaths (file : List (String × Tree)) : Prop :=
  ∀ m ∈ file, ∀ k : Key, (keyPath m.1).head? = some (.member k.table) → m.1 = k.table

/-- Keys that are plain names reach into no section. -/
theorem noPaths_of_forall (h : ∀ m ∈ file, keyPath m.1 = [.member m.1]) : NoPaths file := by
  intro m hm k hk
  rw [h m hm, List.head?_cons, Option.some.injEq, Step.member.injEq] at hk
  exact hk

/-- A section of a file is merged over nothing. -/
theorem member?_file (hdistinct : DistinctSource file) (hpaths : NoPaths file) (k : Key) :
    (setAll (.table []) file).member? k.table = (file.lookup k.table).map (overlay · .null) := by
  rw [member?_setAll hdistinct.names (keyPath_table k) fun m hm => hpaths m hm k]
  cases file.lookup k.table with
  | none => rfl
  | some t => rfl

theorem sectioned_file (hdistinct : DistinctSource file) (hpaths : NoPaths file)
    (hsections : Sectioned (.table file)) : Sectioned (setAll (.table []) file) := by
  intro k t ht
  rw [member?_file hdistinct hpaths] at ht
  obtain ⟨t', hfound, rfl⟩ := Option.map_eq_some_iff.mp ht
  rcases hsections k t' hfound with rfl | ⟨ms, rfl⟩
  · exact .inl rfl
  · exact .inr ⟨_, rfl⟩

/-- A file gives to a setting its value there, merged over nothing. -/
theorem value?_file (hdistinct : DistinctSource file) (hpaths : NoPaths file)
    (hsections : Sectioned (.table file)) (k : Key) :
    (setAll (.table []) file).value? k = ((Tree.table file).value? k).map (overlay · .null) := by
  have hmember : (Tree.table file).member? k.table = file.lookup k.table := rfl
  rw [value?, member?_file hdistinct hpaths, value?, hmember]
  cases hfound : file.lookup k.table with
  | none => rfl
  | some t =>
    rw [Option.map_some, Option.bind_some, Option.bind_some]
    rcases hsections k t hfound with rfl | ⟨ms, rfl⟩
    · rfl
    · have hms : DistinctNames ms := by
        obtain ⟨l₁, l₂, hfile, -⟩ := List.lookup_eq_some_iff.mp hfound
        exact hdistinct.tables (k.table, .table ms) (by rw [hfile]; simp)
      have hoverlay : (overlay (.table ms) .null).member? k.name =
          (overlayMembers ms []).lookup k.name := rfl
      rw [hoverlay, lookup_overlayMembers hms]
      change _ = (given (ms.lookup k.name)).map _
      cases ms.lookup k.name with
      | none => rfl
      | some v => exact given_overlay v .null

/-- The members of an object that is written in a JSON file, asked for by its path. -/
theorem fileMembers_json (text : String) (ms : List (String × Json.Value))
    (hmark : dropMark text = text) (htext : (Json.Value.object ms).write = text)
    (hms : (Json.Value.object ms).Readable Json.maxDepth) :
    fileMembers [("c.json", text)] "c.json" = .ok (membersOfJson ms []) := by
  have hsteps : "c.json".splitOn "/" = ["c.json"] := by
    rw [String.splitOn, if_neg (by decide)]
    -- no character of the name is a separator
    iterate 6 rw [String.splitOnAux, if_neg (by decide +kernel), if_neg (by decide +kernel)]
    rw [String.splitOnAux, if_pos (by decide +kernel)]
    decide +kernel
  have hstart : "c.json".startsWith "/" = false := by decide +kernel
  have hformat : Format.ofName? "c.json" = some .json := by decide +kernel
  have hfind : findFile [("c.json", text)] "c.json" = some (.json, text) := by
    unfold findFile fileIn placed
    simp only [List.map, hsteps, hstart]
    change (Format.ofName? "c.json").bind (fun f => some (f, dropMark text)) = some (.json, text)
    rw [hformat, hmark]
    rfl
  rw [fileMembers, hfind]
  dsimp only
  rw [Format.read?, ← htext, Json.Value.read_write hms]
  rfl

/-! ## Sources -/

/-- A file, which may be missing, and an environment. The sections of the file are tables, `null` or
missing, no other key reaches into them, and every marked variable of the environment sets a setting. -/
structure Sources where
  files : Files
  env : Environment
  path : String
  /-- The members of the file. -/
  file : List (String × Tree)
  read : fileMembers files path = .ok file
  sections : Sectioned (.table file)
  noPaths : NoPaths file
  onlySettings : OnlySettings env

namespace Sources

variable (a b : Sources)

/-- What is loaded from the sources. -/
def load : Except LoadError Settings :=
  Settings.load a.files a.env a.path

/-- The value that the environment gives to a setting. -/
def inEnv? (k : Key) : Option Tree :=
  envValue? a.env k

/-- The value that the file gives to a setting. -/
def inFile? (k : Key) : Option Tree :=
  (Tree.table a.file).value? k

/-- The value that wins: that of the environment if there is one, else that of the file. -/
def winning? (k : Key) : Option Tree :=
  (a.inEnv? k).or (a.inFile? k)

/-- The tree into which the sources are merged. -/
def merged : Tree :=
  setAll (setAll (.table []) a.file) (environmentMembers a.env)

theorem load_eq : a.load = ofTree a.merged := by
  rw [load, Settings.load, a.read]
  rfl

theorem sectioned_merged : Sectioned a.merged :=
  sectioned_environment a.onlySettings
    (sectioned_file (distinct_fileMembers a.read) a.noPaths a.sections)

/-- What becomes of a setting is decided by the value that wins. -/
theorem resolve?_merged (k : Key) : k.resolve? (a.merged.value? k) = k.resolve? (a.winning? k) := by
  rw [merged, value?_environment a.onlySettings,
    value?_file (distinct_fileMembers a.read) a.noPaths a.sections, winning?, inEnv?, inFile?]
  cases envValue? a.env k with
  | some t => rfl
  | none =>
    rw [Option.none_or, Option.none_or]
    cases (Tree.table a.file).value? k with
    | none => rfl
    | some t => exact k.convert?_overlay t .null

/-- Settings are loaded if and only if every one of them is what becomes of the value that wins. -/
theorem load_eq_ok_iff (s : Settings) :
    a.load = .ok s ↔ ∀ k : Key, k.resolve? (a.winning? k) = some (s.field k) := by
  rw [load_eq, ofTree_eq_ok_iff a.sectioned_merged]
  exact forall_congr' fun k => by rw [resolve?_merged]

/-- Nothing is loaded if a value that wins is not converted. -/
theorem load_eq_error {k : Key} (hk : k.resolve? (a.winning? k) = none) : a.load = .error .wrongType := by
  rw [load_eq]
  exact ofTree_eq_error a.sectioned_merged ((a.resolve?_merged k).trans hk)

/-- Settings are loaded if and only if every value that wins is converted. -/
theorem exists_load_iff : (∃ s, a.load = .ok s) ↔ ∀ k : Key, (k.resolve? (a.winning? k)).isSome := by
  rw [load_eq, exists_ofTree_iff a.sectioned_merged]
  exact forall_congr' fun k => by rw [resolve?_merged]

/-- Sources in which the same values win load the same. -/
theorem load_congr (h : ∀ k, b.winning? k = a.winning? k) : b.load = a.load := by
  by_cases hall : ∀ k : Key, (k.resolve? (a.winning? k)).isSome
  · obtain ⟨s, hs⟩ := a.exists_load_iff.mpr hall
    rw [hs, load_eq_ok_iff]
    intro k
    rw [h, (a.load_eq_ok_iff s).mp hs]
  · obtain ⟨k, hk⟩ := not_forall.mp hall
    have hnone : k.resolve? (a.winning? k) = none := Option.not_isSome_iff_eq_none.mp hk
    rw [a.load_eq_error hnone]
    exact b.load_eq_error (by rw [h, hnone])

end Sources

/-! ## The layers -/

/-- How the layers decide on what is loaded. -/
structure Layered (a : Sources) : Prop where
  /-- Settings are loaded if and only if every value that wins is converted to the type and the range of
  its setting. -/
  loads_iff : (∃ s, a.load = .ok s) ↔
    ∀ (k : Key) (t : Tree), a.winning? k = some t → (k.convert? t).isSome
  /-- Else the answer is that a value does not fit. -/
  refuses : ∀ (k : Key) (t : Tree), a.winning? k = some t → k.convert? t = none →
    a.load = .error .wrongType
  /-- A setting is the value that wins, converted. -/
  converted : ∀ s, a.load = .ok s →
    ∀ (k : Key) (t : Tree), a.winning? k = some t → k.convert? t = some (s.field k)
  /-- A setting to which neither source gives a value has its default. -/
  unset : ∀ s, a.load = .ok s →
    ∀ k : Key, a.winning? k = none → s.field k = ({} : Settings).field k
  /-- Of the file nothing counts but the values of the settings that the environment does not set. -/
  unseen : ∀ b : Sources, (∀ k, b.inEnv? k = a.inEnv? k) →
    (∀ k, a.inEnv? k = none → b.inFile? k = a.inFile? k) → b.load = a.load
  /-- What is given to one setting changes no other. -/
  separate : ∀ (b : Sources) (k : Key),
    (∀ k' ≠ k, b.inEnv? k' = a.inEnv? k' ∧ b.inFile? k' = a.inFile? k') →
      ∀ s s', a.load = .ok s → b.load = .ok s' → ∀ k' ≠ k, s'.field k' = s.field k'

/-- The environment is laid over the file, and the file over the defaults, setting by setting. -/
theorem layered_load (a : Sources) : Layered a where
  loads_iff := by
    rw [a.exists_load_iff]
    refine forall_congr' fun k => ?_
    cases a.winning? k with
    | none => exact ⟨fun _ t ht => (nomatch ht), fun _ => rfl⟩
    | some t =>
      constructor
      · intro hresolve t' ht'
        obtain rfl := Option.some.inj ht'
        exact hresolve
      · intro hconvert
        exact hconvert t rfl
  refuses k t hwinning hconvert := by
    refine a.load_eq_error (k := k) ?_
    rw [hwinning]
    exact hconvert
  converted s hload k t hwinning := by
    have hfield := (a.load_eq_ok_iff s).mp hload k
    rw [hwinning] at hfield
    exact hfield
  unset s hload k hwinning := by
    have hfield := (a.load_eq_ok_iff s).mp hload k
    rw [hwinning] at hfield
    exact (Option.some.inj hfield).symm
  unseen b henv hfile := by
    refine a.load_congr b fun k => ?_
    rw [Sources.winning?, Sources.winning?, henv]
    cases hset : a.inEnv? k with
    | none => rw [hfile k hset]
    | some t => rfl
  separate b k hsame s s' hload hload' k' hk' := by
    have hfield := (a.load_eq_ok_iff s).mp hload k'
    have hfield' := (b.load_eq_ok_iff s').mp hload' k'
    have hwinning : b.winning? k' = a.winning? k' := by
      rw [Sources.winning?, (hsame k' hk').1, (hsame k' hk').2, Sources.winning?]
    rw [hwinning, hfield] at hfield'
    exact (Option.some.inj hfield').symm

/-- A port that is no number, under a variable that gives one. -/
def Sources.shadowed : Sources where
  files := [("c.json",
    "\x7b\"server\":\x7b\"host\":null,\"port\":\"none\"\x7d,\"log\":null,\"notes\":\"server\"\x7d")]
  env := [("NetGraph__Server__Port", "9000"), ("PATH", "/bin")]
  path := "c.json"
  file := [("server", .table [("host", .null), ("port", .text "none")]), ("log", .null),
    ("notes", .text "server")]
  read := by
    refine fileMembers_json _ [("server", .object [("host", .null), ("port", .text "none")]),
      ("log", .null), ("notes", .text "server")] (by decide +kernel) (by decide +kernel) (.object ?_)
    have hserver {depth : Nat} : ∀ m ∈ [("host", Json.Value.null), ("port", .text "none")],
        m.2.Readable depth :=
      List.forall_mem_cons.mpr ⟨.null, List.forall_mem_singleton.mpr (.text "none")⟩
    exact List.forall_mem_cons.mpr ⟨.object hserver,
      List.forall_mem_cons.mpr ⟨.null, List.forall_mem_singleton.mpr (.text "server")⟩⟩
  sections := by
    have hserver : IsSection (some (.table [("host", .null), ("port", .text "none")])) :=
      fun t ht => .inr ⟨_, (Option.some.inj ht).symm⟩
    have hlog : IsSection (some .null) := fun t ht => .inl (Option.some.inj ht).symm
    have hgraph : IsSection none := fun t ht => nomatch ht
    exact Key.forall_iff.mpr ⟨hserver, hserver, hgraph, hgraph, hgraph, hgraph, hgraph, hlog⟩
  noPaths := noPaths_of_forall (by decide)
  onlySettings := by
    refine List.forall_mem_cons.mpr ⟨fun _ => ⟨.port, by decide⟩, List.forall_mem_singleton.mpr ?_⟩
    exact fun hmarked => absurd hmarked (by decide)

/-- The port of the file cannot be converted, but a variable shadows it, so the load succeeds with the port of
the variable and the defaults for all other settings. -/
theorem layered_load_shadowed :
    Sources.shadowed.inFile? .port = some (.text "none") ∧ Key.port.convert? (.text "none") = none ∧
      ∃ s, Sources.shadowed.load = .ok s ∧ s.field .port = .number 9000 ∧
        ∀ k ≠ Key.port, s.field k = ({} : Settings).field k := by
  have hlayers := layered_load Sources.shadowed
  have hport : Sources.shadowed.winning? .port = some (.int 9000) := rfl
  have hrest : ∀ k ≠ Key.port, Sources.shadowed.winning? k = none := by
    intro k hk
    cases k with
    | port => exact absurd rfl hk
    | _ => rfl
  obtain ⟨s, hs⟩ := hlayers.loads_iff.mpr fun k t ht => by
    by_cases hk : k = .port
    · subst hk
      obtain rfl := Option.some.inj (hport.symm.trans ht)
      rfl
    · rw [hrest k hk] at ht
      cases ht
  have hconverted := hlayers.converted s hs .port (.int 9000) hport
  exact ⟨rfl, by decide +kernel, s, hs, (Option.some.inj hconverted).symm,
    fun k hk => hlayers.unset s hs k (hrest k hk)⟩

/-- A key that is a path reaches into a section. Neither of these files has a section, and no variable is
set; yet the first file sets the port, and the second is refused. -/
theorem not_layered_path :
    (fileMembers [("c.json", "\x7b\"server.port\":5\x7d")] "c.json" = .ok [("server.port", .int 5)] ∧
      (∀ k : Key, [("server.port", Tree.int 5)].lookup k.table = none) ∧
      load [("c.json", "\x7b\"server.port\":5\x7d")] [] "c.json" = .ok { port := 5 } ∧
      ({ port := 5 } : Settings) ≠ {}) ∧
    fileMembers [("c.json", "\x7b\"server[0]\":\"h\"\x7d")] "c.json" = .ok [("server[0]", .text "h")] ∧
      (∀ k : Key, [("server[0]", Tree.text "h")].lookup k.table = none) ∧
      load [("c.json", "\x7b\"server[0]\":\"h\"\x7d")] [] "c.json" = .error .wrongType := by
  have hdotted : fileMembers [("c.json", "\x7b\"server.port\":5\x7d")] "c.json" =
      .ok [("server.port", .int 5)] := by
    refine fileMembers_json _ [("server.port", .number (.int 5))] (by decide +kernel) (by decide +kernel)
      (.object (List.forall_mem_singleton.mpr (.number ?_)))
    exact Json.readsBack_int (by decide) (by decide)
  have hindexed : fileMembers [("c.json", "\x7b\"server[0]\":\"h\"\x7d")] "c.json" =
      .ok [("server[0]", .text "h")] :=
    fileMembers_json _ [("server[0]", .text "h")] (by decide +kernel) (by decide +kernel)
      (.object (List.forall_mem_singleton.mpr (.text "h")))
  refine ⟨⟨hdotted, fun k => ?_, ?_, by decide⟩, hindexed, fun k => ?_, ?_⟩
  · cases k <;> rfl
  · rw [load, hdotted]
    rfl
  · cases k <;> rfl
  · rw [load, hindexed]
    rfl

end Settings

end BrokerTopology
