import BrokerTopology.Settings.Load
/-!
# Settings of a merged tree

There are eight settings, in three sections. What a tree gives to a setting is a value of the section,
unless it is `null`; it is converted to the type and the range of the setting, and a setting to which
nothing is given has its default. The settings are read section by section and by their places, and this
file says of the result what it is key by key.

Main statements: `ofTree_eq_ok_iff` and `ofTree_eq_error`.
-/

namespace BrokerTopology

namespace Settings

/-! ## Keys -/

/-- The settings by name. -/
inductive Key where
  | host
  | port
  | interval
  | idleBudget
  | topic
  | memoryTopic
  | latencyTopic
  | level
  deriving DecidableEq, Repr

/-- The section of a setting. -/
def Key.table : Key → String
  | .host => "server"
  | .port => "server"
  | .level => "log"
  | _ => "graph"

/-- The name of a setting in its section. -/
def Key.name : Key → String
  | .host => "host"
  | .port => "port"
  | .interval => "interval_secs"
  | .idleBudget => "ttl_multiplier"
  | .topic => "topic"
  | .memoryTopic => "memory_topic"
  | .latencyTopic => "latency_topic"
  | .level => "level"

/-- No two settings have one name. -/
theorem Key.name_inj {k k' : Key} (h : k.name = k'.name) : k = k' := by
  cases k <;> cases k' <;> first | rfl | exact absurd h (by decide)

/-- What is said of every setting. -/
theorem Key.forall_iff {P : Key → Prop} :
    (∀ k, P k) ↔ P .host ∧ P .port ∧ P .interval ∧ P .idleBudget ∧ P .topic ∧ P .memoryTopic ∧
      P .latencyTopic ∧ P .level := by
  constructor
  · intro h
    exact ⟨h .host, h .port, h .interval, h .idleBudget, h .topic, h .memoryTopic, h .latencyTopic,
      h .level⟩
  · rintro ⟨h₁, h₂, h₃, h₄, h₅, h₆, h₇, h₈⟩ k
    cases k <;> assumption

/-- The value of a setting: a text or a number. -/
inductive Field where
  | text (s : String)
  | number (n : Nat)
  deriving DecidableEq, Repr

/-- The settings, key by key. -/
def field (s : Settings) : Key → Field
  | .host => .text s.host
  | .port => .number s.port
  | .interval => .number s.graph.interval
  | .idleBudget => .number s.graph.idleBudget
  | .topic => .text s.graph.topic
  | .memoryTopic => .text s.graph.memoryTopic
  | .latencyTopic => .text s.graph.latencyTopic
  | .level => .text s.level

/-- A value converted to the type and the range of a setting. -/
def Key.convert? : Key → Tree → Option Field
  | .port, t => (t.toBits? 16).map .number
  | .interval, t => (t.toBits? 64).map .number
  | .idleBudget, t => (t.toBits? 32).map .number
  | _, t => t.toText?.map .text

/-- What a setting becomes: the converted value, or its default if there is none. -/
def Key.resolve? (k : Key) : Option Tree → Option Field
  | some t => k.convert? t
  | none => some (({} : Settings).field k)

/-! ## Values in a tree -/

/-- A value that is given; `null` gives none. -/
def given : Option Tree → Option Tree
  | some .null => none
  | t => t

/-- The value that a tree gives to a setting. -/
def Tree.value? (t : Tree) (k : Key) : Option Tree :=
  given ((t.member? k.table).bind (·.member? k.name))

/-- A section that is missing, `null` or a table. -/
def IsSection (found : Option Tree) : Prop :=
  ∀ t ∈ found, t = .null ∨ ∃ ms, t = .table ms

/-- Every section of a tree is missing, `null` or a table. -/
def Sectioned (t : Tree) : Prop :=
  ∀ k : Key, IsSection (t.member? k.table)

/-- A section gives to each of its settings what its member of that name gives. -/
theorem section?_eq {found : Option Tree} (h : IsSection found) (names : List String) : section? names
    found = .ok (names.map fun n => given (found.bind (·.member? n))) := by
  match found with
  | none => rfl
  | some t =>
    rcases h t rfl with rfl | ⟨ms, rfl⟩
    · rfl
    · rfl

/-! ## Conversions in sequence -/

variable {α β ε : Type}

theorem bind_eq_ok_iff {x : Except ε α} {f : α → Except ε β} {b : β} :
    x >>= f = .ok b ↔ ∃ a, x = .ok a ∧ f a = .ok b := by
  cases x with
  | error e => exact ⟨nofun, fun ⟨_, h, _⟩ => nomatch h⟩
  | ok a => exact ⟨fun h => ⟨a, rfl, h⟩, fun ⟨_, heq, h⟩ => by cases heq; exact h⟩

/-- A setting is converted with its own conversion and has its own default. -/
theorem convert_eq_ok_iff {f : Tree → Option α} {default : α} {k : Key} {mk : α → Field}
    (hmk : ∀ a b, mk a = mk b → a = b) (hconvert : ∀ t, k.convert? t = (f t).map mk)
    (hdefault : ({} : Settings).field k = mk default) (t : Option Tree) (a : α) :
    convert f default t = .ok a ↔ k.resolve? t = some (mk a) := by
  cases t with
  | none =>
    rw [convert, Key.resolve?, hdefault, Except.ok.injEq, Option.some.injEq]
    exact ⟨congrArg mk, hmk default a⟩
  | some t =>
    rw [Key.resolve?, hconvert]
    dsimp only [convert]
    cases f t with
    | none => exact ⟨nofun, nofun⟩
    | some b =>
      rw [Option.map_some, Except.ok.injEq, Option.some.injEq]
      exact ⟨congrArg mk, hmk b a⟩

theorem convert_text_iff {k : Key} {default : String} (hconvert : ∀ t, k.convert? t = t.toText?.map .text)
    (hdefault : ({} : Settings).field k = .text default) (t : Option Tree) (s : String) :
    convert Tree.toText? default t = .ok s ↔ k.resolve? t = some (.text s) :=
  convert_eq_ok_iff (fun _ _ => Field.text.inj) hconvert hdefault t s

theorem convert_number_iff {k : Key} {default bits : Nat}
    (hconvert : ∀ t, k.convert? t = (t.toBits? bits).map .number)
    (hdefault : ({} : Settings).field k = .number default) (t : Option Tree) (n : Nat) :
    convert (Tree.toBits? bits) default t = .ok n ↔ k.resolve? t = some (.number n) :=
  convert_eq_ok_iff (fun _ _ => Field.number.inj) hconvert hdefault t n

/-- The settings of a tree, each with the value that the tree gives to it. -/
theorem ofTree_eq {t : Tree} (h : Sectioned t) :
    ofTree t = do
      return {
        host := ← convert Tree.toText? "127.0.0.1" (t.value? .host)
        port := ← convert (Tree.toBits? 16) 8080 (t.value? .port)
        graph := {
          interval := ← convert (Tree.toBits? 64) 10 (t.value? .interval)
          idleBudget := ← convert (Tree.toBits? 32) 3 (t.value? .idleBudget)
          topic := ← convert Tree.toText? "$SYS/graph" (t.value? .topic)
          memoryTopic := ← convert Tree.toText? "$SYS/graph/memory" (t.value? .memoryTopic)
          latencyTopic := ← convert Tree.toText? "$GRAPH/latency" (t.value? .latencyTopic) }
        level := ← convert Tree.toText? "info" (t.value? .level) } := by
  have hserver := section?_eq (h .host) serverNames
  have hgraph := section?_eq (h .interval) graphNames
  have hlog := section?_eq (h .level) logNames
  dsimp only [Key.table] at hserver hgraph hlog
  unfold ofTree
  rw [hserver, hgraph, hlog]
  rfl

/-- A tree gives settings if and only if every one of them becomes what it is there. -/
theorem ofTree_eq_ok_iff {t : Tree} (h : Sectioned t) (s : Settings) :
    ofTree t = .ok s ↔ ∀ k : Key, k.resolve? (t.value? k) = some (s.field k) := by
  have hhost := convert_text_iff (k := .host) (fun _ => rfl) rfl (t.value? .host)
  have hport := convert_number_iff (k := .port) (fun _ => rfl) rfl (t.value? .port)
  have hinterval := convert_number_iff (k := .interval) (fun _ => rfl) rfl (t.value? .interval)
  have hbudget := convert_number_iff (k := .idleBudget) (fun _ => rfl) rfl (t.value? .idleBudget)
  have htopic := convert_text_iff (k := .topic) (fun _ => rfl) rfl (t.value? .topic)
  have hmemory := convert_text_iff (k := .memoryTopic) (fun _ => rfl) rfl (t.value? .memoryTopic)
  have hlatency := convert_text_iff (k := .latencyTopic) (fun _ => rfl) rfl (t.value? .latencyTopic)
  have hlevel := convert_text_iff (k := .level) (fun _ => rfl) rfl (t.value? .level)
  rw [ofTree_eq h, Key.forall_iff]
  simp only [bind_eq_ok_iff, hhost, hport, hinterval, hbudget, htopic, hmemory, hlatency, hlevel]
  constructor
  · rintro ⟨host, h₁, port, h₂, interval, h₃, budget, h₄, topic, h₅, memory, h₆, latency, h₇, level,
      h₈, hs⟩
    obtain rfl := Except.ok.inj hs
    exact ⟨h₁, h₂, h₃, h₄, h₅, h₆, h₇, h₈⟩
  · rintro ⟨h₁, h₂, h₃, h₄, h₅, h₆, h₇, h₈⟩
    exact ⟨s.host, h₁, s.port, h₂, s.graph.interval, h₃, s.graph.idleBudget, h₄, s.graph.topic, h₅,
      s.graph.memoryTopic, h₆, s.graph.latencyTopic, h₇, s.level, h₈, rfl⟩

/-- What a setting becomes is a value of its type. -/
theorem Key.exists_of_resolve? {k : Key} {f : Tree → Option α} {default : α} {mk : α → Field}
    (hconvert : ∀ t, k.convert? t = (f t).map mk) (hdefault : ({} : Settings).field k = mk default)
    {t : Option Tree} (h : (k.resolve? t).isSome) : ∃ a, k.resolve? t = some (mk a) := by
  cases t with
  | none => exact ⟨default, congrArg some hdefault⟩
  | some t =>
    rw [Key.resolve?, hconvert] at h ⊢
    obtain ⟨a, ha⟩ := Option.isSome_iff_exists.mp (Option.isSome_map ▸ h)
    exact ⟨a, by rw [ha, Option.map_some]⟩

theorem Key.exists_text {k : Key} {default : String} (hconvert : ∀ t, k.convert? t = t.toText?.map .text)
    (hdefault : ({} : Settings).field k = .text default) {t : Option Tree} (h : (k.resolve? t).isSome) :
    ∃ s, k.resolve? t = some (.text s) :=
  Key.exists_of_resolve? hconvert hdefault h

theorem Key.exists_number {k : Key} {default bits : Nat}
    (hconvert : ∀ t, k.convert? t = (t.toBits? bits).map .number)
    (hdefault : ({} : Settings).field k = .number default) {t : Option Tree}
    (h : (k.resolve? t).isSome) : ∃ n, k.resolve? t = some (.number n) :=
  Key.exists_of_resolve? hconvert hdefault h

/-- A tree gives settings if and only if every setting becomes something. -/
theorem exists_ofTree_iff {t : Tree} (h : Sectioned t) :
    (∃ s, ofTree t = .ok s) ↔ ∀ k : Key, (k.resolve? (t.value? k)).isSome := by
  constructor
  · rintro ⟨s, hs⟩ k
    rw [(ofTree_eq_ok_iff h s).mp hs k]
    rfl
  · intro hall
    obtain ⟨host, h₁⟩ := Key.exists_text (fun _ => rfl) rfl (hall .host)
    obtain ⟨port, h₂⟩ := Key.exists_number (fun _ => rfl) rfl (hall .port)
    obtain ⟨interval, h₃⟩ := Key.exists_number (fun _ => rfl) rfl (hall .interval)
    obtain ⟨budget, h₄⟩ := Key.exists_number (fun _ => rfl) rfl (hall .idleBudget)
    obtain ⟨topic, h₅⟩ := Key.exists_text (fun _ => rfl) rfl (hall .topic)
    obtain ⟨memory, h₆⟩ := Key.exists_text (fun _ => rfl) rfl (hall .memoryTopic)
    obtain ⟨latency, h₇⟩ := Key.exists_text (fun _ => rfl) rfl (hall .latencyTopic)
    obtain ⟨level, h₈⟩ := Key.exists_text (fun _ => rfl) rfl (hall .level)
    exact ⟨⟨host, port, ⟨interval, budget, topic, memory, latency⟩, level⟩,
      (ofTree_eq_ok_iff h _).mpr (Key.forall_iff.mpr ⟨h₁, h₂, h₃, h₄, h₅, h₆, h₇, h₈⟩)⟩

/-! ## Failures -/

/-- The only error is that a value does not fit. -/
def FailsOnType (x : Except LoadError α) : Prop :=
  ∀ e, x = .error e → e = .wrongType

theorem FailsOnType.bind {x : Except LoadError α} {f : α → Except LoadError β} (hx : FailsOnType x)
    (hf : ∀ a, FailsOnType (f a)) : FailsOnType (x >>= f) := by
  intro e h
  cases x with
  | error e' => exact hx e (congrArg Except.error (Except.error.inj h))
  | ok a => exact hf a e h

theorem failsOnType_convert (f : Tree → Option α) (default : α) (t : Option Tree) :
    FailsOnType (convert f default t) := by
  intro e h
  unfold convert at h
  split at h
  case h_1 => cases h
  case h_2 =>
    split at h
    case h_1 => cases h
    case h_2 => exact (Except.error.inj h).symm

/-- A tree in which a setting does not become anything is refused. -/
theorem ofTree_eq_error {t : Tree} (h : Sectioned t) {k : Key} (hk : k.resolve? (t.value? k) = none) :
    ofTree t = .error .wrongType := by
  have hfails : FailsOnType (ofTree t) := by
    rw [ofTree_eq h]
    -- one conversion for every setting
    iterate 8 refine (failsOnType_convert _ _ _).bind fun _ => ?_
    exact nofun
  cases hof : ofTree t with
  | error e => rw [hfails e hof]
  | ok s =>
    have hsome := (ofTree_eq_ok_iff h s).mp hof k
    rw [hk] at hsome
    cases hsome

end Settings

end BrokerTopology
