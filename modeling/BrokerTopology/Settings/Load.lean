import BrokerTopology.Settings.Basic
import BrokerTopology.Settings.Convert
import BrokerTopology.Settings.Environment
import BrokerTopology.Settings.File
/-!
# Loading the settings

The environment wins over the file, and the file over the defaults. Only the winning value of a
setting is converted. A section may be a table, or an array of its settings in declared order.
-/

namespace BrokerTopology.Settings

/-- Why settings are not loaded. -/
inductive LoadError where
  /-- The file is not a document of its format with a table at its top. -/
  | unreadableFile
  /-- A value does not fit its setting. -/
  | wrongType
  deriving DecidableEq, Repr

/-! ## Reading sections -/

/-- The names of the sections and of their settings. -/
def serverNames : List String := ["host", "port"]
def graphNames : List String :=
  ["interval_secs", "ttl_multiplier", "topic", "memory_topic", "latency_topic"]
def logNames : List String := ["level"]

/-- The values of the settings of a section, in the order of their names. A section or a setting
that is missing or `null` gives no value. An array is a section if it has an item for every
setting. -/
def section? (names : List String) (t : Option Tree) : Except LoadError (List (Option Tree)) :=
  let given (t : Option Tree) : Option Tree :=
    match t with
    | some .null => none
    | t => t
  match given t with
  | none => .ok (names.map fun _ => none)
  | some (.table ms) => .ok (names.map fun n => given (ms.lookup n))
  | some (.array ts) =>
    if names.length ≤ ts.length then .ok ((ts.take names.length).map fun t => given (some t))
    else .error .wrongType
  | some _ => .error .wrongType

/-- The winning value of a setting, converted, or its default. -/
def convert {α : Type} (f : Tree → Option α) (default : α) (t : Option Tree) :
    Except LoadError α :=
  match t with
  | none => .ok default
  | some t =>
    match f t with
    | some a => .ok a
    | none => .error .wrongType

/-- The settings that a merged tree gives. -/
def ofTree (t : Tree) : Except LoadError Settings := do
  let d : Settings := {}
  let server ← section? serverNames (t.member? "server")
  let graph ← section? graphNames (t.member? "graph")
  let log ← section? logNames (t.member? "log")
  let setting (vs : List (Option Tree)) (i : Nat) : Option Tree := vs[i]?.join
  return {
    host := ← convert Tree.toText? d.host (setting server 0)
    port := ← convert (Tree.toBits? 16) d.port (setting server 1)
    graph := {
      interval := ← convert (Tree.toBits? 64) d.graph.interval (setting graph 0)
      idleBudget := ← convert (Tree.toBits? 32) d.graph.idleBudget (setting graph 1)
      topic := ← convert Tree.toText? d.graph.topic (setting graph 2)
      memoryTopic := ← convert Tree.toText? d.graph.memoryTopic (setting graph 3)
      latencyTopic := ← convert Tree.toText? d.graph.latencyTopic (setting graph 4) }
    level := ← convert Tree.toText? d.level (setting log 0) }

/-! ## Loading -/

/-- The path under which settings are looked for by default. -/
def defaultPath : String := "config/default"

/-- The members of the file of settings. A missing file has none. -/
def fileMembers (files : Files) (path : String) : Except LoadError (List (String × Tree)) :=
  match findFile files path with
  | none => .ok []
  | some (format, text) =>
    match format.read? text with
    | some ms => .ok ms
    | none => .error .unreadableFile

/-- Loads the settings from a file, which may be missing, and the environment. -/
def load (files : Files) (env : Environment) (path : String := defaultPath) :
    Except LoadError Settings := do
  let file ← fileMembers files path
  ofTree (setAll (setAll (.table []) file) (environmentMembers env))

end BrokerTopology.Settings
