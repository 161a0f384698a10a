import BrokerTopology.Text.Blank
/-!
# Log levels

A level is named in the settings. Blanks around the name and the case of its letters do not
matter, and a name that is not known means `info`.
-/

namespace BrokerTopology

/-- How much is written to the log, from least to most. -/
inductive LogLevel where
  | error
  | warn
  | info
  | debug
  | trace
  deriving DecidableEq, Repr

namespace LogLevel

/-- The level that a name stands for. Only ASCII letters occur in the known names, so folding their
case is enough. -/
def ofName (name : String) : LogLevel :=
  match String.ofList ((Text.trimBlank name.toList).map Char.toLower) with
  | "error" => .error
  | "warn" => .warn
  | "warning" => .warn
  | "debug" => .debug
  | "trace" => .trace
  | _ => .info

/-- The word that stands at the head of a log line. -/
def word : LogLevel → String
  | .error => "ERROR"
  | .warn => "WARN"
  | .info => "INFO"
  | .debug => "DEBUG"
  | .trace => "TRACE"

/-- The rank of a level: a line is written when its rank is at most that of the level set. -/
def rank : LogLevel → Nat
  | .error => 0
  | .warn => 1
  | .info => 2
  | .debug => 3
  | .trace => 4

/-- Whether lines of level `line` are written while `set` is the level set. -/
def shows (set line : LogLevel) : Bool :=
  line.rank ≤ set.rank

end LogLevel

end BrokerTopology
