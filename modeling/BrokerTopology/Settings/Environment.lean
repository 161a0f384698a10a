import BrokerTopology.Decimal.Read
import BrokerTopology.Settings.Tree
import BrokerTopology.Word
/-!
# Settings in the environment

A variable whose name begins with the mark of the program sets a value; two underscores stand
between the parts of a path. Names are read in lower case. A value is a truth value, a whole number,
a double or, failing these, a text.
-/

namespace BrokerTopology.Settings

/-- An environment: names with their values, the latest last. -/
abbrev Environment := List (String × String)

/-- What the names of the variables begin with. -/
def variableMark : List Char :=
  "netgraph__".toList

/-- The value that a variable gives. -/
def variableValue (value : String) : Tree :=
  match String.ofList (value.toList.map Char.toLower) with
  | "true" => .bool true
  | "false" => .bool false
  | _ =>
    match (Decimal.integer? value.toList).filter Word.fitsSigned with
    | some i => .int i
    | none =>
      match Decimal.float? value.toList with
      | some x => .float x
      | none => .text value

/-- A key with a point in place of every two underscores. -/
def dotted : List Char → List Char
  | '_' :: '_' :: rest => '.' :: dotted rest
  | c :: rest => c :: dotted rest
  | [] => []

/-- The key that a variable sets, if its name bears the mark. -/
def variableKey? (name : String) : Option String :=
  let lower := name.toList.map Char.toLower
  if variableMark.isPrefixOf lower then
    some (String.ofList (dotted (lower.drop variableMark.length)))
  else none

/-- The keys that the environment sets, with their values. Of two variables with one key the latest
counts. -/
def environmentMembers (env : Environment) : List (String × Tree) :=
  env.foldl (fun ms e =>
    match variableKey? e.1 with
    | some k => Tree.alterMember k (fun _ => variableValue e.2) ms
    | none => ms) []

/-! ## Paths -/

/-- The characters of a step. -/
def isStepChar (c : Char) : Bool :=
  c.isAlphanum || c == '_' || c == '-'

/-- Whether a character is a blank within brackets. -/
def isStepBlank (c : Char) : Bool :=
  c == ' ' || c == '\t'

/-- An index behind its opening bracket, with the rest behind the closing one. Blanks may surround it,
and it fits a signed 64-bit word. -/
def indexStep? (s : List Char) : Option (Int × List Char) := do
  let (digits, rest) := (s.dropWhile isStepBlank).span fun c => c.isDigit || c == '-'
  let i ← (Decimal.integer? digits).filter Word.fitsSigned
  match rest.dropWhile isStepBlank with
  | ']' :: rest => some (i, rest)
  | _ => none

/-- The steps of a path that follow the first. -/
def moreSteps : Nat → List Char → Option (List Step)
  | _, [] => some []
  | 0, _ => none
  | n + 1, '.' :: rest =>
    let (name, rest) := rest.span isStepChar
    if name.isEmpty then none
    else (moreSteps n rest).map (Step.member (String.ofList name) :: ·)
  | n + 1, '[' :: rest => do
    let (i, rest) ← indexStep? rest
    return .item i :: (← moreSteps n rest)
  | _, _ => none

/-- The path that a key stands for. A key that is no path stands for the member of that name. -/
def keyPath (k : String) : List Step :=
  let (name, rest) := k.toList.span isStepChar
  if name.isEmpty then [.member k]
  else
    match moreSteps rest.length rest with
    | some steps => .member (String.ofList name) :: steps
    | none => [.member k]

/-- Sets the members of a source in a tree. -/
def setAll (base : Tree) (ms : List (String × Tree)) : Tree :=
  ms.foldl (fun t m => t.set (keyPath m.1) m.2) base

end BrokerTopology.Settings
