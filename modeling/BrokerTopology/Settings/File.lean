import BrokerTopology.Json.Reader
import BrokerTopology.Toml.Document
/-!
# Files of settings

A file of settings is a TOML or a JSON document with a table at its top. It is found under the path
that is asked for, or under that path with the ending of a format. Paths lead through the folders in
which the files lie.
-/

namespace BrokerTopology.Settings

/-! ## Formats -/

/-- The formats of a file. -/
inductive Format where
  | toml
  | json
  deriving DecidableEq, Repr

/-- The ending of the files of a format. -/
def Format.ending : Format → String
  | .toml => ".toml"
  | .json => ".json"

/-- All formats, in the order in which they are looked for. -/
def Format.all : List Format := [.toml, .json]

/-- A JSON number as a setting. -/
def ofNumber : Json.Number → Tree
  | .int i => .int i
  | .float x => .float x

mutual

/-- A JSON value as a tree of settings. Of two members with one name the last counts. -/
def ofJson : Json.Value → Tree
  | .null => .null
  | .bool b => .bool b
  | .number n => ofNumber n
  | .text s => .text s
  | .array vs => .array (itemsOfJson vs)
  | .object ms => .table (membersOfJson ms [])

/-- The items of a JSON array as trees of settings. -/
def itemsOfJson : List Json.Value → List Tree
  | [] => []
  | v :: vs => ofJson v :: itemsOfJson vs

/-- The members of a JSON object as trees of settings, set one after the other. -/
def membersOfJson : List (String × Json.Value) → List (String × Tree) → List (String × Tree)
  | [], acc => acc
  | (k, v) :: ms, acc => membersOfJson ms (Tree.alterMember k (fun _ => ofJson v) acc)

end

/-- A text without the byte order mark at its front. -/
def dropMark (text : String) : String :=
  match text.toList with
  | c :: rest => if c.toNat = 0xFEFF then String.ofList rest else text
  | [] => text

/-- The members of the table at the top of a document. A TOML document may begin with a byte order
mark of its own. -/
def Format.read? (f : Format) (text : String) : Option (List (String × Tree)) :=
  let tree :=
    match f with
    | .toml => Toml.read? (dropMark text)
    | .json => (Json.Value.read text).toOption.map ofJson
  match tree with
  | some (.table ms) => some ms
  | _ => none

/-! ## Finding a file -/

/-- Files by their names. -/
abbrev Files := List (String × String)

/-- Whether a step of a path stays where it is. -/
def isIdle (step : String) : Bool :=
  step == "" || step == "."

/-- The steps of a path, without those that stay where they are. -/
def pathSteps (path : List String) : List String :=
  path.filter fun p => !isIdle p

/-- Files by the steps of their paths. Of two files with one path the later one counts. -/
def placed (files : Files) : List (List String × String) :=
  (files.map fun f => (pathSteps (f.1.splitOn "/"), f.2)).reverse

/-- Whether there is a file in a folder or below it. -/
def isFolder (files : Files) (folder : List String) : Bool :=
  (placed files).any fun f => folder.isPrefixOf f.1 && folder.length < f.1.length

/-- Walks down the steps of a path from folder to folder; two points lead back up. Every folder on
the way has to be there, and nothing is known of what lies above the first. -/
def walk (files : Files) : List String → List String → Option (List String)
  | folder, [] => some folder
  | folder, step :: steps =>
    if step = ".." then
      if folder.isEmpty then none else walk files folder.dropLast steps
    else if isFolder files (folder ++ [step]) then walk files (folder ++ [step]) steps
    else none

/-- The text of the file of a given name in the folder that a path leads to. -/
def fileIn (files : Files) (path : List String) (name : String) : Option String := do
  let folder ← walk files [] (pathSteps path)
  (placed files).lookup (folder ++ [name])

/-- The format that the name of a file tells by its ending. An ending alone is no name with an
ending. -/
def Format.ofName? (name : String) : Option Format :=
  Format.all.find? fun f => name.endsWith f.ending && name != f.ending

/-- The path without what follows its last name, split into the path to that name and the name. There
is no last name if nothing or two points stand last. -/
def splitName (path : List String) : Option (List String × String) := do
  let named := (path.reverse.dropWhile isIdle).reverse
  let name ← named.getLast?
  if name = ".." then none else some (named.dropLast, name)

/-- The file that is meant by a path, with its format. A file with just that path is taken if its
name tells a format, and hides all others. Otherwise the ending of a format completes the path, and
the first file that is found counts. Files are found only under paths that begin at the folder of
the program. -/
def findFile (files : Files) (path : String) : Option (Format × String) := do
  let steps := path.splitOn "/"
  if path.startsWith "/" then none
  let last := steps.getLast?.filter fun p => !(isIdle p || p == "..")
  let exact := last.bind (fileIn files steps.dropLast)
  match exact with
  | some text => return (← Format.ofName? (steps.getLastD ""), dropMark text)
  | none =>
    let (folder, name) ← splitName steps
    Format.all.findSome? fun f =>
      (fileIn files folder (name ++ f.ending)).map fun text => (f, dropMark text)

end BrokerTopology.Settings
