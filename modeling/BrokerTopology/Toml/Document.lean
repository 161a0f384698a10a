import BrokerTopology.Toml.Scalar
/-!
# TOML documents

A document is a sequence of statements: a header opens a table or a new item of an array of tables,
and an assignment gives a value to a key of the table that is open. A table may be opened by a header
only once, and a table that is written in braces or built by dotted keys stays closed to others.
-/

namespace BrokerTopology.Toml

open Settings (Tree)

/-! ## Nodes under construction -/

/-- How a table has come to be. An implicit table is one on the way to another; a dotted one is on
the way of a dotted key. -/
structure Origin where
  isImplicit : Bool
  isDotted : Bool
  deriving DecidableEq, Repr

/-- A table that is named by a header, or is the whole document. -/
def Origin.explicit : Origin := ⟨false, false⟩

/-- A document under construction. -/
inductive Node where
  | leaf (value : Tree)
  | table (origin : Origin) (members : List (String × Node))
  /-- An array of tables. -/
  | tables (items : List Node)
  deriving Inhabited

mutual

/-- The value of a node. -/
def Node.toTree : Node → Tree
  | .leaf t => t
  | .table _ ms => .table (membersToTree ms)
  | .tables ns => .array (nodesToTree ns)

/-- The values of the members of a table. -/
def membersToTree : List (String × Node) → List (String × Tree)
  | [] => []
  | (k, n) :: ms => (k, n.toTree) :: membersToTree ms

/-- The values of the items of an array of tables. -/
def nodesToTree : List Node → List Tree
  | [] => []
  | n :: ns => n.toTree :: nodesToTree ns

end

/-- A step of construction inside a table. -/
abbrev Construct := Origin → List (String × Node) → Option (List (String × Node))

/-- The members with the node of a key replaced. -/
def replaceMember (key : String) (n : Node) (ms : List (String × Node)) : List (String × Node) :=
  ms.map fun m => if m.1 = key then (key, n) else m

/-- Goes down a path, making tables that are missing, and constructs at its end. The last item of an
array of tables is the one that is open. Dotted keys do not enter tables that a header has
opened. -/
def descend (dotted : Bool) : List String → Construct → Construct
  | [], f, origin, ms => f origin ms
  | k :: ks, f, _, ms =>
    match ms.lookup k with
    | none => do
      let inner ← descend dotted ks f ⟨true, dotted⟩ []
      return ms ++ [(k, .table ⟨true, dotted⟩ inner)]
    | some (.leaf _) => none
    | some (.table origin inner) =>
      if dotted && !origin.isImplicit then none
      else do
        let inner ← descend dotted ks f origin inner
        return replaceMember k (.table origin inner) ms
    | some (.tables items) =>
      match items.getLast? with
      | some (.table origin inner) => do
        let inner ← descend dotted ks f origin inner
        return replaceMember k (.tables (items.dropLast ++ [.table origin inner])) ms
      | _ => none

/-- Gives a value to a key that has none, at the end of a dotted path. The path ends in a table that
no header has opened. -/
def assign (path : List String) (key : String) (value : Tree) : Construct :=
  descend true path fun origin ms =>
    if (path ≠ [] ∧ !origin.isImplicit) ∨ (ms.lookup key).isSome then none
    else some (ms ++ [(key, .leaf value)])

/-- Opens a table. One that is implicit becomes explicit. -/
def openTable (key : String) : Construct := fun _ ms =>
  match ms.lookup key with
  | none => some (ms ++ [(key, .table .explicit [])])
  | some (.table ⟨true, false⟩ inner) => some (replaceMember key (.table .explicit inner) ms)
  | some _ => none

/-- Opens a new item of an array of tables. -/
def openItem (key : String) : Construct := fun _ ms =>
  let item := Node.table .explicit []
  match ms.lookup key with
  | none => some (ms ++ [(key, .tables [item])])
  | some (.tables items) => some (replaceMember key (.tables (items ++ [item])) ms)
  | some _ => none

/-! ## Keys -/

/-- The characters of a key without quotes. -/
def isKeyChar (c : Char) : Bool :=
  c.isAlphanum || c == '_' || c == '-'

/-- One part of a key. -/
def simpleKey : Reader String := fun s =>
  match s with
  | '"' :: _ => quotedLine s
  | '\'' :: _ => quotedLine s
  | _ =>
    let (k, rest) := s.span isKeyChar
    if k.isEmpty then none else some (String.ofList k, rest)

/-- The parts of a key that follow the first. -/
def moreKeys : Nat → Reader (List String)
  | 0, s => some ([], s)
  | n + 1, s =>
    match skipBlank s with
    | '.' :: rest => do
      let (k, rest) ← simpleKey (skipBlank rest)
      let (ks, rest) ← moreKeys n rest
      return (k :: ks, rest)
    | s => some ([], s)

/-- The number to which nesting is limited: that of the parts of a key, and that of the arrays and
tables around a value. -/
def maxDepth : Nat := 80

/-- A key: the path to its last part, and that part. -/
def key : Reader (List String × String) := fun s => do
  let (k, rest) ← simpleKey (skipBlank s)
  let (ks, rest) ← moreKeys rest.length rest
  if maxDepth < (k :: ks).length then none
  match (k :: ks).getLast? with
  | some last => return (((k :: ks).dropLast, last), rest)
  | none => none

/-! ## Values -/

/-- The items of an array, behind the opening bracket or a comma. -/
def arrayItems (item : Reader Tree) : Nat → Reader (List Tree)
  | 0, _ => none
  | n + 1, s => do
    match ← skipLines s.length s with
    | ']' :: rest => return ([], rest)
    | s =>
      let (v, rest) ← item s
      match ← skipLines rest.length rest with
      | ',' :: rest => do
        let (vs, rest) ← arrayItems item n rest
        return (v :: vs, rest)
      | ']' :: rest => return ([v], rest)
      | _ => none

/-- The assignments of a table in braces, behind the opening brace or a comma. Line ends and comments
may stand between any two parts of an assignment. -/
def inlineMembers (item : Reader Tree) : Nat → List (String × Node) → Reader (List (String × Node))
  | 0, _, _ => none
  | n + 1, ms, s => do
    match ← skipLines s.length s with
    | '\x7d' :: rest => return (ms, rest)
    | s =>
      let ((path, k), rest) ← key s
      match ← skipLines rest.length rest with
      | '=' :: rest =>
        let (v, rest) ← item (← skipLines rest.length rest)
        let ms ← assign path k v .explicit ms
        match ← skipLines rest.length rest with
        | ',' :: rest => inlineMembers item n ms rest
        | '\x7d' :: rest => return (ms, rest)
        | _ => none
      | _ => none

/-- A value. The values inside an array or a table are read by `item`; without it they are
refused. -/
def valueOver (item : Option (Reader Tree)) : Reader Tree := fun s =>
  match s with
  | '"' :: _ => (quoted s).map fun p => (.text p.1, p.2)
  | '\'' :: _ => (quoted s).map fun p => (.text p.1, p.2)
  | '[' :: rest => do
    let (vs, rest) ← arrayItems (← item) (rest.length + 1) rest
    return (.array vs, rest)
  | '\x7b' :: rest => do
    let (ms, rest) ← inlineMembers (← item) (rest.length + 1) [] rest
    return ((Node.table .explicit ms).toTree, rest)
  | _ =>
    let (w, rest) := word s
    (wordValue? w).map fun v => (v, rest)

/-- A value in which arrays and tables are nested at most `depth` deep. -/
def value : Nat → Reader Tree
  | 0 => valueOver none
  | depth + 1 => valueOver (some (value depth))

/-! ## Statements -/

/-- The state of reading: the members of the whole document, and the path of the open table. -/
structure State where
  members : List (String × Node)
  path : List String

/-- A header with its closing brackets, of which there are `n`. -/
def header (n : Nat) : Reader (List String × String) := fun s => do
  let (k, rest) ← key s
  let rest := skipBlank rest
  if rest.take n = List.replicate n ']' then return (k, rest.drop n) else none

/-- A statement and its effect. -/
def statement (st : State) : Reader State := fun s =>
  match s with
  | '[' :: '[' :: rest => do
    let ((path, k), rest) ← header 2 rest
    let ms ← descend false path (openItem k) .explicit st.members
    return (⟨ms, path ++ [k]⟩, rest)
  | '[' :: rest => do
    let ((path, k), rest) ← header 1 rest
    let ms ← descend false path (openTable k) .explicit st.members
    return (⟨ms, path ++ [k]⟩, rest)
  | _ => do
    let ((path, k), rest) ← key s
    match skipBlank rest with
    | '=' :: rest => do
      let (v, rest) ← value maxDepth (skipBlank rest)
      let ms ← descend false st.path (assign path k v) .explicit st.members
      return (⟨ms, st.path⟩, rest)
    | _ => none

/-- The statements of a document, each on a line of its own. -/
def statements : Nat → State → List Char → Option State
  | 0, _, _ => none
  | n + 1, st, s => do
    match ← skipLines s.length s with
    | [] => return st
    | s =>
      let (st, rest) ← statement st s
      statements n st (← skipToLineEnd rest)

/-- The table that a document describes, or nothing if it is not well formed. -/
def read? (text : String) : Option Tree := do
  let s := text.toList
  let st ← statements (s.length + 1) ⟨[], []⟩ s
  return (Node.table .explicit st.members).toTree

end BrokerTopology.Toml
