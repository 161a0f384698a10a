/-!
# Trees of settings

A source of settings is a tree: tables hold named trees, and the leaves are scalars. A value is set
at a path of steps. Tables are merged into what is there; any other value replaces it.
-/

namespace BrokerTopology.Settings

/-- A tree of settings. `null` stands for a value that is given as missing. -/
inductive Tree where
  | null
  | bool (value : Bool)
  | int (value : Int)
  | float (value : Float)
  | text (value : String)
  | array (items : List Tree)
  | table (members : List (String × Tree))
  deriving Repr, Inhabited

/-- A step into a tree: to a member of a table or to an item of an array, counted from the end if
the number is negative. -/
inductive Step where
  | member (name : String)
  | item (index : Int)
  deriving DecidableEq, Repr

namespace Tree

/-- The members of a table; any other tree has none. -/
def members : Tree → List (String × Tree)
  | .table ms => ms
  | _ => []

/-- The items of an array; any other tree has none. -/
def items : Tree → List Tree
  | .array ts => ts
  | _ => []

/-- The member of a table with a given name. -/
def member? (t : Tree) (name : String) : Option Tree :=
  t.members.lookup name

/-- The members with the one of a given name changed, or added at the end. A new member starts as
`null`. -/
def alterMember (name : String) (f : Tree → Tree) : List (String × Tree) → List (String × Tree)
  | [] => [(name, f .null)]
  | m :: ms => if m.1 = name then (name, f m.2) :: ms else m :: alterMember name f ms

/-- The items with the one at a given place changed. Missing items up to it start as `null`. -/
def alterItem (f : Tree → Tree) (n : Nat) (ts : List Tree) : List Tree :=
  (ts ++ List.replicate (n + 1 - ts.length) Tree.null).modify n f

/-- The items with the one at an index changed. A negative index counts from the end; if it reaches
beyond the first item, `null` items are put in front until it names the first. -/
def alterIndex (f : Tree → Tree) (index : Int) (ts : List Tree) : List Tree :=
  if index < 0 then
    let back := index.natAbs
    alterItem f (ts.length - back) (List.replicate (back - ts.length) .null ++ ts)
  else alterItem f index.toNat ts

/-- Changes what is found at a path. A tree on the way that is not of the kind that the step asks for
is replaced by an empty one of that kind. -/
def alter : List Step → (Tree → Tree) → Tree → Tree
  | [], f, t => f t
  | .member name :: steps, f, t => .table (alterMember name (alter steps f) t.members)
  | .item index :: steps, f, t => .array (alterIndex (alter steps f) index t.items)

mutual

/-- Merges a tree over another one. -/
def overlay : Tree → Tree → Tree
  | .table ms, base => .table (overlayMembers ms base.members)
  | t, _ => t

/-- Merges the members of a table, one after the other, over the members of another one. -/
def overlayMembers : List (String × Tree) → List (String × Tree) → List (String × Tree)
  | [], base => base
  | (name, t) :: ms, base => overlayMembers ms (alterMember name (overlay t) base)

end

/-- Sets a value at a path. -/
def set (base : Tree) (path : List Step) (value : Tree) : Tree :=
  alter path (overlay value) base

end Tree

end BrokerTopology.Settings
