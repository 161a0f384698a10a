import BrokerTopology.Json.Scan
/-!
# Reading JSON documents

Arrays and objects are read by two loops that take the reader of an item, or of a member, as an
argument. Reading a value of any shape is then one recursion on the depth to which containers may
still be nested. Values that nobody asked for are passed over in the same way.

The loops are bounded by a number that is no less than the length of the text: every turn reads at
least one character.
-/

namespace BrokerTopology.Json

/-! ## Arrays -/

/-- The items of an array after the first, up to the closing bracket. -/
def moreItems {α : Type} (item : Reader α) : Nat → Reader (List α)
  | 0 => fun _ => .error .unexpectedEnd
  | n + 1 => fun s =>
    match skipBlank s with
    | [] => .error .unexpectedEnd
    | ']' :: rest => .ok ([], rest)
    | ',' :: rest =>
      match skipBlank rest with
      | ']' :: _ => .error .trailingComma
      | rest => do
        let (x, rest) ← item rest
        let (xs, rest) ← moreItems item n rest
        return (x :: xs, rest)
    | _ => .error .expectedSeparator

/-- The items of an array; the opening bracket has been read. -/
def items {α : Type} (item : Reader α) (bound : Nat) : Reader (List α) := fun s =>
  match skipBlank s with
  | [] => .error .unexpectedEnd
  | ']' :: rest => .ok ([], rest)
  | s => do
    let (x, rest) ← item s
    let (xs, rest) ← moreItems item bound rest
    return (x :: xs, rest)

/-! ## Objects -/

/-- A value behind the colon that follows a member name. -/
def afterColon {α : Type} (value : Reader α) : Reader α := fun s =>
  match skipBlank s with
  | [] => .error .unexpectedEnd
  | ':' :: rest => value rest
  | _ => .error .expectedColon

/-- The members of an object after the first, up to the closing bracket. The state collects what has
been read; a step begins behind the member name. -/
def moreMembers {κ σ : Type} (name : Reader κ) (step : σ → κ → Reader σ) : Nat → σ → Reader σ
  | 0, _ => fun _ => .error .unexpectedEnd
  | n + 1, state => fun s =>
    match skipBlank s with
    | [] => .error .unexpectedEnd
    | '}' :: rest => .ok (state, rest)
    | ',' :: rest =>
      match skipBlank rest with
      | [] => .error .unexpectedEnd
      | '"' :: rest => do
        let (k, rest) ← name rest
        let (state, rest) ← step state k rest
        moreMembers name step n state rest
      | '}' :: _ => .error .trailingComma
      | _ => .error .expectedName
    | _ => .error .expectedSeparator

/-- The members of an object; the opening bracket has been read. -/
def members {κ σ : Type} (name : Reader κ) (step : σ → κ → Reader σ) (bound : Nat) (state : σ) :
    Reader σ :=
  fun s =>
    match skipBlank s with
    | [] => .error .unexpectedEnd
    | '}' :: rest => .ok (state, rest)
    | '"' :: rest => do
      let (k, rest) ← name rest
      let (state, rest) ← step state k rest
      moreMembers name step bound state rest
    | _ => .error .expectedName

/-! ## Any value -/

/-- A quoted text, behind the opening quote. -/
def textRest : Reader String := fun s => do
  let (cs, rest) ← textBody s
  return (String.ofList cs, rest)

/-- Reads a member into the list of members read so far, the latest first. -/
def memberStep (item : Reader Value) (ms : List (String × Value)) (name : String) :
    Reader (List (String × Value)) := fun s => do
  let (v, rest) ← afterColon item s
  return ((name, v) :: ms, rest)

/-- A value of any shape. The values inside an array or an object are read by `item`; without it
containers are refused. -/
def valueOver (item : Option (Reader Value)) : Reader Value := fun s =>
  match skipBlank s with
  | [] => .error .unexpectedEnd
  | 'n' :: rest => do return (.null, ← literal ['u', 'l', 'l'] rest)
  | 't' :: rest => do return (.bool true, ← literal ['r', 'u', 'e'] rest)
  | 'f' :: rest => do return (.bool false, ← literal ['a', 'l', 's', 'e'] rest)
  | '"' :: rest => do
    let (t, rest) ← textRest rest
    return (.text t, rest)
  | '-' :: rest => do
    let (n, rest) ← number true rest
    return (.number n, rest)
  | '[' :: rest =>
    match item with
    | none => .error .nestedTooDeep
    | some item => do
      let (vs, rest) ← items item rest.length rest
      return (.array vs, rest)
  | '{' :: rest =>
    match item with
    | none => .error .nestedTooDeep
    | some item => do
      let (ms, rest) ← members textRest (memberStep item) rest.length [] rest
      return (.object ms.reverse, rest)
  | c :: rest =>
    if c.isDigit then do
      let (n, rest) ← number false (c :: rest)
      return (.number n, rest)
    else .error .expectedValue

/-- A value of any shape in which containers are nested at most `depth` deep. -/
def value : Nat → Reader Value
  | 0 => valueOver none
  | depth + 1 => valueOver (some (value depth))

/-! ## Values that are passed over -/

/-- Passes over a value. The values inside an array or an object are passed over by `item`; without
it containers are refused. -/
def skipOver (bound : Nat) (item : Option (Reader Unit)) : Reader Unit := fun s =>
  match skipBlank s with
  | [] => .error .unexpectedEnd
  | 'n' :: rest => do return ((), ← literal ['u', 'l', 'l'] rest)
  | 't' :: rest => do return ((), ← literal ['r', 'u', 'e'] rest)
  | 'f' :: rest => do return ((), ← literal ['a', 'l', 's', 'e'] rest)
  | '"' :: rest => do return ((), ← skipText rest)
  | '-' :: rest => do return ((), ← skipNumber rest)
  | '[' :: rest =>
    match item with
    | none => .error .nestedTooDeep
    | some item => do
      let (_, rest) ← items item bound rest
      return ((), rest)
  | '{' :: rest =>
    match item with
    | none => .error .nestedTooDeep
    | some item =>
      members (fun s => do return ((), ← skipText s)) (fun _ _ => afterColon item) bound () rest
  | c :: rest =>
    if c.isDigit then do return ((), ← skipNumber (c :: rest)) else .error .expectedValue

/-- Passes over a value in a text of at most `size` characters, where containers are nested no deeper
than that. Inside a container at least one character less is left. -/
def skipWithin : Nat → Reader Unit
  | 0 => skipOver 0 none
  | size + 1 => skipOver size (some (skipWithin size))

/-- Passes over a value, however deep its containers are nested: no text holds more containers than
characters. -/
def skip : Reader Unit := fun s =>
  skipWithin s.length s

/-! ## Whole documents -/

/-- The depth to which the containers of a value that is kept may be nested. -/
def maxDepth : Nat := 127

/-- Reads a document to its end. -/
def document {α : Type} (reader : Reader α) (text : String) : Except Error α := do
  let (a, rest) ← reader text.toList
  if (skipBlank rest).isEmpty then return a else .error .trailingText

/-- Reads a document of any shape. -/
def Value.read (text : String) : Except Error Value :=
  document (value maxDepth) text

end BrokerTopology.Json
