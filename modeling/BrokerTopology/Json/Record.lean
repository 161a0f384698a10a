import BrokerTopology.Json.Reader
/-!
# Reading records

A record is written as an object with named fields in any order, or as an array of its fields in
declared order. Fields that are not known are passed over, a known field may stand only once.

A plain record is checked while it is read, so of several faults the first in reading order counts.
It is given back as an object with all its fields in declared order. A tagged record is a choice of
records: one more field, or the first item of the array, names the variant. As the name may stand
last, such a record is first read as it is, and its fields are checked afterwards.
-/

namespace BrokerTopology.Json

/-! ## Fields -/

/-- What happens when a field is missing. -/
inductive Presence where
  /-- The record is refused. -/
  | required
  /-- In an object the field counts as `null`; an array is refused. -/
  | nullable
  /-- The field has this value. -/
  | defaulted (value : Value)
  deriving Repr

/-- The value of a field that is missing from an object. -/
def Presence.inObject (p : Presence) (name : String) : Except Error Value :=
  match p with
  | .required => .error (.missingField name)
  | .nullable => .ok .null
  | .defaulted v => .ok v

/-- The value of a field before which an array ends. -/
def Presence.inArray (p : Presence) : Except Error Value :=
  match p with
  | .required => .error .wrongLength
  | .nullable => .error .wrongLength
  | .defaulted v => .ok v

/-- A field of a plain record: its name, the reader of its value, and what its absence means. -/
structure Field where
  name : String
  read : Reader Value
  presence : Presence := .required

/-! ## Scalars -/

/-- A value of another type than the one asked for. A scalar is read first, and what is wrong with
it counts first. -/
def mismatch {α : Type} : Reader α := fun s =>
  match skipBlank s with
  | '[' :: _ => .error .wrongType
  | '{' :: _ => .error .wrongType
  | s => do
    let _ ← valueOver none s
    .error .wrongType

/-- A text. -/
def asText : Reader Value := fun s =>
  match skipBlank s with
  | '"' :: rest => do
    let (t, rest) ← textRest rest
    return (.text t, rest)
  | _ => mismatch s

/-- A truth value. -/
def asBool : Reader Value := fun s =>
  match skipBlank s with
  | 't' :: rest => do return (.bool true, ← literal ['r', 'u', 'e'] rest)
  | 'f' :: rest => do return (.bool false, ← literal ['a', 'l', 's', 'e'] rest)
  | _ => mismatch s

/-- A number with a reader's view of it. -/
def asNumber (view : Number → Except Error Value) : Reader Value := fun s =>
  let finish (p : Number × List Char) : Except Error (Value × List Char) := do
    return (← view p.1, p.2)
  match skipBlank s with
  | '-' :: rest => number true rest >>= finish
  | c :: rest => if c.isDigit then number false (c :: rest) >>= finish else mismatch s
  | [] => mismatch s

/-- A whole number that fits a signed 64-bit word. -/
def asInt : Reader Value :=
  asNumber fun n =>
    match n with
    | .int i => if Word.fitsSigned i then .ok (.int i) else .error .wrongType
    | .float _ => .error .wrongType

/-- A number as a double. -/
def asFloat : Reader Value :=
  asNumber fun n => .ok (.float n.toFloat)

/-- A value or `null`. -/
def orNull (read : Reader Value) : Reader Value := fun s =>
  match skipBlank s with
  | 'n' :: rest => do return (.null, ← literal ['u', 'l', 'l'] rest)
  | _ => read s

/-- An array of values of one shape. -/
def asArray (read : Reader Value) : Reader Value := fun s =>
  match skipBlank s with
  | '[' :: rest => do
    let (vs, rest) ← items read rest.length rest
    return (.array vs, rest)
  | _ => mismatch s

/-! ## Plain records -/

/-- Reads a member of a record into the fields read so far. -/
def recordStep (fields : List Field) (got : List (String × Value)) (name : String) :
    Reader (List (String × Value)) := fun s =>
  match fields.find? fun f => f.name == name with
  | none => do
    let (_, rest) ← afterColon skip s
    return (got, rest)
  | some f =>
    if (got.lookup name).isSome then .error (.repeatedField name)
    else do
      let (v, rest) ← afterColon f.read s
      return ((name, v) :: got, rest)

/-- All fields in declared order, from the ones that were read. -/
def completeObject (fields : List Field) (got : List (String × Value)) :
    Except Error (List (String × Value)) :=
  fields.mapM fun f =>
    match got.lookup f.name with
    | some v => .ok (f.name, v)
    | none => (f.presence.inObject f.name).map fun v => (f.name, v)

/-- The fields of an array after the first, with the commas between them, up to the closing bracket.
When no field is left only the bracket is accepted. -/
def moreFields : List Field → Reader (List (String × Value))
  | [] => fun s =>
    match skipBlank s with
    | [] => .error .unexpectedEnd
    | ']' :: rest => .ok ([], rest)
    | _ => .error .trailingText
  | f :: fs => fun s =>
    match skipBlank s with
    | [] => .error .unexpectedEnd
    | ']' :: rest => do
      let vs ← (f :: fs).mapM fun f => f.presence.inArray.map fun v => (f.name, v)
      return (vs, rest)
    | ',' :: rest =>
      match skipBlank rest with
      | ']' :: _ => .error .trailingComma
      | rest => do
        let (v, rest) ← f.read rest
        let (vs, rest) ← moreFields fs rest
        return ((f.name, v) :: vs, rest)
    | _ => .error .expectedSeparator

/-- The fields of an array; the opening bracket has been read. -/
def arrayFields : List Field → Reader (List (String × Value))
  | [] => moreFields []
  | f :: fs => fun s =>
    match skipBlank s with
    | [] => .error .unexpectedEnd
    | ']' :: rest => do
      let vs ← (f :: fs).mapM fun f => f.presence.inArray.map fun v => (f.name, v)
      return (vs, rest)
    | s => do
      let (v, rest) ← f.read s
      let (vs, rest) ← moreFields fs rest
      return ((f.name, v) :: vs, rest)

/-- A plain record, as an object with its fields in declared order. -/
def asRecord (fields : List Field) : Reader Value := fun s =>
  match skipBlank s with
  | '{' :: rest => do
    let (got, rest) ← members textRest (recordStep fields) rest.length [] rest
    let ms ← completeObject fields got
    return (.object ms, rest)
  | '[' :: rest => do
    let (ms, rest) ← arrayFields fields rest
    return (.object ms, rest)
  | _ => mismatch s

/-! ## Tagged records -/

/-- A tagged record as it is read: the variant, and the other members or items. -/
structure Tagged where
  variant : String
  content : Value
  deriving Repr

/-- The name of a variant. -/
def variantName (variants : List String) : Reader String := fun s =>
  match skipBlank s with
  | '"' :: rest => do
    let (t, rest) ← textRest rest
    if variants.contains t then return (t, rest) else .error (.unknownVariant t)
  | _ => mismatch s

/-- Reads a member of a tagged record: the tag, which may stand only once, or any other member. -/
def taggedStep (tag : String) (variants : List String)
    (state : Option String × List (String × Value)) (name : String) :
    Reader (Option String × List (String × Value)) := fun s =>
  if name = tag then
    if state.1.isSome then .error (.repeatedField tag)
    else do
      let (t, rest) ← afterColon (variantName variants) s
      return ((some t, state.2), rest)
  else do
    let (v, rest) ← afterColon (value (maxDepth - 1)) s
    return ((state.1, (name, v) :: state.2), rest)

/-- A tagged record. -/
def asTagged (tag : String) (variants : List String) : Reader Tagged := fun s =>
  match skipBlank s with
  | '{' :: rest => do
    let ((t, ms), rest) ← members textRest (taggedStep tag variants) rest.length (none, []) rest
    match t with
    | some t => return (⟨t, .object ms.reverse⟩, rest)
    | none => .error (.missingField tag)
  | '[' :: rest =>
    match skipBlank rest with
    | [] => .error .unexpectedEnd
    | ']' :: _ => .error (.missingField tag)
    | rest => do
      let (t, rest) ← variantName variants rest
      let (vs, rest) ← moreItems (value (maxDepth - 1)) rest.length rest
      return (⟨t, .array vs⟩, rest)
  | _ => mismatch s

/-- A field of a variant: its name, the test that its value has to pass, and what its absence
means. -/
structure VariantField where
  name : String
  admits : Value → Bool
  presence : Presence := .required

/-- Whether a value is a text. -/
def Value.isText : Value → Bool
  | .text _ => true
  | _ => false

/-- Whether a value is a truth value. -/
def Value.isBool : Value → Bool
  | .bool _ => true
  | _ => false

/-- Whether a value is a whole number that fits a signed 64-bit word. -/
def Value.isInt : Value → Bool
  | .number (.int i) => Word.fitsSigned i
  | _ => false

/-- A value that has passed the test of its field. -/
def VariantField.check (f : VariantField) (v : Value) : Except Error (String × Value) :=
  if f.admits v then .ok (f.name, v) else .error .wrongType

/-- The value of a field among the members of an object. -/
def VariantField.fromMembers (f : VariantField) (ms : List (String × Value)) :
    Except Error (String × Value) :=
  match ms.filter fun m => m.1 == f.name with
  | [] => (f.presence.inObject f.name).map fun v => (f.name, v)
  | [m] => f.check m.2
  | _ => .error (.repeatedField f.name)

/-- The values of the fields from the items of an array. -/
def fromItems : List VariantField → List Value → Except Error (List (String × Value))
  | [], [] => .ok []
  | [], _ :: _ => .error .wrongLength
  | f :: fs, [] => do
    let v ← f.presence.inArray
    return (f.name, v) :: (← fromItems fs [])
  | f :: fs, v :: vs => do
    let m ← f.check v
    return m :: (← fromItems fs vs)

/-- The fields of a variant in declared order. -/
def variantFields (fields : List VariantField) (content : Value) :
    Except Error (List (String × Value)) :=
  match content with
  | .object ms => fields.mapM fun f => f.fromMembers ms
  | .array vs => fromItems fields vs
  | _ => .error .wrongType

end BrokerTopology.Json
