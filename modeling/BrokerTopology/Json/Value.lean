/-!
# JSON values

A document is a value: a constant, a number, a text, an array, or an object whose members keep the
order in which they are written.
-/

namespace BrokerTopology.Json

/-- A number is whole when it is written without point and exponent and fits a 64-bit word, and a
double otherwise. -/
inductive Number where
  | int (value : Int)
  | float (value : Float)
  deriving DecidableEq, Repr

/-- A JSON value. -/
inductive Value where
  | null
  | bool (value : Bool)
  | number (value : Number)
  | text (value : String)
  | array (items : List Value)
  | object (members : List (String × Value))
  deriving Repr, Inhabited

namespace Value

/-- A whole number. -/
def int (i : Int) : Value :=
  .number (.int i)

/-- A double. -/
def float (x : Float) : Value :=
  .number (.float x)

/-- A value that may be missing, written as `null`. -/
def ofOption {α : Type} (f : α → Value) : Option α → Value
  | none => .null
  | some a => f a

/-- The first member of an object with a given name. -/
def member? (v : Value) (name : String) : Option Value :=
  match v with
  | .object ms => (ms.find? fun m => m.1 == name).map (·.2)
  | _ => none

end Value

/-- The double nearest to a number. -/
def Number.toFloat : Number → Float
  | .int i => Float.ofInt i
  | .float x => x

end BrokerTopology.Json
