import BrokerTopology.Decimal.Notation
import BrokerTopology.Json.Value
/-!
# Writing JSON

Documents are written without blanks. In texts only the quote, the backslash and the control
characters below the space are escaped. Doubles are written with their shortest digits:
positionally, with at least one place after the point, from `10⁻⁵` up to `10¹⁶`, and in scientific
notation outside. Numbers that are not finite have no JSON text and are written as `null`.
-/

namespace BrokerTopology.Json

/-! ## Texts -/

/-- The lower-case hexadecimal digit of a number below 16. -/
def hexDigit (n : Nat) : Char :=
  Nat.digitChar n

/-- How one character of a text is written. -/
def escapeChar (c : Char) : List Char :=
  if c = '"' then ['\\', '"']
  else if c = '\\' then ['\\', '\\']
  else if c = '\n' then ['\\', 'n']
  else if c = '\r' then ['\\', 'r']
  else if c = '\t' then ['\\', 't']
  else if c = '\x08' then ['\\', 'b']
  else if c = '\x0c' then ['\\', 'f']
  else if c.toNat < 0x20 then
    ['\\', 'u', '0', '0', hexDigit (c.toNat / 16), hexDigit (c.toNat % 16)]
  else [c]

/-- The characters of a text between its quotes. -/
def escape (s : List Char) : List Char :=
  s.flatMap escapeChar

/-- A text in quotes. -/
def quote (s : String) : List Char :=
  '"' :: (escape s.toList ++ ['"'])

/-! ## Numbers -/

/-- A decimal as it stands in a document. -/
def renderScaled (d : Decimal.Scaled) : List Char :=
  if d.significand = 0 then ['0', '.', '0']
  else if -5 < d.point ∧ d.point ≤ 16 then
    d.positional ++ if 0 ≤ d.exponent then ['.', '0'] else []
  else d.scientific

/-- A number as it stands in a document. -/
def Number.render : Number → List Char
  | .int i => if i < 0 then '-' :: Nat.toDigits 10 i.natAbs else Nat.toDigits 10 i.natAbs
  | .float x =>
    match Decimal.meaning x with
    | .finite b => Decimal.signed b.negative (renderScaled (Decimal.shortest b.mantissa b.exponent))
    | _ => ['n', 'u', 'l', 'l']

/-! ## Values -/

mutual

/-- The text of a value. -/
def Value.render : Value → List Char
  | .null => ['n', 'u', 'l', 'l']
  | .bool true => ['t', 'r', 'u', 'e']
  | .bool false => ['f', 'a', 'l', 's', 'e']
  | .number n => n.render
  | .text s => quote s
  | .array items => '[' :: (renderItems items ++ [']'])
  | .object members => '{' :: (renderMembers members ++ ['}'])

/-- The texts of the items of an array, with commas between them. -/
def renderItems : List Value → List Char
  | [] => []
  | [v] => v.render
  | v :: vs => v.render ++ ',' :: renderItems vs

/-- The texts of the members of an object, with commas between them. -/
def renderMembers : List (String × Value) → List Char
  | [] => []
  | [(k, v)] => quote k ++ ':' :: v.render
  | (k, v) :: ms => quote k ++ ':' :: (v.render ++ ',' :: renderMembers ms)

end

/-- The document of a value. -/
def Value.write (v : Value) : String :=
  String.ofList v.render

end BrokerTopology.Json
