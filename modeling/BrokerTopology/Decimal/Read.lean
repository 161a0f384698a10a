/-!
# Reading numbers

Numbers in the environment and in settings are read by two small grammars: whole numbers with an
optional sign, and decimals with an optional point, exponent and sign, next to the names of the
infinities and of the undefined number.
-/

namespace BrokerTopology.Decimal

/-! ## Digits -/

/-- The value of a decimal digit. -/
def digitValue (c : Char) : Nat :=
  c.toNat - '0'.toNat

/-- The number that a list of digits denotes, after the digits already read into `n`. -/
def ofDigits (n : Nat) (ds : List Char) : Nat :=
  ds.foldl (fun n c => 10 * n + digitValue c) n

/-- The digits at the front of a text, and the rest. -/
def spanDigits (s : List Char) : List Char × List Char :=
  s.span Char.isDigit

/-- An optional sign at the front of a text; `true` for a minus. -/
def sign? (s : List Char) : Bool × List Char :=
  match s with
  | '-' :: r => (true, r)
  | '+' :: r => (false, r)
  | _ => (false, s)

/-- A text of digits only, and at least one. -/
def natural? (s : List Char) : Option Nat :=
  if s.isEmpty || !s.all Char.isDigit then none else some (ofDigits 0 s)

/-- A whole number with an optional sign. -/
def integer? (s : List Char) : Option Int :=
  let (negative, r) := sign? s
  (natural? r).map fun n => if negative then -(n : Int) else n

/-- A natural number with an optional plus sign. -/
def unsigned? (s : List Char) : Option Nat :=
  match s with
  | '+' :: r => natural? r
  | _ => natural? s

/-! ## Decimals -/

/-- The exponent part of a decimal, which may be missing. -/
def exponent? (s : List Char) : Option Int :=
  match s with
  | [] => some 0
  | c :: r => if c = 'e' ∨ c = 'E' then integer? r else none

/-- The digits after the point, which may be missing with the point, and the rest. -/
def fractionDigits (s : List Char) : List Char × List Char :=
  match s with
  | '.' :: r => spanDigits r
  | _ => ([], s)

/-- The nearest double to a decimal without sign. -/
def magnitude? (s : List Char) : Option Float :=
  let (whole, r) := spanDigits s
  let (fraction, r) := fractionDigits r
  if whole.isEmpty && fraction.isEmpty then none
  else
    (exponent? r).map fun e =>
      let e : Int := e - (fraction.length : Int)
      Float.ofScientific (ofDigits 0 (whole ++ fraction)) (e < 0) e.natAbs

/-- The double that a text denotes: a decimal, or the name of an infinity or of the undefined number
in letters of any case, each with an optional sign. -/
def float? (s : List Char) : Option Float :=
  let (negative, r) := sign? s
  let found :=
    match String.ofList (r.map Char.toLower) with
    | "inf" => some (1.0 / 0.0)
    | "infinity" => some (1.0 / 0.0)
    | "nan" => some (0.0 / 0.0)
    | _ => magnitude? r
  found.map fun x => if negative then -x else x

end BrokerTopology.Decimal
