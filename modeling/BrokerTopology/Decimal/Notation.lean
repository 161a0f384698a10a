import BrokerTopology.Decimal.Shortest
/-!
# Writing decimals

A decimal is written positionally or in scientific notation, and a double is also written with a
fixed number of places after the point.
-/

namespace BrokerTopology.Decimal

/-! ## Notations of a decimal -/

/-- All digits around the point, with zeros where they are needed. Without a fraction no point is
written. -/
def Scaled.positional (d : Scaled) : List Char :=
  let ds := d.digits
  let p := d.point
  if 0 ≤ d.exponent then ds ++ List.replicate d.exponent.toNat '0'
  else if 0 < p then ds.take p.toNat ++ '.' :: ds.drop p.toNat
  else '0' :: '.' :: (List.replicate (-p).toNat '0' ++ ds)

/-- One digit, the other digits after a point, and the power of ten with its sign. -/
def Scaled.scientific (d : Scaled) : List Char :=
  let e := d.point - 1
  let sign := if e < 0 then '-' else '+'
  let tail := 'e' :: sign :: Nat.toDigits 10 e.natAbs
  match d.digits with
  | [] => tail
  | [c] => c :: tail
  | c :: cs => c :: '.' :: (cs ++ tail)

/-! ## Notations of a double -/

/-- A minus sign in front of the text of a negative number. -/
def signed (negative : Bool) (text : List Char) : List Char :=
  if negative then '-' :: text else text

/-- The shortest digits of a double in positional notation, at every magnitude. -/
def display (x : Float) : String :=
  match meaning x with
  | .notANumber => "NaN"
  | .infinite negative => String.ofList (signed negative "inf".toList)
  | .finite b => String.ofList (signed b.negative (shortest b.mantissa b.exponent).positional)

/-- The quotient of two numbers rounded to the nearest integer, a half going to the even one. -/
def divHalfEven (a b : Nat) : Nat :=
  let q := a / b
  let r := a % b
  if 2 * r < b then q else if b < 2 * r then q + 1 else if q % 2 = 0 then q else q + 1

/-- The exact value of a double rounded to a number of places after the point, a half going to the
even neighbour. The sign stays, also when all digits are zero. -/
def fixed (places : Nat) (x : Float) : String :=
  match meaning x with
  | .notANumber => "NaN"
  | .infinite negative => String.ofList (signed negative "inf".toList)
  | .finite b =>
    let scaled := b.mantissa * Nat.pow 10 places * Nat.pow 2 b.exponent.toNat
    let n := divHalfEven scaled (Nat.pow 2 (-b.exponent).toNat)
    let ds := Nat.toDigits 10 (n % Nat.pow 10 places)
    let fraction := List.replicate (places - ds.length) '0' ++ ds
    let whole := Nat.toDigits 10 (n / Nat.pow 10 places)
    String.ofList (signed b.negative (if places = 0 then whole else whole ++ '.' :: fraction))

end BrokerTopology.Decimal
