import BrokerTopology.Decimal.Binary
/-!
# The shortest decimal of a double

Of all decimals that read back as a given double, the one with the fewest digits is written, and
of those the nearest to the double. The reals that read back as the double form an interval around
it. The double and the two ends of the interval are brought to a common power of ten; then the grids
of one digit, two digits and so on are tried in turn, and the first grid with a point in the interval
wins.
-/

namespace BrokerTopology.Decimal

/-- The number `significand * 10 ^ exponent`. -/
structure Scaled where
  significand : Nat
  exponent : Int
  deriving DecidableEq, Repr

/-- The digits of the significand, most significant first. -/
def Scaled.digits (d : Scaled) : List Char :=
  Nat.toDigits 10 d.significand

/-- The place of the decimal point, counted from the front of the digits. -/
def Scaled.point (d : Scaled) : Int :=
  d.digits.length + d.exponent

/-- Moves the zeros at the end of the significand into the exponent; `n` bounds their number. -/
def Scaled.stripZeros : Nat → Scaled → Scaled
  | 0, d => d
  | n + 1, d =>
    if d.significand % 10 = 0 then stripZeros n ⟨d.significand / 10, d.exponent + 1⟩ else d

/-! ## The interval of a double -/

/-- A positive number and the ends of the interval of reals that read back as it, as natural
multiples of one power of ten. -/
structure Interval where
  low : Nat
  value : Nat
  high : Nat
  closed : Bool
  exponent : Int
  deriving DecidableEq, Repr

/-- The interval reaches half way to the two neighbours of the double. The lower neighbour is twice
as near when the mantissa is the least one of its exponent. The ends read back as the double when its
mantissa is even. -/
def Interval.of (m : Nat) (e : Int) : Interval :=
  let below := if m = Nat.pow 2 52 ∧ -1074 < e then 1 else 2
  let quarter := e - 2
  let unit := if 0 ≤ quarter then Nat.pow 2 quarter.toNat else Nat.pow 5 (-quarter).toNat
  { low := (4 * m - below) * unit
    value := 4 * m * unit
    high := (4 * m + 2) * unit
    closed := m % 2 = 0
    exponent := min quarter 0 }

/-- Whether a multiple of the common power of ten lies in the interval. -/
def Interval.holds (i : Interval) (n : Nat) : Bool :=
  if i.closed then i.low ≤ n && n ≤ i.high else i.low < n && n < i.high

/-- The point of the grid of multiples of `unit` that lies in the interval and is nearest to its
value. Of two points equally near the one with the even multiple is taken. -/
def Interval.nearest? (i : Interval) (unit : Nat) : Option Nat :=
  let k := i.value / unit
  let down := k * unit
  let up := down + unit
  match i.holds down, i.holds up with
  | true, true =>
    if i.value - down < up - i.value then some k
    else if up - i.value < i.value - down then some (k + 1)
    else some (if k % 2 = 0 then k else k + 1)
  | true, false => some k
  | false, true => some (k + 1)
  | false, false => none

/-- The point of the interval on the grid of `n` digits. -/
def Interval.onGrid? (i : Interval) (n : Nat) : Option Scaled :=
  let spare := (Nat.toDigits 10 i.value).length - n
  (i.nearest? (Nat.pow 10 spare)).map fun k => ⟨k, i.exponent + spare⟩

/-- The shortest decimal of `m * 2 ^ e`. Seventeen digits always suffice. -/
def shortest (m : Nat) (e : Int) : Scaled :=
  if m = 0 then ⟨0, 0⟩
  else
    let i := Interval.of m e
    let found := (List.range 17).findSome? fun n => i.onGrid? (n + 1)
    let d := found.getD ⟨i.value, i.exponent⟩
    d.stripZeros d.digits.length

end BrokerTopology.Decimal
