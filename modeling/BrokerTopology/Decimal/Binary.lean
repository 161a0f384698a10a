/-!
# The value of a double

A finite double is a sign, a natural mantissa and a power of two. Everything exact that is said
about doubles (their digits, their rounding to an integer) is said on these three parts.
-/

namespace BrokerTopology.Decimal

/-- The number `± mantissa * 2 ^ exponent`. -/
structure Binary where
  negative : Bool
  mantissa : Nat
  exponent : Int
  deriving DecidableEq, Repr

/-- What a double stands for. -/
inductive Meaning where
  | notANumber
  | infinite (negative : Bool)
  | finite (value : Binary)
  deriving DecidableEq, Repr

/-- Reads the sign, the eleven exponent bits and the 52 fraction bits of a double. -/
def meaning (x : Float) : Meaning :=
  let bits := x.toBits.toNat
  let negative := Nat.pow 2 63 ≤ bits
  let e : Nat := bits / Nat.pow 2 52 % Nat.pow 2 11
  let fraction : Nat := bits % Nat.pow 2 52
  if e = 2047 then
    if fraction = 0 then .infinite negative else .notANumber
  else if e = 0 then .finite ⟨negative, fraction, -1074⟩
  else .finite ⟨negative, fraction + Nat.pow 2 52, (e : Int) - 1075⟩

/-- The nearest integer to `m / 2 ^ k`; a half goes up. -/
def roundHalfUp (m k : Nat) : Nat :=
  (2 * m + Nat.pow 2 k) / Nat.pow 2 (k + 1)

/-- The nearest integer to a double, a half going away from zero. The sign stays, also on zero. -/
def roundHalfAway (x : Float) : Float :=
  match meaning x with
  | .finite ⟨negative, m, e⟩ =>
    if 0 ≤ e then x
    else
      let r := Float.ofNat (roundHalfUp m (-e).toNat)
      if negative then -r else r
  | _ => x

end BrokerTopology.Decimal
