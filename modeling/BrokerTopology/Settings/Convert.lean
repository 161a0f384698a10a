import BrokerTopology.Decimal.Notation
import BrokerTopology.Decimal.Read
import BrokerTopology.Settings.Tree
import BrokerTopology.Word
/-!
# Converting scalars

A setting is a text or a natural number of limited size. Any scalar is converted to a text, and
truth values, numbers and texts are converted to natural numbers. Tables, arrays and missing values
are not converted.
-/

namespace BrokerTopology.Settings

/-- The text of a scalar. -/
def Tree.toText? : Tree → Option String
  | .text s => some s
  | .bool true => some "true"
  | .bool false => some "false"
  | .int i => some (toString i)
  | .float x => some (Decimal.display x)
  | _ => none

/-- A double rounded to a natural number of 64 bits, a half going up. What lies outside is brought to
the nearer end, and what is not a number to zero. -/
def floatToNat (x : Float) : Nat :=
  match Decimal.meaning x with
  | .notANumber => 0
  | .infinite negative => if negative then 0 else Word.largest 64
  | .finite b =>
    if b.negative then 0
    else if 0 ≤ b.exponent then min (b.mantissa * Nat.pow 2 b.exponent.toNat) (Word.largest 64)
    else min (Decimal.roundHalfUp b.mantissa (-b.exponent).toNat) (Word.largest 64)

/-- The natural number that a text stands for: a word for yes or no in letters of any case, or
digits. -/
def textToNat? (s : String) : Option Nat :=
  match String.ofList (s.toList.map Char.toLower) with
  | "true" => some 1
  | "on" => some 1
  | "yes" => some 1
  | "false" => some 0
  | "off" => some 0
  | "no" => some 0
  | _ => (Decimal.unsigned? s.toList).filter (· ≤ Word.largest 64)

/-- The natural number of a scalar. -/
def Tree.toNat? : Tree → Option Nat
  | .bool b => some b.toNat
  | .int i => if 0 ≤ i then some i.toNat else none
  | .float x => some (floatToNat x)
  | .text s => textToNat? s
  | _ => none

/-- The natural number of a scalar if it has at most a given number of bits. -/
def Tree.toBits? (bits : Nat) (t : Tree) : Option Nat :=
  t.toNat?.filter (· ≤ Word.largest bits)

end BrokerTopology.Settings
