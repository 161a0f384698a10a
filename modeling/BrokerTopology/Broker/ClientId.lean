/-!
# Client ids

A client is given an id of 122 random bits, written as a version 4 UUID behind a mark.
-/

namespace BrokerTopology.ClientId

/-- A hexadecimal digit of an id: drawn at random, the fixed version, or the digit of the variant, of
which two bits are fixed. -/
inductive Slot where
  | random
  | version
  | variant
  deriving DecidableEq, Repr

/-- The groups of digits of an id. -/
def layout : List (List Slot) :=
  [List.replicate 8 .random, List.replicate 4 .random, .version :: List.replicate 3 .random,
    .variant :: List.replicate 3 .random, List.replicate 12 .random]

/-- The digit of a slot, given a number below 16. -/
def Slot.digit (s : Slot) (n : Nat) : Char :=
  match s with
  | .random => Nat.digitChar n
  | .version => '4'
  | .variant => Nat.digitChar (8 + n % 4)

/-- The digits of a group from a source of numbers below 16, and the rest of the source. -/
def groupDigits : List Slot → List Nat → List Char × List Nat
  | [], ns => ([], ns)
  | s :: ss, ns =>
    let (cs, rest) := groupDigits ss ns.tail
    (s.digit (ns.headD 0) :: cs, rest)

/-- The digits of all groups. -/
def allDigits : List (List Slot) → List Nat → List (List Char)
  | [], _ => []
  | g :: gs, ns =>
    let (cs, rest) := groupDigits g ns
    cs :: allDigits gs rest

/-- The id that is made of a source of random numbers below 16. -/
def ofRandom (digits : List Nat) : String :=
  String.ofList ("client-".toList ++ ['-'].intercalate (allDigits layout digits))

/-- What is the same in all ids, with `x` for a digit that differs. -/
def shape : String :=
  let mark (s : Slot) : Char := if s = .version then '4' else 'x'
  String.ofList ("client-".toList ++ ['-'].intercalate (layout.map fun g => g.map mark))

end BrokerTopology.ClientId
