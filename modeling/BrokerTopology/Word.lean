/-!
# Words

The bounds of the whole numbers that fit a word of a given number of bits, and counters that are words.
-/

namespace BrokerTopology.Word

/-- The largest number of a word without a sign. -/
def largest (bits : Nat) : Nat :=
  Nat.pow 2 bits - 1

/-- Whether a number fits a signed word of 64 bits. -/
def fitsSigned (i : Int) : Bool :=
  -9223372036854775808 ≤ i && i < 9223372036854775808

/-- The bounds of a signed word. -/
theorem fitsSigned_iff (i : Int) :
    fitsSigned i = true ↔ -9223372036854775808 ≤ i ∧ i < 9223372036854775808 := by
  simp [fitsSigned]

/-! ## Counters -/

/-- A counter of 64 bits counts `n` more. It wraps around. -/
def count (counter : UInt64) (n : Nat) : UInt64 :=
  counter + .ofNat n

/-- What a counter shows is what has been counted, modulo the size of the word. -/
theorem toNat_count (counter : UInt64) (n : Nat) :
    (count counter n).toNat = (counter.toNat + n) % UInt64.size := by
  rw [count, UInt64.toNat_add, UInt64.toNat_ofNat', Nat.add_mod_mod]

/-- What a counter shows before and after it has counted `n` more: the sum modulo the size of the word,
which is the sum itself where that fits the word. -/
structure Counts (before n after : Nat) : Prop where
  wraps : after = (before + n) % UInt64.size
  fits : before + n < UInt64.size → after = before + n

/-- A counter counts. -/
theorem counts_count (counter : UInt64) (n : Nat) :
    Counts counter.toNat n (count counter n).toNat where
  wraps := toNat_count counter n
  fits := fun hfits => (toNat_count counter n).trans (Nat.mod_eq_of_lt hfits)

/-- Two numbers may be counted in either order. -/
theorem count_comm (counter : UInt64) (m n : Nat) :
    count (count counter m) n = count (count counter n) m := by
  rw [count, count, count, count, UInt64.add_assoc, UInt64.add_comm (.ofNat m), UInt64.add_assoc]

end BrokerTopology.Word
