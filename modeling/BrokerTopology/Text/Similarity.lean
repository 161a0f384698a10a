/-!
# Similar words

The Jaro similarity of two words, and the words of a list that are similar to a given one. Two
characters match when they are equal and their places differ by less than half the longer word.
-/

namespace BrokerTopology.Text

/-- The words with a mark on the characters that have been matched. -/
abbrev Marked := List (Char × Bool)

/-- Marks the first free occurrence of a character between two places, if there is one. -/
def markFirst (c : Char) (lower upper : Nat) : Nat → Marked → Option Marked
  | _, [] => none
  | j, (d, used) :: rest =>
    if upper ≤ j then none
    else if lower ≤ j ∧ c = d ∧ !used then some ((d, true) :: rest)
    else (markFirst c lower upper (j + 1) rest).map ((d, used) :: ·)

/-- Matches the characters of a word from place `i` on, and gives back both words with their
marks. -/
def matchWords (range : Nat) : Nat → List Char → Marked → Marked × Marked
  | _, [], b => ([], b)
  | i, c :: cs, b =>
    match markFirst c (i - range) (i + range + 1) 0 b with
    | some b =>
      let (a, b) := matchWords range (i + 1) cs b
      ((c, true) :: a, b)
    | none =>
      let (a, b) := matchWords range (i + 1) cs b
      ((c, false) :: a, b)

/-- The marked characters of a word. -/
def marked (w : Marked) : List Char :=
  (w.filter (·.2)).map (·.1)

/-- The Jaro similarity of two words, between 0 and 1. -/
def jaro (a b : List Char) : Float :=
  if a.isEmpty ∧ b.isEmpty then 1
  else if a.isEmpty ∨ b.isEmpty then 0
  else
    let range := max a.length b.length / 2 - 1
    let (ma, mb) := matchWords range 0 a (b.map (·, false))
    let xs := marked ma
    let ys := marked mb
    let m := xs.length
    let swaps := ((xs.zip ys).filter fun p => p.1 != p.2).length / 2
    if m = 0 then 0
    else
      (Float.ofNat m / Float.ofNat a.length + Float.ofNat m / Float.ofNat b.length +
        Float.ofNat (m - swaps) / Float.ofNat m) / 3

/-- Files a word by its similarity, the least similar first. -/
def fileSimilar (x : Float) (w : String) : List (Float × String) → List (Float × String)
  | [] => [(x, w)]
  | e :: es => if e.1 < x then e :: fileSimilar x w es else (x, w) :: e :: es

/-- The words that are more than 0.7 similar to a given one, the most similar last. -/
def similarWords (w : String) (words : List String) : List String :=
  let found := words.foldl (fun acc v =>
    let x := jaro w.toList v.toList
    if x > 0.7 then fileSimilar x v acc else acc) []
  found.map (·.2)

end BrokerTopology.Text
