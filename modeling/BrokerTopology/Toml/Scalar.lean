import BrokerTopology.Decimal.Read
import BrokerTopology.Settings.Tree
import BrokerTopology.Toml.Text
import BrokerTopology.Word
/-!
# Scalars of TOML

Truth values, whole numbers, decimals and points in time are words without quotes. A point in time
is kept as its text, brought to one form.
-/

namespace BrokerTopology.Toml

open Settings (Tree)

/-! ## Digits -/

/-- Digits with single underscores between them, without the underscores. -/
def joinDigits? (isDigit : Char → Bool) : List Char → Option (List Char)
  | [] => none
  | [c] => if isDigit c then some [c] else none
  | c :: '_' :: rest => if isDigit c then (joinDigits? isDigit rest).map (c :: ·) else none
  | c :: rest => if isDigit c then (joinDigits? isDigit rest).map (c :: ·) else none

/-- The number that digits denote in a base. -/
def ofDigitsBase? (base : Nat) (ds : List Char) : Option Nat :=
  ds.foldlM (fun n c => (hexNumber? [c]).bind fun d => if d < base then some (base * n + d) else none) 0

/-- A whole number in a base, behind its mark. -/
def basedInteger? (base : Nat) (s : List Char) : Option Nat := do
  let ds ← joinDigits? (fun c => (hexNumber? [c]).isSome) s
  ofDigitsBase? base ds

/-- Decimal digits without a leading zero. -/
def wholeDigits? (s : List Char) : Option (List Char) := do
  let ds ← joinDigits? Char.isDigit s
  if ds.length > 1 ∧ ds.head? = some '0' then none else some ds

/-- A whole number without its sign; `signed` tells whether it has one. -/
def magnitude? (signed : Bool) (s : List Char) : Option Nat :=
  match s with
  | '0' :: 'x' :: rest => if signed then none else basedInteger? 16 rest
  | '0' :: 'o' :: rest => if signed then none else basedInteger? 8 rest
  | '0' :: 'b' :: rest => if signed then none else basedInteger? 2 rest
  | _ => (wholeDigits? s).map (Decimal.ofDigits 0)

/-- Whether a word begins with a sign. -/
def isSigned (s : List Char) : Bool :=
  s.head? == some '-' || s.head? == some '+'

/-- A whole number that fits a signed 64-bit word. -/
def integer? (s : List Char) : Option Int := do
  let (negative, r) := Decimal.sign? s
  let n ← magnitude? (isSigned s) r
  let i : Int := if negative then -(n : Int) else n
  if Word.fitsSigned i then some i else none

/-- A decimal: a whole part, and a fraction or an exponent or both. -/
def float? (s : List Char) : Option Float := do
  let (negative, r) := Decimal.sign? s
  let x ← match r with
    | ['i', 'n', 'f'] => some (1.0 / 0.0)
    | ['n', 'a', 'n'] => some (0.0 / 0.0)
    | _ => do
      let (mantissa, e) := r.span fun c => c != 'e' && c != 'E'
      let (whole, fraction) := mantissa.span fun c => c != '.'
      if e.isEmpty ∧ fraction.isEmpty then none
      let ws ← wholeDigits? whole
      let fs ← match fraction with
        | [] => some []
        | _ :: ds => joinDigits? Char.isDigit ds
      let k : Int ← match e with
        | [] => some 0
        | _ :: ds => do
          let (negative, ds) := Decimal.sign? ds
          let n := Decimal.ofDigits 0 (← joinDigits? Char.isDigit ds)
          some (if negative then -(n : Int) else n)
      let k := k - fs.length
      let x := Float.ofScientific (Decimal.ofDigits 0 (ws ++ fs)) (k < 0) k.natAbs
      if x.isInf then none else some x
  return if negative then -x else x

/-! ## Points in time -/

/-- A number of exactly `digits` digits that is at most `most`, with the rest. -/
def digitsUpTo (digits most : Nat) (s : List Char) : Option (Nat × List Char) :=
  let ds := s.take digits
  if ds.length = digits ∧ ds.all Char.isDigit ∧ Decimal.ofDigits 0 ds ≤ most then
    some (Decimal.ofDigits 0 ds, s.drop digits)
  else none

/-- One given character. -/
def mark (c : Char) : List Char → Option (List Char)
  | d :: rest => if c = d then some rest else none
  | [] => none

/-- The number of days of a month. -/
def daysOf (year month : Nat) : Nat :=
  if month = 2 then
    if year % 4 = 0 ∧ (year % 100 ≠ 0 ∨ year % 400 = 0) then 29 else 28
  else if month = 4 ∨ month = 6 ∨ month = 9 ∨ month = 11 then 30
  else 31

/-- A number with zeros in front up to a width. -/
def padded (width n : Nat) : List Char :=
  let ds := Nat.toDigits 10 n
  List.replicate (width - ds.length) '0' ++ ds

/-- A date. -/
def date : Reader (List Char) := fun s => do
  let (year, s) ← digitsUpTo 4 9999 s
  let s ← mark '-' s
  let (month, s) ← digitsUpTo 2 12 s
  let s ← mark '-' s
  let (day, s) ← digitsUpTo 2 31 s
  if month = 0 ∨ day = 0 ∨ daysOf year month < day then none
  return (padded 4 year ++ '-' :: (padded 2 month ++ '-' :: padded 2 day), s)

/-- A fraction of a second of at most nine digits, without zeros at its end; one digit is left. -/
def fractionText (ds : List Char) : List Char :=
  match ((ds.take 9).reverse.dropWhile (· == '0')).reverse with
  | [] => ['.', '0']
  | ds => '.' :: ds

/-- A time of day. Seconds may be missing, and stay so. -/
def time : Reader (List Char) := fun s => do
  let (hour, s) ← digitsUpTo 2 23 s
  let s ← mark ':' s
  let (minute, s) ← digitsUpTo 2 59 s
  let head := padded 2 hour ++ ':' :: padded 2 minute
  match s with
  | ':' :: s => do
    let (second, s) ← digitsUpTo 2 60 s
    let head := head ++ ':' :: padded 2 second
    match s with
    | '.' :: s =>
      let (ds, s) := s.span Char.isDigit
      if ds.isEmpty then none else return (head ++ fractionText ds, s)
    | _ => return (head, s)
  | _ => return (head, s)

/-- The offset of a time zone, which may be missing. -/
def offset : Reader (List Char)
  | 'Z' :: rest => some (['Z'], rest)
  | 'z' :: rest => some (['Z'], rest)
  | c :: rest =>
    if c = '+' ∨ c = '-' then do
      let (hour, rest) ← digitsUpTo 2 23 rest
      let rest ← mark ':' rest
      let (minute, rest) ← digitsUpTo 2 59 rest
      let sign := if hour = 0 ∧ minute = 0 then '+' else c
      return (sign :: (padded 2 hour ++ ':' :: padded 2 minute), rest)
    else some ([], c :: rest)
  | [] => some ([], [])

/-- A date with a time of day and perhaps an offset, a date, or a time of day. -/
def pointInTime (s : List Char) : Option String := do
  let (text, rest) ←
    match date s with
    | some (d, []) => some (d, [])
    | some (d, c :: rest) =>
      if c = 'T' ∨ c = 't' ∨ c = ' ' then do
        let (t, rest) ← time rest
        let (o, rest) ← offset rest
        some (d ++ 'T' :: (t ++ o), rest)
      else none
    | none => time s
  if rest.isEmpty then some (String.ofList text) else none

/-! ## Words -/

/-- The characters of a word without quotes. -/
def isWordChar (c : Char) : Bool :=
  c.isAlphanum || c == '_' || c == '+' || c == '-' || c == '.' || c == ':'

/-- A word without quotes. A date may be followed by a blank and a time of day. -/
def word (s : List Char) : List Char × List Char :=
  let (w, rest) := s.span isWordChar
  match rest with
  | ' ' :: a :: b :: ':' :: _ =>
    if a.isDigit && b.isDigit && ((date w).map (·.2.isEmpty)).getD false then
      let (t, rest) := (rest.drop 1).span isWordChar
      (w ++ ' ' :: t, rest)
    else (w, rest)
  | _ => (w, rest)

/-- The value of a word without quotes. -/
def wordValue? (w : List Char) : Option Tree :=
  match w with
  | ['t', 'r', 'u', 'e'] => some (.bool true)
  | ['f', 'a', 'l', 's', 'e'] => some (.bool false)
  | _ =>
    ((integer? w).map Tree.int).or
      (((float? w).map Tree.float).or ((pointInTime w).map Tree.text))

end BrokerTopology.Toml
