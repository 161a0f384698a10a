import BrokerTopology.Decimal.Read
import BrokerTopology.Json.Error
import BrokerTopology.Json.Value
import BrokerTopology.Word
/-!
# Reading the scalars of JSON

A reader takes a list of characters and gives back what it has read together with the rest, or the
first cause of failure in reading order. This module reads blanks, the three constants, texts and
numbers. Texts and numbers have a second reader each, for values that are passed over: it checks
the form but neither pairs surrogates nor asks whether a number fits.
-/

namespace BrokerTopology.Json

/-- What has been read, and the rest of the text. -/
abbrev Reader (α : Type) := List Char → Except Error (α × List Char)

/-! ## Blanks and constants -/

/-- The four blanks of JSON. -/
def isBlank (c : Char) : Bool :=
  c == ' ' || c == '\n' || c == '\t' || c == '\r'

/-- A text without the blanks at its front. -/
def skipBlank (s : List Char) : List Char :=
  s.dropWhile isBlank

/-- The rest of a constant, of which the first letter has been read. -/
def literal : List Char → List Char → Except Error (List Char)
  | [], s => .ok s
  | _ :: _, [] => .error .unexpectedEnd
  | w :: ws, c :: s => if c = w then literal ws s else .error .expectedLiteral

/-! ## Texts -/

/-- The value of a hexadecimal digit. -/
def hexValue? (c : Char) : Option Nat :=
  if '0' ≤ c ∧ c ≤ '9' then some (c.toNat - '0'.toNat)
  else if 'a' ≤ c ∧ c ≤ 'f' then some (c.toNat - 'a'.toNat + 10)
  else if 'A' ≤ c ∧ c ≤ 'F' then some (c.toNat - 'A'.toNat + 10)
  else none

/-- The number that four hexadecimal digits denote. -/
def hexUnit? (a b c d : Char) : Option Nat := do
  let a ← hexValue? a
  let b ← hexValue? b
  let c ← hexValue? c
  let d ← hexValue? d
  return ((a * 16 + b) * 16 + c) * 16 + d

/-- What is wrong with an escape that lacks its four digits: the text ends when fewer than four
bytes are left. -/
def shortEscape (s : List Char) : Error :=
  if (String.ofList s).utf8ByteSize < 4 then .unexpectedEnd else .malformedEscape

/-- The character of an escape of one letter. -/
def simpleEscape? (c : Char) : Option Char :=
  match c with
  | '"' => some '"'
  | '\\' => some '\\'
  | '/' => some '/'
  | 'b' => some '\x08'
  | 'f' => some '\x0c'
  | 'n' => some '\n'
  | 'r' => some '\r'
  | 't' => some '\t'
  | _ => none

/-- The first half of a surrogate pair. -/
def isHighSurrogate (n : Nat) : Bool :=
  0xD800 ≤ n && n ≤ 0xDBFF

/-- The second half of a surrogate pair. -/
def isLowSurrogate (n : Nat) : Bool :=
  0xDC00 ≤ n && n ≤ 0xDFFF

/-- The character that a surrogate pair stands for. -/
def pairChar (high low : Nat) : Char :=
  Char.ofNat ((high - 0xD800) * 0x400 + (low - 0xDC00) + 0x10000)

/-- Puts a character in front of the text that is read next. -/
def cons (c : Char) (r : Except Error (List Char × List Char)) :
    Except Error (List Char × List Char) :=
  r.map fun p => (c :: p.1, p.2)

/-- The characters of a text up to its closing quote; the opening quote has been read. -/
def textBody : List Char → Except Error (List Char × List Char)
  | [] => .error .unexpectedEnd
  | '"' :: rest => .ok ([], rest)
  | ['\\'] => .error .unexpectedEnd
  | '\\' :: 'u' :: a :: b :: c :: d :: rest =>
    match hexUnit? a b c d with
    | none => .error .malformedEscape
    | some n =>
      if isLowSurrogate n then .error .unpairedSurrogate
      else if isHighSurrogate n then
        match rest with
        | [] => .error .unexpectedEnd
        | ['\\'] => .error .unexpectedEnd
        | '\\' :: 'u' :: a :: b :: c :: d :: rest =>
          match hexUnit? a b c d with
          | none => .error .malformedEscape
          | some m =>
            if isLowSurrogate m then cons (pairChar n m) (textBody rest)
            else .error .unpairedSurrogate
        | '\\' :: 'u' :: rest => .error (shortEscape rest)
        | _ => .error .malformedEscape
      else cons (Char.ofNat n) (textBody rest)
  | '\\' :: 'u' :: rest => .error (shortEscape rest)
  | '\\' :: e :: rest =>
    match simpleEscape? e with
    | some c => cons c (textBody rest)
    | none => .error .malformedEscape
  | c :: rest =>
    if c.toNat < 0x20 then .error .controlCharacter else cons c (textBody rest)

/-- Passes over a text up to its closing quote. The digits of escapes are checked, surrogates are
not paired. -/
def skipText : List Char → Except Error (List Char)
  | [] => .error .unexpectedEnd
  | '"' :: rest => .ok rest
  | ['\\'] => .error .unexpectedEnd
  | '\\' :: 'u' :: a :: b :: c :: d :: rest =>
    if (hexUnit? a b c d).isSome then skipText rest else .error .malformedEscape
  | '\\' :: 'u' :: rest => .error (shortEscape rest)
  | '\\' :: e :: rest =>
    if (simpleEscape? e).isSome then skipText rest else .error .malformedEscape
  | c :: rest =>
    if c.toNat < 0x20 then .error .controlCharacter else skipText rest

/-! ## Numbers -/

/-- Largest number that a 64-bit word holds. -/
def wordMax : Nat :=
  Word.largest 64

/-- Reads digits into `n` while the number fits a 64-bit word, and gives back the number and the
digits left over. -/
def fitDigits (n : Nat) : List Char → Nat × List Char
  | [] => (n, [])
  | c :: cs =>
    let m := 10 * n + Decimal.digitValue c
    if m ≤ wordMax then fitDigits m cs else (n, c :: cs)

/-- The power of ten with exponent up to 308, as a double. -/
def powerOfTen (k : Nat) : Float :=
  Float.ofScientific 1 false k

/-- The double `m / 10 ^ k` of a word `m`, by at most two divisions. Beyond `10⁻⁶¹⁶` nothing is
left. -/
def scaleDown (m k : Nat) : Float :=
  if k ≤ 308 then Float.ofNat m / powerOfTen k
  else if k ≤ 616 then Float.ofNat m / powerOfTen 308 / powerOfTen (k - 308)
  else 0

/-- The double `m * 10 ^ e` of a word `m`, by one multiplication or by divisions. Nothing is given
back when the product is too large. -/
def scale? (m : Nat) (e : Int) : Option Float :=
  if e < 0 then some (scaleDown m (-e).toNat)
  else if e ≤ 308 then
    let x := Float.ofNat m * powerOfTen e.toNat
    if x.isInf then none else some x
  else if m = 0 then some 0
  else none

/-- The value of a number from its sign, the digits before and after the point, and the exponent.
Digits that do not fit a 64-bit word are dropped, and counted in the exponent when they stand before
the point. -/
def decimalValue (negative : Bool) (whole fraction : List Char) (e : Int) : Except Error Number :=
  let (m, dropped) := fitDigits 0 whole
  let (m, unused) := fitDigits m fraction
  let shift : Int := (dropped.length : Int) - ((fraction.length : Int) - (unused.length : Int))
  match scale? m (shift + e) with
  | some x => .ok (.float (if negative then -x else x))
  | none => .error .numberOutOfRange

/-- The value of a number without point and exponent: whole if it fits the 64-bit words, signed for
a number with a minus sign, and a double otherwise. Zero with a minus sign is a double. -/
def wholeValue (negative : Bool) (digits : List Char) : Except Error Number :=
  let n := Decimal.ofDigits 0 digits
  if negative then
    if 0 < n ∧ Word.fitsSigned (-(n : Int)) then .ok (.int (-(n : Int)))
    else decimalValue negative digits [] 0
  else if n ≤ wordMax then .ok (.int n)
  else decimalValue negative digits [] 0

/-- The digits before the point: a single zero, or digits that do not begin with one. `atEnd` is the
cause of failure when the text ends instead. -/
def wholeDigits (atEnd : Error) (s : List Char) : Except Error (List Char × List Char) :=
  match s with
  | [] => .error atEnd
  | '0' :: rest =>
    if (rest.head?.map Char.isDigit).getD false then .error .malformedNumber
    else .ok (['0'], rest)
  | c :: rest =>
    if c.isDigit then .ok (Decimal.spanDigits (c :: rest)) else .error .malformedNumber

/-- One or more digits. `atEnd` is the cause of failure when the text ends instead. -/
def someDigits (atEnd : Error) (s : List Char) : Except Error (List Char × List Char) :=
  match s with
  | [] => .error atEnd
  | c :: rest =>
    if c.isDigit then .ok (Decimal.spanDigits (c :: rest)) else .error .malformedNumber

/-- The digits after a point, if there is a point. -/
def fractionPart (atEnd : Error) (s : List Char) :
    Except Error (Option (List Char) × List Char) :=
  match s with
  | '.' :: rest => (someDigits atEnd rest).map fun p => (some p.1, p.2)
  | _ => .ok (none, s)

/-- The exponent, if there is one. -/
def exponentPart (atEnd : Error) (s : List Char) : Except Error (Option Int × List Char) :=
  match s with
  | c :: rest =>
    if c = 'e' ∨ c = 'E' then
      let (negative, rest) := Decimal.sign? rest
      (someDigits atEnd rest).map fun p =>
        let n : Int := Decimal.ofDigits 0 p.1
        (some (if negative then -n else n), p.2)
    else .ok (none, s)
  | [] => .ok (none, s)

/-- A number without its minus sign, which has been read if `negative`. -/
def number (negative : Bool) : Reader Number := fun s => do
  let (whole, s) ← wholeDigits .unexpectedEnd s
  let (fraction, s) ← fractionPart .unexpectedEnd s
  let (e, s) ← exponentPart .unexpectedEnd s
  let n ← match fraction, e with
    | none, none => wholeValue negative whole
    | _, _ => decimalValue negative whole (fraction.getD []) (e.getD 0)
  return (n, s)

/-- Passes over a number without its minus sign. A text that ends too early is malformed here. -/
def skipNumber (s : List Char) : Except Error (List Char) := do
  let (_, s) ← wholeDigits .malformedNumber s
  let (_, s) ← fractionPart .malformedNumber s
  let (_, s) ← exponentPart .malformedNumber s
  return s

end BrokerTopology.Json
