import BrokerTopology.Json.Record
import BrokerTopology.Json.Writer
/-!
# The texts of a value

A value can be written in many ways: with blanks between any two tokens, with any character of a text
escaped or not, with any digits behind the point. `Denotes` relates a value to all its texts, down to a
depth of nesting.

The grammar of JSON lets an escaped surrogate stand alone, although no character is meant by it. Texts
with such escapes are part of the relation only if asked for.
-/

namespace BrokerTopology.Json

/-! ## Tokens -/

/-- A text of blanks only. -/
def Blanks (s : List Char) : Prop :=
  ∀ c ∈ s, isBlank c = true

instance (s : List Char) : Decidable (Blanks s) :=
  inferInstanceAs (Decidable (∀ c ∈ s, isBlank c = true))

/-- The characters that stand between two quotes, and the characters that they spell. An escaped
surrogate without a partner may stand for the replacement character if `lone` holds. -/
inductive Spells (lone : Prop) : List Char → List Char → Prop
  | nil : Spells lone [] []
  | plain {c : Char} {cs body : List Char} (hquote : c ≠ '"') (hslash : c ≠ '\\')
      (hcontrol : ¬ c.toNat < 0x20) (others : Spells lone cs body) :
      Spells lone (c :: cs) (c :: body)
  | letter {e c : Char} {cs body : List Char} (hletter : simpleEscape? e = some c)
      (others : Spells lone cs body) : Spells lone (c :: cs) ('\\' :: e :: body)
  | unit {u v w x : Char} {n : Nat} {cs body : List Char} (hunit : hexUnit? u v w x = some n)
      (hhigh : isHighSurrogate n = false) (hlow : isLowSurrogate n = false)
      (others : Spells lone cs body) :
      Spells lone (Char.ofNat n :: cs) ('\\' :: 'u' :: u :: v :: w :: x :: body)
  | pair {u v w x u' v' w' x' : Char} {n m : Nat} {cs body : List Char}
      (hunit : hexUnit? u v w x = some n) (hhigh : isHighSurrogate n = true)
      (hunit' : hexUnit? u' v' w' x' = some m) (hlow : isLowSurrogate m = true)
      (others : Spells lone cs body) :
      Spells lone (pairChar n m :: cs)
        ('\\' :: 'u' :: u :: v :: w :: x :: '\\' :: 'u' :: u' :: v' :: w' :: x' :: body)
  | surrogate {u v w x : Char} {n : Nat} {cs body : List Char} (hlone : lone)
      (hunit : hexUnit? u v w x = some n) (hsurrogate : (isHighSurrogate n || isLowSurrogate n) = true)
      (others : Spells lone cs body) :
      Spells lone ('\uFFFD' :: cs) ('\\' :: 'u' :: u :: v :: w :: x :: body)

/-! ## Numbers -/

/-- One digit or more. -/
def Digits (ds : List Char) : Prop :=
  ds ≠ [] ∧ ∀ c ∈ ds, c.isDigit = true

/-- The digits before the point: a zero alone, or digits that do not begin with one. -/
def Whole (ds : List Char) : Prop :=
  ds = ['0'] ∨ Digits ds ∧ ds.head? ≠ some '0'

/-- The digits behind the point, if there is a point. -/
inductive Fraction : Option (List Char) → List Char → Prop
  | absent : Fraction none []
  | present {ds : List Char} (h : Digits ds) : Fraction (some ds) ('.' :: ds)

/-- An optional sign, and whether it is a minus sign. -/
inductive Sign : Bool → List Char → Prop
  | absent : Sign false []
  | plus : Sign false ['+']
  | minus : Sign true ['-']

/-- The exponent behind a letter, if there is a letter. -/
inductive Exponent : Option Int → List Char → Prop
  | absent : Exponent none []
  | present {letter : Char} {negative : Bool} {sign ds : List Char} (hletter : letter = 'e' ∨ letter = 'E')
      (hsign : Sign negative sign) (h : Digits ds) :
      Exponent (some (if negative then -(Decimal.ofDigits 0 ds : Int) else Decimal.ofDigits 0 ds))
        (letter :: (sign ++ ds))

/-- The value of a number from its three parts. -/
def partsValue (negative : Bool) (whole : List Char) :
    Option (List Char) → Option Int → Except Error Number
  | none, none => wholeValue negative whole
  | fraction, exponent => decimalValue negative whole (fraction.getD []) (exponent.getD 0)

/-- The texts of a number. What is written has a value unless it is too large for a double. -/
inductive Numeral : Number → List Char → Prop
  | mk {n : Number} {whole fractionText exponentText : List Char} {fraction : Option (List Char)}
      {exponent : Option Int} (negative : Bool) (hwhole : Whole whole)
      (hfraction : Fraction fraction fractionText) (hexponent : Exponent exponent exponentText)
      (hvalue : partsValue negative whole fraction exponent = .ok n) :
      Numeral n ((if negative then ['-'] else []) ++ (whole ++ (fractionText ++ exponentText)))

/-! ## Values -/

/-- The text between two brackets: parts with commas between them, and blanks around each. `P` relates a
part to its texts. -/
inductive Spread {α : Type} (P : α → List Char → Prop) : List α → List Char → Prop
  | nil {b : List Char} (hb : Blanks b) : Spread P [] b
  | one {a : α} {t b b' : List Char} (h : P a t) (hb : Blanks b) (hb' : Blanks b') :
      Spread P [a] (b ++ (t ++ b'))
  | cons {a a' : α} {as : List α} {t s b b' : List Char} (h : P a t) (hb : Blanks b) (hb' : Blanks b')
      (others : Spread P (a' :: as) s) : Spread P (a :: a' :: as) (b ++ (t ++ (b' ++ ',' :: s)))

/-- A text that is paired with what it is read as. -/
def IsText {α : Type} (p : α × List Char) (t : List Char) : Prop :=
  p.2 = t

/-- A member: its name in quotes, a colon, and the text that its value is paired with. -/
def IsMember {α : Type} (lone : Prop) (p : (String × α) × List Char) (t : List Char) : Prop :=
  ∃ key b b', Spells lone p.1.1.toList key ∧ Blanks b ∧ Blanks b' ∧
    t = '"' :: (key ++ '"' :: (b ++ ':' :: (b' ++ p.2)))

/-- The texts of a value whose containers are nested at most so deep. Escaped surrogates may stand alone
if `lone` holds. -/
inductive Denotes (lone : Prop) : Nat → Value → List Char → Prop
  | null {depth : Nat} : Denotes lone depth .null ['n', 'u', 'l', 'l']
  | bool {depth : Nat} (b : Bool) : Denotes lone depth (.bool b) (Value.bool b).render
  | number {depth : Nat} {n : Number} {t : List Char} (h : Numeral n t) :
      Denotes lone depth (.number n) t
  | text {depth : Nat} {s : String} {body : List Char} (h : Spells lone s.toList body) :
      Denotes lone depth (.text s) ('"' :: (body ++ ['"']))
  | array {depth : Nat} {ps : List (Value × List Char)} {s : List Char}
      (h : ∀ p ∈ ps, Denotes lone depth p.1 p.2) (hspread : Spread IsText ps s) :
      Denotes lone (depth + 1) (.array (ps.map Prod.fst)) ('[' :: (s ++ [']']))
  | object {depth : Nat} {ps : List ((String × Value) × List Char)} {s : List Char}
      (h : ∀ p ∈ ps, Denotes lone depth p.1.2 p.2) (hspread : Spread (IsMember lone) ps s) :
      Denotes lone (depth + 1) (.object (ps.map Prod.fst)) ('{' :: (s ++ ['}']))

/-- The documents of a value, with blanks around it. -/
def IsDocument (lone : Prop) (v : Value) (text : String) : Prop :=
  ∃ b t b', Blanks b ∧ Blanks b' ∧ Denotes lone maxDepth v t ∧ text.toList = b ++ (t ++ b')

end BrokerTopology.Json
