/-!
# Texts of TOML

Blanks, comments and line ends between the values of a document, and the four kinds of quoted
texts. A reader gives back what it has read and the rest, or nothing when the document is not well
formed. The numbers among the arguments bound the recursion and are taken from the length of the
text.
-/

namespace BrokerTopology.Toml

/-- What has been read, and the rest of the document. -/
abbrev Reader (α : Type) := List Char → Option (α × List Char)

/-! ## Between values -/

/-- The blanks within a line. -/
def isBlank (c : Char) : Bool :=
  c == ' ' || c == '\t'

/-- A document without the blanks at its front. -/
def skipBlank (s : List Char) : List Char :=
  s.dropWhile isBlank

/-- The characters that may stand in a comment or, unescaped, in a text of one line. -/
def isPrintable (c : Char) : Bool :=
  c == '\t' || (0x20 ≤ c.toNat && c.toNat != 0x7F)

/-- A line end at the front of a document. -/
def lineEnd? : List Char → Option (List Char)
  | '\n' :: rest => some rest
  | '\r' :: '\n' :: rest => some rest
  | _ => none

/-- Passes over blanks and a comment up to the end of the line, which it leaves. -/
def skipToLineEnd (s : List Char) : Option (List Char) :=
  match skipBlank s with
  | '#' :: rest =>
    let rest := rest.dropWhile isPrintable
    if rest.isEmpty || (lineEnd? rest).isSome then some rest else none
  | s => if s.isEmpty || (lineEnd? s).isSome then some s else none

/-- Passes over blanks, comments and line ends. -/
def skipLines : Nat → List Char → Option (List Char)
  | 0, s => some s
  | n + 1, s =>
    match skipBlank s with
    | '#' :: rest => do skipLines n (← skipToLineEnd ('#' :: rest))
    | s =>
      match lineEnd? s with
      | some rest => skipLines n rest
      | none => some s

/-! ## Escapes -/

/-- The number that hexadecimal digits denote. -/
def hexNumber? (ds : List Char) : Option Nat :=
  ds.foldlM (fun n c =>
    if c.isDigit then some (16 * n + (c.toNat - '0'.toNat))
    else if 'a' ≤ c ∧ c ≤ 'f' then some (16 * n + (c.toNat - 'a'.toNat + 10))
    else if 'A' ≤ c ∧ c ≤ 'F' then some (16 * n + (c.toNat - 'A'.toNat + 10))
    else none) 0

/-- A character given by a number of hexadecimal digits. -/
def hexChar? (digits : Nat) (s : List Char) : Option (Char × List Char) := do
  let ds := s.take digits
  if ds.length < digits then none
  let n ← hexNumber? ds
  if n.isValidChar then some (Char.ofNat n, s.drop digits) else none

/-- The character of an escape, behind the backslash. -/
def escape? : List Char → Option (Char × List Char)
  | 'b' :: rest => some ('\x08', rest)
  | 't' :: rest => some ('\t', rest)
  | 'n' :: rest => some ('\n', rest)
  | 'f' :: rest => some ('\x0c', rest)
  | 'r' :: rest => some ('\r', rest)
  | 'e' :: rest => some ('\x1b', rest)
  | '"' :: rest => some ('"', rest)
  | '\\' :: rest => some ('\\', rest)
  | 'x' :: rest => hexChar? 2 rest
  | 'u' :: rest => hexChar? 4 rest
  | 'U' :: rest => hexChar? 8 rest
  | _ => none

/-! ## Quoted texts -/

/-- A text of one line between double quotes, behind the first. -/
def basicLine : Nat → Reader (List Char)
  | 0, _ => none
  | _ + 1, [] => none
  | _ + 1, '"' :: rest => some ([], rest)
  | n + 1, '\\' :: rest => do
    let (c, rest) ← escape? rest
    let (cs, rest) ← basicLine n rest
    return (c :: cs, rest)
  | n + 1, c :: rest =>
    if isPrintable c then do
      let (cs, rest) ← basicLine n rest
      return (c :: cs, rest)
    else none

/-- A text of one line between single quotes, behind the first. Nothing is escaped in it. -/
def literalLine (s : List Char) : Option (List Char × List Char) :=
  let (cs, rest) := s.span fun c => isPrintable c && c != '\''
  match rest with
  | '\'' :: rest => some (cs, rest)
  | _ => none

/-- The end of a text between three quotes each: up to two more quotes belong to the text. -/
def closing? (q : Char) : Reader (List Char)
  | a :: b :: c :: d :: e :: rest =>
    if a = q ∧ b = q ∧ c = q then
      if d = q then
        if e = q then some ([q, q], rest) else some ([q], e :: rest)
      else some ([], d :: e :: rest)
    else none
  | [a, b, c, d] =>
    if a = q ∧ b = q ∧ c = q then some (if d = q then ([q], []) else ([], [d])) else none
  | [a, b, c] => if a = q ∧ b = q ∧ c = q then some ([], []) else none
  | _ => none

/-- A document without the blanks and line ends at its front. -/
def skipFold : List Char → List Char
  | '\r' :: '\n' :: rest => skipFold rest
  | c :: rest => if isBlank c || c == '\n' then skipFold rest else c :: rest
  | [] => []

/-- A text of several lines between three double quotes each, behind the first three. A backslash at
the end of a line folds it with the next one; other line ends are kept as they are written. -/
def basicLines : Nat → Reader (List Char)
  | 0, _ => none
  | n + 1, s =>
    match closing? '"' s with
    | some r => some r
    | none =>
      match s with
      | [] => none
      | '\\' :: rest =>
        if (lineEnd? (skipBlank rest)).isSome then basicLines n (skipFold rest)
        else do
          let (c, rest) ← escape? rest
          let (cs, rest) ← basicLines n rest
          return (c :: cs, rest)
      | '\r' :: '\n' :: rest => do
        let (cs, rest) ← basicLines n rest
        return ('\r' :: '\n' :: cs, rest)
      | c :: rest =>
        if isPrintable c || c == '\n' then do
          let (cs, rest) ← basicLines n rest
          return (c :: cs, rest)
        else none

/-- A text of several lines between three single quotes each, behind the first three. -/
def literalLines : Nat → Reader (List Char)
  | 0, _ => none
  | n + 1, s =>
    match closing? '\'' s with
    | some r => some r
    | none =>
      match s with
      | [] => none
      | '\r' :: '\n' :: rest => do
        let (cs, rest) ← literalLines n rest
        return ('\r' :: '\n' :: cs, rest)
      | c :: rest =>
        if isPrintable c || c == '\n' then do
          let (cs, rest) ← literalLines n rest
          return (c :: cs, rest)
        else none

/-- A document without the line end at its front, if there is one. -/
def dropLineEnd (s : List Char) : List Char :=
  (lineEnd? s).getD s

/-- A quoted text of one line. -/
def quotedLine : Reader String
  | '"' :: rest => (basicLine (rest.length + 1) rest).map fun p => (String.ofList p.1, p.2)
  | '\'' :: rest => (literalLine rest).map fun p => (String.ofList p.1, p.2)
  | _ => none

/-- A quoted text of any kind. A line end right behind three opening quotes does not count. -/
def quoted : Reader String
  | '"' :: '"' :: '"' :: rest =>
    (basicLines (rest.length + 1) (dropLineEnd rest)).map fun p => (String.ofList p.1, p.2)
  | '\'' :: '\'' :: '\'' :: rest =>
    (literalLines (rest.length + 1) (dropLineEnd rest)).map fun p => (String.ofList p.1, p.2)
  | s => quotedLine s

end BrokerTopology.Toml
