import BrokerTopology.Decimal.Read
import BrokerTopology.Word
/-!
# Socket addresses

A server listens on an address of a host and a port. The host is a numeric address or a name; the
port is a number of 16 bits. A numeric address of 32 bits may be written with fewer than four parts
and in base eight or sixteen, and one of 128 bits may name the zone in which it is valid.
-/

namespace BrokerTopology.Network

/-- A host: a numeric address of one of the two families, or a name that has to be looked up. The zone
of an address is the number of a network device, or zero. -/
inductive Host where
  | v4 (octets : List Nat)
  | v6 (groups : List Nat) (zone : Nat)
  | named (name : String)
  deriving DecidableEq, Repr

/-- A host and a port. -/
structure SocketAddress where
  host : Host
  port : Nat
  deriving DecidableEq, Repr

/-! ## Numeric addresses -/

/-- A decimal number up to 255 without a leading zero. -/
def octet? (s : List Char) : Option Nat :=
  if s.length > 3 ∨ (s.length > 1 ∧ s.head? = some '0') then none
  else (Decimal.natural? s).filter (· ≤ 255)

/-- The pieces of a text between occurrences of a character. -/
def pieces (c : Char) : List Char → List (List Char)
  | [] => [[]]
  | d :: ds =>
    if d = c then [] :: pieces c ds
    else match pieces c ds with
      | [] => [[d]]
      | p :: ps => (d :: p) :: ps

/-- Four octets between points. -/
def v4? (s : List Char) : Option (List Nat) := do
  let octets ← (pieces '.' s).mapM octet?
  if octets.length = 4 then some octets else none

/-- A group of one to four hexadecimal digits. -/
def group? (s : List Char) : Option Nat :=
  if s.isEmpty ∨ s.length > 4 then none
  else s.foldlM (fun n c =>
    if c.isDigit then some (16 * n + (c.toNat - '0'.toNat))
    else if 'a' ≤ c.toLower ∧ c.toLower ≤ 'f' then some (16 * n + (c.toLower.toNat - 'a'.toNat + 10))
    else none) 0

/-- Groups between colons; the last piece may be an address of four octets, which counts as two
groups. -/
def groups? : List (List Char) → Option (List Nat)
  | [] => some []
  | [p] =>
    match v4? p with
    | some [a, b, c, d] => some [a * 256 + b, c * 256 + d]
    | _ => (group? p).map ([·])
  | p :: ps => do return (← group? p) :: (← groups? ps)

/-- The groups of a part of an address, which may be empty. -/
def part? (s : List Char) : Option (List Nat) :=
  if s.isEmpty then some [] else groups? (pieces ':' s)

/-- The two parts of a text around its first double colon. -/
def splitGap : List Char → Option (List Char × List Char)
  | ':' :: ':' :: rest => some ([], rest)
  | c :: rest => (splitGap rest).map fun p => (c :: p.1, p.2)
  | [] => none

/-- The digits of a number in base eight, ten or sixteen, as a leading zero tells, with the base. -/
def basedDigits : List Char → List Char × Nat
  | '0' :: x :: rest =>
    if x = 'x' ∨ x = 'X' then (rest, 16) else (x :: rest, 8)
  | s => (s, 10)

/-- A digit of a base up to sixteen. -/
def digitOf? (base : Nat) (c : Char) : Option Nat :=
  (group? [c]).filter (· < base)

/-- A number in base eight, ten or sixteen. -/
def basedNumber? (s : List Char) : Option Nat :=
  let (ds, base) := basedDigits s
  if ds.isEmpty then none
  else ds.foldlM (fun n c => (digitOf? base c).map (base * n + ·)) 0

/-- The lowest `n` octets of a number, the highest of them first. -/
def lowOctets (n value : Nat) : List Nat :=
  (List.range n).reverse.map fun i => value / Nat.pow 256 i % 256

/-- Up to four numbers between points. Each is an octet but the last, which fills the octets that are
left. -/
def looseV4? (s : List Char) : Option (List Nat) := do
  let ns ← (pieces '.' s).mapM basedNumber?
  let octets := ns.dropLast
  let last ← ns.getLast?
  if ns.length ≤ 4 ∧ octets.all (· ≤ 255) ∧ last < Nat.pow 256 (4 - octets.length) then
    some (octets ++ lowOctets (4 - octets.length) last)
  else none

/-- Eight groups, some of which may be left out at a double colon. -/
def v6? (s : List Char) : Option (List Nat) := do
  match splitGap s with
  | none =>
    let gs ← part? s
    if gs.length = 8 then some gs else none
  | some (front, back) =>
    let fs ← if front.isEmpty then some [] else (pieces ':' front).mapM group?
    let bs ← part? back
    if fs.length + bs.length < 8 then
      some (fs ++ List.replicate (8 - fs.length - bs.length) 0 ++ bs)
    else none

/-! ## Addresses with ports -/

/-- A port. -/
def port? (s : List Char) : Option Nat :=
  (Decimal.unsigned? s).filter (· ≤ 65535)

/-- The parts of a text before and after its last colon. -/
def splitLastColon (s : List Char) : Option (List Char × List Char) :=
  let (back, front) := s.reverse.span (· != ':')
  match front with
  | _ :: front => some (front.reverse, back.reverse)
  | [] => none

/-- A zone: the number of a device. -/
def zone? (s : List Char) : Option Nat :=
  (Decimal.natural? s).filter (· ≤ Word.largest 32)

/-- Whether an address of eight groups is that of a machine, or of a group of machines, on a single
link. -/
def isOnLink (groups : List Nat) : Bool :=
  groups.head?.any fun g => (0xFE80 ≤ g && g ≤ 0xFEBF) || (0xFF00 ≤ g && g % 16 = 2)

/-- A zone where devices may be named: the one device that every machine has is `lo`, with the
number 1. -/
def namedZone? (s : List Char) : Option Nat :=
  if s = ['l', 'o'] then some 1 else zone? s

/-- An address of eight groups, perhaps with a zone behind a percent sign, which is read by
`zoneOf`. -/
def zoned? (zoneOf : List Nat → List Char → Option Nat) (s : List Char) : Option Host := do
  let (address, zone) := s.span (· != '%')
  let groups ← v6? address
  match zone with
  | [] => some (.v6 groups 0)
  | _ :: zone => (zoneOf groups zone).map (.v6 groups)

/-- A text within brackets. -/
def bracketed? (s : List Char) : Option (List Char) :=
  match s with
  | '[' :: rest => if rest.getLast? = some ']' then some rest.dropLast else none
  | _ => none

/-- The host that a text in front of a port stands for. An address of eight groups may stand in
brackets; without them, and on a single link, its zone may be named. -/
def host (s : List Char) : Host :=
  let inBrackets := (bracketed? s).bind (zoned? fun _ => zone?)
  let bare := zoned? (fun groups => if isOnLink groups then namedZone? else zone?) s
  inBrackets.getD (((looseV4? s).map .v4).getD (bare.getD (.named (String.ofList s))))

/-- Reads an address with its port. No host holds the character zero, and the port behind brackets has
no sign. -/
def SocketAddress.read? (text : String) : Option SocketAddress := do
  let (h, p) ← splitLastColon text.toList
  let port ← port? p
  if h.contains '\x00' then none
  if (bracketed? h).isSome ∧ p.head? = some '+' then return ⟨.named (String.ofList h), port⟩
  return ⟨Network.host h, port⟩

end BrokerTopology.Network
