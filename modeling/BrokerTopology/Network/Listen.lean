import BrokerTopology.Network.Address
/-!
# Listening

What keeps a server from listening on an address. Ports below 1024 are privileged; an address has to
belong to the machine, and no one else may listen on it.
-/

namespace BrokerTopology.Network

/-- Why a server cannot listen on an address. -/
inductive BindError where
  /-- The text is no address, or the address is none that a server can have. -/
  | invalidInput
  /-- The port is privileged. -/
  | permissionDenied
  | addressInUse
  | addressNotAvailable
  /-- The name of the host is not known. -/
  | unknownHost
  /-- The zone of the address is no device of the machine. -/
  | unknownDevice
  deriving DecidableEq, Repr

/-- A machine on which a server listens: the addresses on which others listen, and whether its
loopback device is up. That is its only device, with the number 1. -/
structure Machine where
  taken : List SocketAddress := []
  loopbackUp : Bool := true
  deriving DecidableEq, Repr

/-! ## Kinds of addresses -/

/-- The octets of an address that stands for one of 32 bits. -/
def Host.octets? : Host → Option (List Nat)
  | .v4 octets => some octets
  | .v6 [0, 0, 0, 0, 0, 0xFFFF, high, low] _ =>
    some [high / 256, high % 256, low / 256, low % 256]
  | _ => none

/-- Whether an address of 128 bits is one of a group of machines. -/
def Host.isMulticast : Host → Bool
  | .v6 groups _ => groups.head?.any (0xFF00 ≤ ·)
  | _ => false

/-- The zone of an address of a machine that is valid on a single link only. -/
def Host.linkZone? : Host → Option Nat
  | .v6 groups zone => if isOnLink groups then some zone else none
  | _ => none

/-- Whether an address belongs to a machine: one of the loopback network, or one that stands for all
addresses. -/
def Machine.owns (m : Machine) (h : Host) : Bool :=
  match h.octets?, h with
  | some octets, _ => octets.head? = some 127 || octets.all (· == 0)
  | none, .v6 groups _ =>
    groups.all (· == 0) || (m.loopbackUp && groups == [0, 0, 0, 0, 0, 0, 0, 1])
  | none, _ => false

/-- The numeric address of a host. The one name that is known is that of the machine itself. -/
def Host.lookUp : Host → Option Host
  | .named name =>
    if name.toList.map Char.toLower = "localhost".toList then some (.v4 [127, 0, 0, 1]) else none
  | h => some h

/-- Whether a port is kept for privileged programs. Port zero asks for any free one. -/
def isPrivileged (port : Nat) : Bool :=
  0 < port && port < 1024

/-! ## Binding -/

/-- What keeps a server from listening on a host of a machine, apart from its port. A link-local
address needs a device. -/
def Machine.hostError? (m : Machine) (h : Host) : Option BindError :=
  if m.owns h then none
  else
    match h.linkZone? with
    | some 0 => some .invalidInput
    | some 1 => some .addressNotAvailable
    | some _ => some .unknownDevice
    | none => some .addressNotAvailable

/-- What keeps a server from listening on an address. A host that cannot be looked up counts first,
then the port, and then whether the host belongs to the machine. -/
def Machine.bindError? (m : Machine) (text : String) : Option BindError :=
  match SocketAddress.read? text with
  | none => some .invalidInput
  | some a =>
    match a.host.lookUp with
    | none => some .unknownHost
    | some h =>
      if h.isMulticast then some .invalidInput
      else if isPrivileged a.port then some .permissionDenied
      else
        match m.hostError? h with
        | some e => some e
        | none => if m.taken.contains ⟨h, a.port⟩ then some .addressInUse else none

end BrokerTopology.Network
