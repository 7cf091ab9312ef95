import Trawl.Packet.Transport

/-!
# From a link to its packet

The packet inside a link-layer frame, taken apart down to the transport layer. Ethernet frames may
carry up to two VLAN tags; a frame that carries anything else than IP is left alone.
-/

namespace Trawl.Packet

/-- A packet taken apart as far as its protocols are known. -/
structure Sliced where
  datagram : Datagram
  transport : Option Transport
  deriving DecidableEq, Repr

/-- Adds the transport layer to a datagram. -/
def withTransport (d : Datagram) : Except Fault Sliced :=
  (transport d.following).map fun t => ⟨d, t⟩

/-- Ethernet types of VLAN tags. -/
def isVlanTag (etherType : Nat) : Bool :=
  etherType = 0x8100 || etherType = 0x88A8 || etherType = 0x9100

/-- What an Ethernet type announces, after at most `tags` more VLAN tags. -/
def announced (tags : Nat) (etherType : Nat) (payload : Bytes) : Except Fault (Option Sliced) :=
  if etherType = 0x0800 then (ipv4 payload >>= withTransport).map some
  else if etherType = 0x86DD then (ipv6 payload >>= withTransport).map some
  else if isVlanTag etherType then
    match tags with
    | 0 => .ok none
    | tags + 1 =>
      match payload.split? 4 with
      | some (tag, rest) => announced tags (tag.field 2 2).bigEndian rest
      | none => .error .short
  else .ok none

/-- The packet inside an Ethernet frame. -/
def ofEthernet (data : Bytes) : Except Fault (Option Sliced) :=
  match data.split? 14 with
  | some (header, payload) => announced 2 (header.field 12 2).bigEndian payload
  | none => .error .short

/-- The packet that a bare IP record is. -/
def ofRawIP (data : Bytes) : Except Fault (Option Sliced) :=
  (internet data >>= withTransport).map some

end Trawl.Packet
