import Trawl.Packet.Internet

/-!
# Transport headers

TCP segments, UDP datagrams and ICMP messages inside an IP packet. A fragment is not looked into.
-/

namespace Trawl.Packet

/-- The transport layer of a packet. -/
inductive Transport where
  | tcp (source target : UInt16) (sequence : UInt32) (syn fin rst : Bool) (payload : Bytes)
  | udp (source target : UInt16) (payload : Bytes)
  | icmpv4
  | icmpv6
  deriving DecidableEq, Repr

/-- A port number at an offset. -/
def portAt (b : Bytes) (offset : Nat) : UInt16 :=
  UInt16.ofNat (b.field offset 2).bigEndian

/-- A TCP segment. -/
def tcp (b : Bytes) : Except Fault Transport := do
  if !b.longerThan 19 then throw .short
  let dataOffset := (b.octet 12 / 16).toNat * 4
  if dataOffset < 20 then throw .badDataOffset
  let (_, payload) ← match b.split? dataOffset with
    | some parts => pure parts
    | none => throw .badDataOffset
  let flags := b.octet 13
  return .tcp (portAt b 0) (portAt b 2) (UInt32.ofNat (b.field 4 4).bigEndian)
    (flags &&& 2 ≠ 0) (flags &&& 1 ≠ 0) (flags &&& 4 ≠ 0) payload

/-- A UDP datagram. A length of zero stands for all bytes that are there; bytes beyond the stated
length are not part of the payload. -/
def udp (b : Bytes) : Except Fault Transport := do
  if !b.longerThan 7 then throw .short
  let length := (b.field 4 2).bigEndian
  let datagram ←
    if length = 0 then pure b
    else if length < 8 then throw .badDatagramLength
    else match b.split? length with
      | some (datagram, _) => pure datagram
      | none => throw .badDatagramLength
  return .udp (portAt b 0) (portAt b 2) (datagram.drop 8)

/-- An ICMPv4 message. Timestamp requests and replies have a fixed size. -/
def icmpv4 (b : Bytes) : Except Fault Transport :=
  if !b.longerThan 7 then .error .short
  else if (b.octet 0 = 13 ∨ b.octet 0 = 14) ∧ b.octet 1 = 0 ∧ b.length ≠ 20 then
    .error .badMessageLength
  else .ok .icmpv4

/-- An ICMPv6 message. -/
def icmpv6 (b : Bytes) : Except Fault Transport :=
  if !b.longerThan 7 then .error .short else .ok .icmpv6

/-- The transport layer, if the packet is no fragment and its protocol is one of the four. ICMP
messages of either version are taken inside either version of IP. -/
def transport (f : Following) : Except Fault (Option Transport) :=
  if f.fragment then .ok none
  else if f.protocol = protocolTCP then (tcp f.payload).map some
  else if f.protocol = protocolUDP then (udp f.payload).map some
  else if f.protocol = protocolICMPv4 then (icmpv4 f.payload).map some
  else if f.protocol = protocolICMPv6 then (icmpv6 f.payload).map some
  else .ok none

end Trawl.Packet
