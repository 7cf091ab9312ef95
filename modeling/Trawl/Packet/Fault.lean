/-!
# Malformed packets

The reasons why the headers of a packet cannot be told apart.
-/

namespace Trawl.Packet

/-- What is wrong with a packet. -/
inductive Fault where
  /-- Fewer bytes than the header takes. -/
  | short
  /-- The version field names no or another version. -/
  | badVersion
  /-- A header length below that of the fixed header. -/
  | badHeaderLength
  /-- A total or payload length that does not fit the bytes that are there. -/
  | badTotalLength
  /-- An authentication header of length zero. -/
  | emptyAuthentication
  /-- Hop-by-hop options that do not follow the IPv6 header directly. -/
  | lateHopByHop
  /-- A TCP data offset below the fixed header or beyond the bytes that are there. -/
  | badDataOffset
  /-- A UDP length below the header or beyond the bytes that are there. -/
  | badDatagramLength
  /-- An ICMP timestamp message that is not twenty bytes long. -/
  | badMessageLength
  deriving DecidableEq, Repr

/-- The wording of a fault. -/
def Fault.message : Fault → String
  | .short => "not enough bytes for the header"
  | .badVersion => "unexpected IP version"
  | .badHeaderLength => "header length too small"
  | .badTotalLength => "length field does not fit the bytes present"
  | .emptyAuthentication => "authentication header of length zero"
  | .lateHopByHop => "hop-by-hop options not at the start"
  | .badDataOffset => "bad TCP data offset"
  | .badDatagramLength => "bad UDP length"
  | .badMessageLength => "bad ICMP timestamp length"

end Trawl.Packet
