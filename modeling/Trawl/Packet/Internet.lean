import Trawl.Address
import Trawl.Packet.Fault

/-!
# Internet datagrams

IPv4 and IPv6 packets, cut into the fixed header and the payload that is left after the extension
headers. Bytes beyond the length that the header states are not part of the packet.
-/

namespace Trawl.Packet

/-- Protocol numbers and extension header numbers. -/
def hopByHopOptions : UInt8 := 0
def protocolICMPv4 : UInt8 := 1
def protocolTCP : UInt8 := 6
def protocolUDP : UInt8 := 17
def routingHeader : UInt8 := 43
def fragmentHeader : UInt8 := 44
def authenticationHeader : UInt8 := 51
def protocolICMPv6 : UInt8 := 58
def destinationOptions : UInt8 := 60

/-- What follows a header: the number of the next one, whether the payload is a fragment, and the
bytes. -/
structure Following where
  protocol : UInt8
  fragment : Bool
  payload : Bytes
  deriving DecidableEq, Repr

/-- An IP packet taken apart. -/
structure Datagram where
  source : IPAddress
  target : IPAddress
  /-- The fixed header, that of IPv4 with its options. -/
  header : Bytes
  /-- What the extension headers leave. -/
  following : Following
  deriving DecidableEq, Repr

/-- Takes off a header of `size` bytes whose first octet numbers the next one. -/
def takeHeader (size : Nat) (f : Following) : Except Fault Following :=
  match f.payload.split? size with
  | some (header, rest) => .ok ⟨header.octet 0, f.fragment, rest⟩
  | none => .error .short

/-- Takes off an authentication header: twelve bytes or more, their number in words of four, less
two, in the second octet. -/
def takeAuthentication (f : Following) : Except Fault Following :=
  if !f.payload.longerThan 11 then .error .short
  else if f.payload.octet 1 = 0 then .error .emptyAuthentication
  else takeHeader (((f.payload.octet 1).toNat + 2) * 4) f

/-- Takes off an options or routing header: its size is in the second octet, in units of eight
bytes beyond the first eight. -/
def takeOptions (f : Following) : Except Fault Following :=
  if !f.payload.longerThan 7 then .error .short
  else takeHeader (((f.payload.octet 1).toNat + 1) * 8) f

/-- Takes off a fragment header. The payload is a fragment if it starts at an offset or more
fragments follow. -/
def takeFragment (f : Following) : Except Fault Following :=
  let position := (f.payload.field 2 2).bigEndian
  (takeHeader 8 f).map fun next =>
    { next with fragment := next.fragment || position / 8 ≠ 0 || position % 2 ≠ 0 }

theorem length_takeHeader {size : Nat} (hs : 0 < size) {f g : Following}
    (h : takeHeader size f = .ok g) : g.payload.length < f.payload.length := by
  simp only [takeHeader] at h
  split at h
  · rename_i header rest hsplit
    obtain ⟨hp, hl⟩ := Bytes.split?_eq_some hsplit
    simp only [Except.ok.injEq] at h
    subst h
    simp only [hp, List.length_append]
    omega
  · simp at h

theorem length_takeAuthentication {f g : Following} (h : takeAuthentication f = .ok g) :
    g.payload.length < f.payload.length := by
  simp only [takeAuthentication] at h
  split at h
  · simp at h
  split at h
  · simp at h
  exact length_takeHeader (by omega) h

theorem length_takeOptions {f g : Following} (h : takeOptions f = .ok g) :
    g.payload.length < f.payload.length := by
  simp only [takeOptions] at h
  split at h
  · simp at h
  exact length_takeHeader (by omega) h

theorem length_takeFragment {f g : Following} (h : takeFragment f = .ok g) :
    g.payload.length < f.payload.length := by
  simp only [takeFragment] at h
  cases ht : takeHeader 8 f with
  | error e => simp [ht, Except.map] at h
  | ok next =>
    simp only [ht, Except.map, Except.ok.injEq] at h
    subst h
    have hlt := length_takeHeader (by decide) ht
    exact hlt

/-- Takes off the extension headers of IPv6 up to the first number that is none. -/
def takeExtensions (f : Following) : Except Fault Following :=
  if f.protocol = hopByHopOptions then .error .lateHopByHop
  else if f.protocol = destinationOptions ∨ f.protocol = routingHeader then
    match _h : takeOptions f with
    | .ok next => takeExtensions next
    | .error fault => .error fault
  else if f.protocol = fragmentHeader then
    match _h : takeFragment f with
    | .ok next => takeExtensions next
    | .error fault => .error fault
  else if f.protocol = authenticationHeader then
    match _h : takeAuthentication f with
    | .ok next => takeExtensions next
    | .error fault => .error fault
  else .ok f
termination_by f.payload.length
decreasing_by
  · exact length_takeOptions _h
  · exact length_takeFragment _h
  · exact length_takeAuthentication _h

/-- An IPv4 packet. Of the extension headers only one authentication header can follow. -/
def ipv4 (data : Bytes) : Except Fault Datagram := do
  if !data.longerThan 19 then throw .short
  if data.octet 0 / 16 ≠ 4 then throw .badVersion
  let headerLength := (data.octet 0 % 16).toNat * 4
  if headerLength < 20 then throw .badHeaderLength
  let totalLength := (data.field 2 2).bigEndian
  if totalLength < headerLength then throw .badTotalLength
  let (packet, _) ← match data.split? totalLength with
    | some parts => pure parts
    | none => throw .badTotalLength
  let position := (data.field 6 2).bigEndian % 0x4000
  let direct : Following := ⟨data.octet 9, position ≠ 0, packet.drop headerLength⟩
  let following ←
    if direct.protocol = authenticationHeader then takeAuthentication direct else pure direct
  return {
    source := .v4 (.ofBytes (data.field 12 4))
    target := .v4 (.ofBytes (data.field 16 4))
    header := packet.take headerLength
    following }

/-- An IPv6 packet. A payload length of zero stands for all bytes that are there. -/
def ipv6 (data : Bytes) : Except Fault Datagram := do
  let (header, rest) ← match data.split? 40 with
    | some parts => pure parts
    | none => throw .short
  if header.octet 0 / 16 ≠ 6 then throw .badVersion
  let payloadLength := (header.field 4 2).bigEndian
  let payload ←
    if payloadLength = 0 then pure rest
    else match rest.split? payloadLength with
      | some (payload, _) => pure payload
      | none => throw .badTotalLength
  let direct : Following := ⟨header.octet 6, false, payload⟩
  let afterHops ← if direct.protocol = hopByHopOptions then takeOptions direct else pure direct
  let following ← takeExtensions afterHops
  return {
    source := .v6 (.ofBytes (header.field 8 16))
    target := .v6 (.ofBytes (header.field 24 16))
    header
    following }

/-- An IP packet of the version that its first four bits name. -/
def internet (data : Bytes) : Except Fault Datagram :=
  match data with
  | [] => .error .short
  | b :: _ =>
    if b / 16 = 4 then ipv4 data
    else if b / 16 = 6 then ipv6 data
    else .error .badVersion

end Trawl.Packet
