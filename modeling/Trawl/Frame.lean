import Trawl.Packet.Link
import Trawl.Record
import Trawl.Reassembly.Pool

/-!
# Decoded frames

A frame is a record taken apart into its layers. Decoding never fails: whatever could not be decoded
is described by the fault, and the layers found before it are kept.
-/

namespace Trawl

/-- The layers a frame can have. -/
inductive LayerKind where
  | ethernet
  | ipv4
  | ipv6
  | tcp
  | udp
  | icmpv4
  | icmpv6
  | payload
  | decodeFailure
  deriving DecidableEq, Repr

/-- The name of a layer in views and summaries. -/
def LayerKind.name : LayerKind → String
  | .ethernet => "Ethernet"
  | .ipv4 => "IPv4"
  | .ipv6 => "IPv6"
  | .tcp => "TCP"
  | .udp => "UDP"
  | .icmpv4 => "ICMPv4"
  | .icmpv6 => "ICMPv6"
  | .payload => "Payload"
  | .decodeFailure => "DecodeFailure"

/-- What the two sides of a layer are named by. -/
inductive PeerKind where
  | mac
  | ipv4
  | ipv6
  | tcpPort
  | udpPort
  deriving DecidableEq, Repr

/-- The name of a kind of peer in views. -/
def PeerKind.name : PeerKind → String
  | .mac => "MAC"
  | .ipv4 => "IPv4"
  | .ipv6 => "IPv6"
  | .tcpPort => "TCP"
  | .udpPort => "UDP"

/-- Who sends and who receives on a layer. -/
structure Peers where
  source : String
  target : String
  kind : PeerKind
  deriving DecidableEq, Repr

/-- Both peers, joined by an arrow. -/
def Peers.toText (p : Peers) : String :=
  p.source ++ "->" ++ p.target

/-- One layer of a frame. -/
structure Layer where
  kind : LayerKind
  /-- The header bytes of this layer. -/
  contents : Bytes
  /-- The bytes that this layer carries for the next one. -/
  payload : Bytes
  /-- Its peers, on layers that name any. -/
  peers : Option Peers
  deriving DecidableEq, Repr

/-- Why a frame was decoded in part only. -/
inductive FrameFault where
  | malformed (fault : Packet.Fault)
  | unsupportedLink (linkType : Int)
  deriving DecidableEq, Repr

/-- The wording of a fault. -/
def FrameFault.message : FrameFault → String
  | .malformed fault => "packet slice error: " ++ fault.message
  | .unsupportedLink linkType => "unsupported linktype: " ++ toString linkType

/-- The layers found in the bytes of a record. -/
structure Layers where
  link : Option Layer
  network : Option Layer
  transport : Option Layer
  application : Option Layer
  /-- The header fields of a TCP segment. -/
  segment : Option Reassembly.Segment
  fault : Option FrameFault
  deriving DecidableEq, Repr

/-- A decoded record. -/
structure Frame where
  record : Record
  layers : Layers
  deriving DecidableEq, Repr

namespace Layers

/-- No layer and no fault. -/
def none : Layers :=
  ⟨.none, .none, .none, .none, .none, .none⟩

/-- The link layer of an Ethernet frame, if its header is complete. -/
def ethernet? (data : Bytes) : Option Layer :=
  (data.split? 14).map fun (header, payload) =>
    { kind := .ethernet
      contents := header
      payload
      peers := some ⟨hardwareText (header.field 6 6), hardwareText (header.field 0 6), .mac⟩ }

/-- The network layer of a datagram. -/
def networkLayer (d : Packet.Datagram) : Layer :=
  let (kind, peerKind) := match d.source with
    | .v4 _ => (LayerKind.ipv4, PeerKind.ipv4)
    | .v6 _ => (LayerKind.ipv6, PeerKind.ipv6)
  { kind
    contents := d.header
    payload := d.following.payload
    peers := some ⟨d.source.toText, d.target.toText, peerKind⟩ }

/-- The front of the network payload that is as long as what a transport payload leaves of it. -/
def headerBeside (carried payload : Bytes) : Bytes :=
  carried.take (carried.length - payload.length)

/-- Peers named by port numbers. -/
def portPeers (source target : UInt16) (kind : PeerKind) : Peers :=
  ⟨toString source.toNat, toString target.toNat, kind⟩

/-- The transport layer inside the payload `carried` of a datagram. ICMP messages are split after
eight bytes and name no peers. -/
def transportLayer (carried : Bytes) : Packet.Transport → Layer
  | .tcp source target _ _ _ _ payload =>
    ⟨.tcp, headerBeside carried payload, payload, some (portPeers source target .tcpPort)⟩
  | .udp source target payload =>
    ⟨.udp, headerBeside carried payload, payload, some (portPeers source target .udpPort)⟩
  | .icmpv4 => ⟨.icmpv4, carried.take 8, carried.drop 8, .none⟩
  | .icmpv6 => ⟨.icmpv6, carried.take 8, carried.drop 8, .none⟩

/-- The fields of a TCP header that reassembly needs. -/
def segment? (d : Packet.Datagram) : Packet.Transport → Option Reassembly.Segment
  | .tcp source target sequence syn fin rst _ =>
    some {
      source := .ofAddress d.source source
      target := .ofAddress d.target target
      sequence, syn, fin, rst }
  | _ => .none

/-- The application layer: a transport payload, unless it is empty. -/
def application? (payload : Bytes) : Option Layer :=
  if payload.isEmpty then .none else some ⟨.payload, payload, [], .none⟩

/-- The layers of a packet above its link layer. -/
def ofSliced (link : Option Layer) (s : Packet.Sliced) : Layers :=
  let found : Layers := { none with link, network := some (networkLayer s.datagram) }
  match s.transport with
  | .none => found
  | some t =>
    let layer := transportLayer s.datagram.following.payload t
    { found with
      transport := some layer
      application := application? layer.payload
      segment := segment? s.datagram t }

/-- The layers above a link layer, given the outcome of taking the packet apart. -/
def ofOutcome (link : Option Layer) : Except Packet.Fault (Option Packet.Sliced) → Layers
  | .error fault => { none with link, fault := some (.malformed fault) }
  | .ok .none => { none with link }
  | .ok (some s) => ofSliced link s

/-- The layers of the bytes captured on a kind of link. -/
def decode (linkType : Int) (data : Bytes) : Layers :=
  if linkType = linkEthernet then ofOutcome (ethernet? data) (Packet.ofEthernet data)
  else if linkType = linkRawIP then ofOutcome .none (Packet.ofRawIP data)
  else { none with fault := some (.unsupportedLink linkType) }

end Layers

namespace Frame

/-- Decodes a record. -/
def decode (r : Record) : Frame :=
  ⟨r, Layers.decode r.linkType r.data⟩

/-- How many bytes were captured. -/
def captureLength (f : Frame) : Nat :=
  f.record.data.length

/-- The length on the wire: what the source states, at least what was captured. -/
def length (f : Frame) : Nat :=
  max f.record.wireLength.toNat f.captureLength

/-- Whether bytes are missing from the capture. -/
def truncated (f : Frame) : Bool :=
  f.captureLength < f.length

/-- When the frame was captured, empty if that is unknown. -/
def timeText (f : Frame) : String :=
  (f.record.time.bind (·.toText?)).getD ""

/-- The application bytes, none where there is no application layer. -/
def payload (f : Frame) : Bytes :=
  match f.layers.application with
  | some layer => layer.contents
  | none => []

/-- The layer that stands for a decoding fault; it holds all bytes. -/
def faultLayer? (f : Frame) : Option Layer :=
  f.layers.fault.map fun _ => ⟨.decodeFailure, f.record.data, [], none⟩

/-- The layers that are present, lowest first. -/
def present (f : Frame) : List Layer :=
  [f.layers.link, f.layers.network, f.layers.transport, f.layers.application,
    f.faultLayer?].filterMap id

/-- A layer in one phrase: its name and, where it names any, its peers. -/
def phrase (l : Layer) : String :=
  match l.peers with
  | some peers => l.kind.name ++ " " ++ peers.toText
  | none => l.kind.name

/-- A frame in one line. -/
def summary (f : Frame) : String :=
  toString f.length ++ " bytes (" ++ toString f.captureLength ++ " captured): " ++
    " / ".intercalate (f.present.map phrase)

end Frame

end Trawl
