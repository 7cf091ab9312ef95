import Trawl.Frame
import Trawl.Json.Value

/-!
# The structured view of a frame

A frame as a JSON value with a fixed set of fields: every layer is there, absent ones with empty
parts, and byte strings are lists of numbers. Predicates written against it need not know which
layers a frame has.
-/

namespace Trawl.Frame

/-- A byte string as a list of numbers. -/
def bytesDocument (b : Bytes) : Json :=
  .list (b.map fun octet => .number octet.toNat)

/-- The peers of a layer, with empty texts where there are none. -/
def peersDocument (p : Option Peers) : Json :=
  let part (text : Peers → String) : Json := .text ((p.map text).getD "")
  .object [("Src", part (·.source)), ("Dst", part (·.target)), ("String", part (·.toText)),
    ("EndpointType", part (·.kind.name))]

/-- A layer, with empty parts where it is absent. -/
def layerDocument (l : Option Layer) : Json :=
  .object [
    ("LayerType", .text ((l.map (·.kind.name)).getD "")),
    ("LayerPayload", bytesDocument ((l.map (·.payload)).getD [])),
    ("LayerContents", bytesDocument ((l.map (·.contents)).getD [])),
    ("Flow", peersDocument (l.bind (·.peers)))]

/-- The structured view. -/
def document (f : Frame) : Json :=
  .object [
    ("Data", bytesDocument f.record.data),
    ("Metadata", .object [
      ("Length", .number f.length),
      ("CaptureLength", .number f.captureLength),
      ("Truncated", .bool f.truncated),
      ("InterfaceIndex", .number f.record.interface.toNat),
      ("Timestamp", .text f.timeText)]),
    ("LinkLayer", layerDocument f.layers.link),
    ("NetworkLayer", layerDocument f.layers.network),
    ("TransportLayer", layerDocument f.layers.transport),
    ("ApplicationLayer", layerDocument f.layers.application),
    ("ErrorLayer", layerDocument f.faultLayer?)]

end Trawl.Frame
