import Trawl.Frame
import Trawl.Content.Chunk
import Trawl.Json.Printer
import Trawl.Text.Base64

/-!
# Printed records

Frames and pieces of content as the JSON records that a capture prints. Content that is UTF-8 is
printed as text and anything else in base64, so nothing is lost.
-/

namespace Trawl.CommandLine

/-- How the bytes of a piece of content are written. -/
inductive ContentEncoding where
  | utf8
  | base64
  deriving DecidableEq, Repr

/-- The name of an encoding. -/
def ContentEncoding.name : ContentEncoding → String
  | .utf8 => "utf8"
  | .base64 => "base64"

/-- The text for bytes, and how to read it. -/
def ContentEncoding.encode (content : Bytes) : ContentEncoding × String :=
  match content.toText? with
  | some text => (.utf8, text)
  | none => (.base64, Text.Base64.encode content)

/-- The bytes that a text stands for. -/
def ContentEncoding.decode? (text : String) : ContentEncoding → Option Bytes
  | .utf8 => some (Bytes.ofText text)
  | .base64 => Text.Base64.decode? text

/-- The record of a frame. -/
def packetRecord (f : Frame) : Json :=
  .object [("kind", .text "packet"), ("timestamp", .text f.timeText), ("length", .number f.length),
    ("capture_length", .number f.captureLength), ("summary", .text f.summary)]

/-- The record of a piece of content. -/
def chunkRecord (c : Content.Chunk) : Json :=
  let (encoding, text) := ContentEncoding.encode c.content
  .object [("kind", .text "chunk"), ("type", .text c.kind), ("length", .number c.content.length),
    ("encoding", .text encoding.name), ("content", .text text)]

/-- A record as it is printed. -/
def printed (pretty : Bool) (record : Json) : String :=
  if pretty then record.pretty else record.compact

end Trawl.CommandLine
