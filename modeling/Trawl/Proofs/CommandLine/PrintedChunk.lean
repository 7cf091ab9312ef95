import Trawl.CommandLine.PrintedRecord
import Trawl.Proofs.Json.RoundTrip
import Trawl.Proofs.Text.Base64

/-!
# Printed pieces of content

The record of a piece of content, as it is printed on a line of its own, still holds the whole
piece: its type, its length, and every byte of it, which are found again in the way that the record
itself names.
-/

namespace Trawl.CommandLine

/-- The bytes that content is written as stand for it, whether it is text or not. -/
theorem ContentEncoding.decode?_encode (content : Bytes) :
    (encode content).1.decode? (encode content).2 = some content := by
  unfold encode
  split
  · rename_i text htext
    exact congrArg some (Bytes.ofText_of_toText? htext)
  · exact Text.Base64.decode?_encode content

/-- Without the indentation a record is one line, and with it or without it is the same JSON value:
one from which the type of the piece, its length and its bytes can be taken. -/
theorem chunk_printed_whole (c : Content.Chunk) :
    (∀ b ∈ Bytes.ofText (printed false (chunkRecord c)), 0x20 ≤ b) ∧
      ∃ (record : Json) (encoding : ContentEncoding) (text : String),
        Json.parse (printed false (chunkRecord c)) = .ok record ∧
        Json.parse (printed true (chunkRecord c)) = .ok record ∧
        record.field? "kind" = some (.text "chunk") ∧
        record.field? "type" = some (.text c.kind) ∧
        record.field? "length" = some (.number c.content.length) ∧
        record.field? "encoding" = some (.text encoding.name) ∧
        record.field? "content" = some (.text text) ∧
        encoding.decode? text = some c.content := by
  refine ⟨Json.le_of_mem_ofText_compact _, chunkRecord c, (ContentEncoding.encode c.content).1,
    (ContentEncoding.encode c.content).2, Json.parse_compact _, Json.parse_pretty _, rfl, rfl, rfl,
    rfl, rfl, ContentEncoding.decode?_encode c.content⟩

end Trawl.CommandLine
