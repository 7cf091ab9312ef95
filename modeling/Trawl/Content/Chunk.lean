import Trawl.Text.CharClass
import Trawl.Text.Utf8

/-!
# Pieces of content

A piece of content is a run of bytes with the type it was recognized as.
-/

namespace Trawl.Content

/-- A typed piece of content. -/
structure Chunk where
  /-- A media type, the kind of a message, or one of the two types below. -/
  kind : String
  content : Bytes
  deriving DecidableEq, Repr

/-- The type of text that is nothing more. -/
def plainTextKind : String := "text/plain"

/-- The type of bytes that nothing is known about. -/
def unknownKind : String := "unknown"

/-- A character of plain text: any but the control characters that are no white space. -/
def isPlain (c : Char) : Bool :=
  !Text.isControl c || Text.isWhiteSpace c

/-- Whether bytes are the UTF-8 form of plain text. -/
def isPlainText (b : Bytes) : Bool :=
  match _h : Text.Utf8.next? b with
  | some (c, rest) => isPlain c && isPlainText rest
  | none => b.isEmpty
termination_by b.length
decreasing_by exact Text.Utf8.length_of_next? _h

end Trawl.Content
