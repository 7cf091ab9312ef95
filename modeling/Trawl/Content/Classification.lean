import Trawl.Content.Chunk
import Trawl.Content.Declared
import Trawl.Content.Http.Message
import Trawl.Content.Signature

/-!
# Classification

Bytes are split into typed pieces of content. What decides is, in this order: a declared encoding, a
declared media type, a start line of a message, a signature, and whether the bytes are text. A
message gives a piece for its head and the pieces of its body, and what follows it is split in turn.

Two limits bound the work. Decompressing is nested at most as deep as the limits allow; bytes beyond
that stay compressed. Bodies are searched for messages down to eight levels. All decompressing within
one call draws on one budget.
-/

namespace Trawl.Content

/-- The limits of one classification. -/
structure Limits where
  /-- How many decompressions content may lie under. -/
  unwraps : Nat
  /-- How many bytes all decompressions may give. -/
  decompressed : Nat
  deriving DecidableEq, Repr

/-- How deep messages are looked for in the bodies of messages. -/
def maxMessageNesting : Nat := 8

/-- A piece of content and what it lies in. -/
structure Piece where
  chunk : Chunk
  /-- How many encodings it lay under. -/
  unwraps : Nat
  /-- In the bodies of how many messages it lies. -/
  messages : Nat
  deriving DecidableEq, Repr

/-- What splitting bytes comes to. What was found before a fault is lost to the caller, but it was
found. -/
structure Splitting where
  pieces : List Piece
  /-- How many bytes each encoding gave that was undone. -/
  unwrapped : List Nat
  /-- How many bytes decompressing may still give, or the fault that ended the splitting. -/
  outcome : Except Fault Nat

namespace Splitting

/-- Nothing was found. -/
def nothing (outcome : Except Fault Nat) : Splitting :=
  ⟨[], [], outcome⟩

/-- What was split had come out of an encoding that gave `size` bytes. -/
def unwrap (size : Nat) (s : Splitting) : Splitting where
  pieces := s.pieces.map fun p => { p with unwraps := p.unwraps + 1 }
  unwrapped := size :: s.unwrapped
  outcome := s.outcome

/-- What was split is the body of a message with a head. -/
def embody (head : Chunk) (s : Splitting) : Splitting where
  pieces := ⟨head, 0, 0⟩ :: s.pieces.map fun p => { p with messages := p.messages + 1 }
  unwrapped := s.unwrapped
  outcome := s.outcome

/-- The typed pieces of content, in order. -/
def chunks (s : Splitting) : List Chunk :=
  s.pieces.map (·.chunk)

/-- The pieces, unless there was a fault. -/
def result (s : Splitting) : Except Fault (List Chunk) :=
  s.outcome.map fun _ => s.chunks

/-- Adds what was found to what was found before, of which the last comes first. -/
def onto (s before : Splitting) : Splitting where
  pieces := s.pieces.reverseAux before.pieces
  unwrapped := s.unwrapped.reverseAux before.unwrapped
  outcome := s.outcome

/-- Brings the first to the front. -/
def inOrder (s : Splitting) : Splitting where
  pieces := s.pieces.reverse
  unwrapped := s.unwrapped.reverse
  outcome := s.outcome

end Splitting

/-- A way to split bytes, given how many bytes decompressing may still give. -/
abbrev Splitter : Type :=
  Nat → Bytes → Splitting

/-- Takes bytes as one piece. -/
def whole (kind : String) : Splitter :=
  fun budget b => ⟨[⟨⟨kind, b⟩, 0, 0⟩], [], .ok budget⟩

/-- Undoes an encoding and splits the result. -/
def splitUnwrapped (limit : Nat) (encoding : Compressed) (split : Splitter) : Splitter :=
  fun budget b =>
    match encoding.decode budget b with
    | .error .tooLarge => .nothing (.error (.tooLarge limit))
    | .error .corrupt => .nothing (.error (.decompression encoding))
    | .ok data => (split (budget - data.length) data).unwrap data.length

/-- Splits bytes that are no message. `inner` is for what gzip members hold, where unwrapping them is
allowed. -/
def splitUnframed (limit : Nat) (inner : Option Splitter) : Splitter :=
  fun budget b =>
    match Signature.recognize? b, inner with
    | some kind, some split =>
      if kind = Signature.gzipKind then splitUnwrapped limit .gzip split budget b
      else whole kind budget b
    | some kind, none => whole kind budget b
    | none, _ => whole (if isPlainText b then plainTextKind else unknownKind) budget b

/-- Splits bytes about which something is declared. `here` is for bytes that are not encoded, `inner`
for what encoded bytes hold; each takes the declared media type. -/
def splitDeclared (limit : Nat) (inner : Option (Option String → Splitter))
    (here : Option String → Splitter) (declared : Declared) : Splitter :=
  match declared.encoding, inner with
  | none, _ => here declared.mediaType
  | some _, none => splitUnframed limit none
  | some encoding, some split => splitUnwrapped limit encoding (split declared.mediaType)

/-- The pieces of one message. -/
def splitMessage (body : Declared → Splitter) (m : Http.Message) (budget : Nat) : Splitting :=
  match m.body? with
  | none => whole m.kind.name budget m.whole
  | some b =>
    (body (.ofTexts m.contentEncoding m.contentType) budget b).embody ⟨m.kind.name, m.head⟩

/-- Splits a message and everything after it. `before` is what was found before, the last one first. -/
def splitMessages (body : Declared → Splitter) (unframed : Splitter) (before : Splitting)
    (kind : Http.Kind) (budget : Nat) (b : Bytes) : Splitting :=
  match _h : Http.Message.parse kind b with
  | .error fault => ((Splitting.nothing (.error fault)).onto before).inOrder
  | .ok m =>
    let found := (splitMessage body m budget).onto before
    match found.outcome with
    | .error _ => found.inOrder
    | .ok budget =>
      if m.following.isEmpty then found.inOrder
      else
        match Http.StartLine.leading? m.following with
        | some kind => splitMessages body unframed found kind budget m.following
        | none => ((unframed budget m.following).onto found).inOrder
termination_by b.length
decreasing_by exact Http.Message.length_following _h

/-- Splits bytes that are not encoded. `messages` is for messages of a kind, where they are looked
for. -/
def splitPlain (unframed : Splitter) (messages : Option (Http.Kind → Splitter))
    (mediaType : Option String) : Splitter :=
  fun budget b =>
    if b.isEmpty then .nothing (.ok budget)
    else
      match mediaType with
      | some kind => whole kind budget b
      | none =>
        match messages.bind fun split => (Http.StartLine.first? b).map split with
        | some split => split budget b
        | none => unframed budget b

/-- A way to split bytes of a declared media type, depending on how many levels of messages are still
looked for. -/
abbrev Level : Type :=
  Nat → Option String → Splitter

/-- Splits bytes that are not encoded; `inner` is for what lies under one more decompression. -/
def splitNested (limit : Nat) (inner : Option Level) : Level
  | 0 => splitPlain (splitUnframed limit (inner.map fun split => split 0 none)) none
  | room + 1 =>
    let unframed := splitUnframed limit (inner.map fun split => split (room + 1) none)
    let body := splitDeclared limit (inner.map fun split => split room)
      (splitNested limit inner room)
    splitPlain unframed (some fun kind budget =>
      splitMessages body unframed (.nothing (.ok budget)) kind budget)

/-- Splits bytes under which so many decompressions are allowed. -/
def splitWithin (limit : Nat) : (unwraps : Nat) → Level
  | 0 => splitNested limit none
  | unwraps + 1 => splitNested limit (some (splitWithin limit unwraps))

/-- What lies under one decompression, where so many are allowed. -/
def inner? (limit : Nat) : (unwraps : Nat) → Option Level
  | 0 => none
  | unwraps + 1 => some (splitWithin limit unwraps)

/-- Splits bytes with the limits of one classification. -/
def split (limits : Limits) (declared : Declared) (b : Bytes) : Splitting :=
  splitDeclared limits.decompressed
    ((inner? limits.decompressed limits.unwraps).map fun level => level maxMessageNesting)
    (splitWithin limits.decompressed limits.unwraps maxMessageNesting)
    declared limits.decompressed b

/-- The typed pieces of content in bytes. The first two texts declare their encoding and their media
type. -/
def classify (limits : Limits) (encoding mediaType : Option String) (b : Bytes) :
    Except Fault (List Chunk) :=
  (split limits (.ofTexts encoding mediaType) b).result

end Trawl.Content
