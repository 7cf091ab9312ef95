import Trawl.Content.Fault
import Trawl.Content.Http.Chunked

/-!
# Messages

A message is its head and the bytes that the head frames after it: a chunked body, a body of a
stated length, nothing, or, in a response that states nothing, everything. Head, framed bytes and
what follows make up the bytes that were read (`parse_eq`), and the head is never empty
(`length_following`).
-/

namespace Trawl.Content.Http

/-- A message at the front of some bytes. -/
structure Message where
  kind : Kind
  /-- The bytes of the head. -/
  head : Bytes
  /-- The bytes after the head that belong to the message. -/
  framed : Bytes
  /-- Whether the framed bytes are the body as it is. -/
  verbatim : Bool
  /-- The bytes after the message. -/
  following : Bytes
  contentType : Option String
  contentEncoding : Option String
  deriving DecidableEq, Repr

namespace Message

/-- Header names as they are compared. -/
def nameContentLength : Bytes := .ofText "content-length"
def nameContentType : Bytes := .ofText "content-type"
def nameContentEncoding : Bytes := .ofText "content-encoding"
def nameTransferEncoding : Bytes := .ofText "transfer-encoding"

/-- A byte with an ASCII letter in lower case. -/
def lower (b : UInt8) : UInt8 :=
  if 0x41 ≤ b && b ≤ 0x5A then b + 0x20 else b

/-- The text of the first header of a name. -/
def value? (name : Bytes) (headers : List Header) : Option (List Char) :=
  (headers.find? fun header => header.name.map lower = name).map fun header =>
    Text.Utf8.lossy header.value

/-- What stands after the last comma. -/
def lastItem (cs : List Char) : List Char :=
  (cs.reverse.takeWhile (· ≠ ',')).reverse

/-- Whether a transfer encoding ends with chunking. -/
def isChunked (value : List Char) : Bool :=
  (Text.trim (lastItem value)).map Char.toLower = "chunked".toList

/-- A length: a decimal number of 64 bits, white space around it and one plus before it allowed. -/
def length? (value : List Char) : Option Nat :=
  let digits := match Text.trim value with
    | '+' :: digits => digits
    | digits => digits
  if digits.isEmpty || !digits.all Char.isDigit then none
  else
    let n := digits.foldl (fun n c => n * 10 + (c.toNat - 48)) 0
    if n < 0x10000000000000000 then some n else none

/-- How the end of a message is found. -/
inductive Framing where
  | chunked
  | counted (length : Nat)
  /-- There is no body. -/
  | bare
  /-- The body goes on to the end. -/
  | endless
  deriving DecidableEq, Repr

/-- Whether responses with a status never have a body. -/
def isBodyless (status : Nat) : Bool :=
  (100 ≤ status && status < 200) || status = 204 || status = 304

/-- The framing that a head states. A chunked transfer encoding counts before a length, a length
before the status; but a length that is no number is a fault in any case. -/
def framing (kind : Kind) (head : Head) : Except Fault Framing :=
  let chunked := ((value? nameTransferEncoding head.headers).map isChunked).getD false
  let unstated : Framing :=
    if kind = .request || (head.status.map isBodyless).getD false then .bare else .endless
  match value? nameContentLength head.headers with
  | some value =>
    match length? value with
    | none => .error .invalidLength
    | some length => .ok (if chunked then .chunked else .counted length)
  | none => .ok (if chunked then .chunked else unstated)

/-- The bytes that belong to a message after its head, and the bytes after those. -/
def splitBody (framing : Framing) (rest : Bytes) : Except Fault (Bytes × Bytes) :=
  match framing with
  | .chunked =>
    match (Chunked.length? rest).bind rest.split? with
    | none => .error .malformedChunks
    | some parts => .ok parts
  | .counted length =>
    match rest.split? length with
    | none => .error (.truncatedBody length rest.length)
    | some parts => .ok parts
  | .bare => .ok ([], rest)
  | .endless => .ok (rest, [])

/-- The message of a kind at the front. -/
def parse (kind : Kind) (b : Bytes) : Except Fault Message :=
  match Head.scan kind ⟨0, b⟩ with
  | .short => .error .incompleteHead
  | .bad fault => .error (.head fault)
  | .found head next =>
    match framing kind head with
    | .error fault => .error fault
    | .ok framing =>
      match splitBody framing next.rest with
      | .error fault => .error fault
      | .ok (framed, following) =>
        .ok {
          kind
          head := b.take next.offset
          framed
          verbatim := framing ≠ .chunked
          following
          contentType := (value? nameContentType head.headers).map .ofList
          contentEncoding := (value? nameContentEncoding head.headers).map .ofList }

/-- The bytes of a message. -/
def whole (m : Message) : Bytes :=
  m.head ++ m.framed

/-- The body of a message, where it stands among the bytes as it is and is not empty. -/
def body? (m : Message) : Option Bytes :=
  if m.verbatim && !m.framed.isEmpty then some m.framed else none

theorem body?_eq_some {m : Message} {b : Bytes} (h : m.body? = some b) :
    b = m.framed ∧ b ≠ [] := by
  unfold body? at h
  split at h
  · rename_i hframed
    obtain rfl := Option.some.inj h
    simp only [Bool.and_eq_true, Bool.not_eq_true', List.isEmpty_eq_false_iff] at hframed
    exact ⟨rfl, hframed.2⟩
  · simp at h

theorem append_of_splitBody {framing : Framing} {rest framed following : Bytes}
    (h : splitBody framing rest = .ok (framed, following)) : rest = framed ++ following := by
  unfold splitBody at h
  split at h
  · split at h
    · simp at h
    · rename_i parts hp
      simp only [Except.ok.injEq] at h
      subst h
      obtain ⟨n, -, hs⟩ := Option.bind_eq_some_iff.mp hp
      exact (Bytes.split?_eq_some hs).1
  · split at h
    · simp at h
    · rename_i parts hp
      simp only [Except.ok.injEq] at h
      subst h
      exact (Bytes.split?_eq_some hp).1
  · simp only [Except.ok.injEq, Prod.mk.injEq] at h
    simp [← h.1, ← h.2]
  · simp only [Except.ok.injEq, Prod.mk.injEq] at h
    simp [← h.1, ← h.2]

/-- Head, framed bytes and what follows are the bytes that were read, and the head is not empty. -/
theorem parse_eq {kind : Kind} {b : Bytes} {m : Message} (h : parse kind b = .ok m) :
    b = m.head ++ m.framed ++ m.following ∧ m.head ≠ [] := by
  unfold parse at h
  split at h
  · simp at h
  · simp at h
  · rename_i head next hs
    obtain ⟨passed, hr, ho, hl⟩ := Head.passes_scan kind _ _ _ hs
    simp only at hr ho
    split at h
    · simp at h
    split at h
    · simp at h
    · rename_i hc
      simp only [Except.ok.injEq] at h
      subst h
      have hh : b.take next.offset = passed := by
        rw [ho, hr, Nat.zero_add, List.take_left]
      simp only [hh]
      refine ⟨?_, fun he => by simp [he] at hl⟩
      rw [List.append_assoc, ← append_of_splitBody hc]
      exact hr

theorem length_following {kind : Kind} {b : Bytes} {m : Message} (h : parse kind b = .ok m) :
    m.following.length < b.length := by
  obtain ⟨hb, hh⟩ := parse_eq h
  have := List.length_pos_iff.mpr hh
  rw [hb]
  simp only [List.length_append]
  omega

end Message

end Trawl.Content.Http
