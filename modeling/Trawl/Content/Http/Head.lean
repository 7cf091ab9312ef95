import Trawl.Content.Http.Scan
import Trawl.Content.Http.StartLine

/-!
# Message heads

The start line of a message and its headers, up to and with the empty line that ends them. Lines end
with a line feed, before which a carriage return may stand. At most 128 headers are taken.
-/

namespace Trawl.Content.Http

/-- A header line. -/
structure Header where
  name : Bytes
  /-- The value without blanks at either end. -/
  value : Bytes
  deriving DecidableEq, Repr

/-- The head of a message. -/
structure Head where
  /-- The status code, in the head of a response. -/
  status : Option Nat
  headers : List Header
  deriving DecidableEq, Repr

/-- How many headers a head can have. -/
def maxHeaders : Nat := 128

/-- The byte that may stand before the end of a line. -/
def carriageReturn : UInt8 := 0x0D

/-- The space. -/
def space : UInt8 := 0x20

/-- A decimal digit. -/
def isDigit (b : UInt8) : Bool :=
  0x30 ≤ b && b ≤ 0x39

/-- A character of a method or a header name: letters, digits and some signs. -/
def isToken (b : UInt8) : Bool :=
  isDigit b || (0x41 ≤ b && b ≤ 0x5A) || (0x61 ≤ b && b ≤ 0x7A) ||
    (Bytes.ofText "!#$%&'*+-.^_`|~").contains b

/-- A character of a target: visible ASCII, or part of a character beyond ASCII. -/
def isTarget (b : UInt8) : Bool :=
  (0x21 ≤ b && b ≤ 0x7E) || 0x80 ≤ b

/-- A blank within a line. -/
def isBlank (b : UInt8) : Bool :=
  b = space || b = 0x09

/-- A character of a header value or of a reason. -/
def isText (b : UInt8) : Bool :=
  isTarget b || isBlank b

namespace Head

open Scan

/-- Passes over the line feed that follows a carriage return. -/
def feed (fault : HeadFault) : Scan Unit := do
  let _ ← expect (· = lineFeed) fault

/-- Passes over the end of a line. -/
def lineEnd (fault : HeadFault) : Scan Unit := do
  let b ← octet
  if b = carriageReturn then feed fault
  else if b = lineFeed then pure ()
  else fail fault

/-- Passes over empty lines, which may stand before a start line. -/
def skipEmptyLines (offset : Nat) : Bytes → Outcome Unit
  | [] => .short
  | b :: rest =>
    if b = lineFeed then skipEmptyLines (offset + 1) rest
    else if b = carriageReturn then
      match rest with
      | [] => .short
      | b :: rest => if b = lineFeed then skipEmptyLines (offset + 2) rest else .bad .newLine
    else .found () ⟨offset, b :: rest⟩

/-- Passes over empty lines. -/
def emptyLines : Scan Unit := fun c =>
  skipEmptyLines c.offset c.rest

/-- Passes over the method and the space after it. -/
def method : Scan Unit := do
  let _ ← expect isToken .token
  let _ ← span isToken
  let _ ← expect (· = space) .token

/-- Passes over the target and the space after it. -/
def target : Scan Unit := do
  let target ← span isTarget
  let _ ← expect (· = space) .token
  if target.isEmpty || target.toText?.isNone then fail .token

/-- What the versions start with. -/
def versionMark : Bytes := .ofText "HTTP/1."

/-- Passes over the version. Fewer than eight bytes are looked at only to see whether they can be
the start of one. -/
def version : Scan Unit := fun c =>
  match c.rest.split? 8 with
  | some (text, rest) =>
    if text = versionMark ++ [0x30] ∨ text = versionMark ++ [0x31] then
      .found () ⟨c.offset + 8, rest⟩
    else .bad .version
  | none => if c.rest.isPrefixOf versionMark then .short else .bad .version

/-- The value of a decimal digit. -/
def digit : Scan Nat := do
  let b ← expect isDigit .status
  pure (b.toNat - 0x30)

/-- The status code. -/
def code : Scan Nat := do
  let hundreds ← digit
  let tens ← digit
  let ones ← digit
  pure (hundreds * 100 + tens * 10 + ones)

/-- Passes over the end of a status line: nothing, or a space and a reason. -/
def reason : Scan Unit := do
  let b ← octet
  if b = space then
    let _ ← span isText
    lineEnd .status
  else if b = carriageReturn then feed .status
  else if b = lineFeed then pure ()
  else fail .status

/-- Bytes without the blanks at their end. -/
def trimEnd (b : Bytes) : Bytes :=
  (b.reverse.dropWhile isBlank).reverse

/-- The next header, or nothing at the empty line that ends the headers. -/
def headerLine : Scan (Option Header) := do
  let b ← octet
  if b = carriageReturn then
    feed .newLine
    pure none
  else if b = lineFeed then pure none
  else if isToken b then
    let more ← span isToken
    let _ ← expect (· = 0x3A) .headerName
    let _ ← span isBlank
    let value ← span isText
    lineEnd .headerValue
    pure (some ⟨b :: more, trimEnd value⟩)
  else fail .headerName

/-- The headers, at most so many, and the empty line after them. -/
def headerLines : (room : Nat) → Scan (List Header)
  | 0 => do
    match ← headerLine with
    | none => pure []
    | some _ => fail .tooManyHeaders
  | room + 1 => do
    match ← headerLine with
    | none => pure []
    | some header =>
      let more ← headerLines room
      pure (header :: more)

/-- The start line of a kind of message. The result is the status code. -/
def startLine : Kind → Scan (Option Nat)
  | .request => do
    method
    target
    version
    lineEnd .newLine
    pure none
  | .response => do
    version
    let _ ← expect (· = space) .version
    let status ← code
    reason
    pure (some status)

/-- The head of a kind of message. -/
def scan (kind : Kind) : Scan Head := do
  emptyLines
  let status ← startLine kind
  let headers ← headerLines maxHeaders
  pure ⟨status, headers⟩

theorem passes_feed (fault : HeadFault) : (feed fault).Passes 1 :=
  (passes_expect _ fault).bind fun _ => passes_pure ()

theorem passes_lineEnd (fault : HeadFault) : (lineEnd fault).Passes 1 := by
  refine passes_octet.bind (n := 0) fun b => ?_
  split
  · exact (passes_feed fault).mono (Nat.zero_le _)
  split
  · exact passes_pure ()
  · exact passes_fail fault 0

theorem passes_skipEmptyLines {b : Bytes} {offset : Nat} {value : Unit} {c : Cursor}
    (h : skipEmptyLines offset b = .found value c) :
    ∃ passed, b = passed ++ c.rest ∧ c.offset = offset + passed.length := by
  fun_induction skipEmptyLines offset b with
  | case1 => simp at h
  | case2 offset rest ih =>
    obtain ⟨passed, hr, ho⟩ := ih h
    exact ⟨lineFeed :: passed, by simp [hr], by simp only [ho, List.length_cons]; omega⟩
  | case3 => simp at h
  | case4 offset _ rest ih =>
    obtain ⟨passed, hr, ho⟩ := ih h
    exact ⟨carriageReturn :: lineFeed :: passed, by simp [hr], by simp only [ho, List.length_cons]; omega⟩
  | case5 => simp at h
  | case6 offset b rest _ _ =>
    simp only [Outcome.found.injEq] at h
    exact ⟨[], by simp [← h.2], by simp [← h.2]⟩

theorem passes_emptyLines : emptyLines.Passes 0 := by
  intro c c' v h
  obtain ⟨passed, hr, ho⟩ := passes_skipEmptyLines h
  exact ⟨passed, hr, ho, Nat.zero_le _⟩

theorem passes_method : method.Passes 0 :=
  ((passes_expect _ _).bind fun _ => (passes_span _).bind fun _ =>
    (passes_expect _ _).bind fun _ => passes_pure ()).mono (Nat.zero_le _)

theorem passes_target : target.Passes 0 := by
  refine Passes.mono (n := 0 + (1 + 0)) ?_ (Nat.zero_le _)
  refine (passes_span _).bind fun t => (passes_expect _ _).bind fun _ => ?_
  split
  · exact passes_fail _ 0
  · exact passes_pure ()

theorem passes_version : version.Passes 0 := by
  intro c c' v h
  simp only [version] at h
  split at h
  · rename_i text rest hs
    obtain ⟨hr, hl⟩ := Bytes.split?_eq_some hs
    split at h
    · simp only [Outcome.found.injEq] at h
      exact ⟨text, by rw [hr, ← h.2], by rw [hl, ← h.2], Nat.zero_le _⟩
    · simp at h
  · split at h <;> simp at h

theorem passes_digit : digit.Passes 1 :=
  (passes_expect _ _).bind fun _ => passes_pure _

theorem passes_code : code.Passes 0 :=
  (passes_digit.bind fun _ => passes_digit.bind fun _ => passes_digit.bind fun _ =>
    passes_pure _).mono (Nat.zero_le _)

theorem passes_reason : reason.Passes 0 := by
  refine Passes.mono (n := 1 + 0) ?_ (Nat.zero_le _)
  refine passes_octet.bind fun b => ?_
  split
  · exact ((passes_span _).bind fun _ => passes_lineEnd _).mono (Nat.zero_le _)
  split
  · exact (passes_feed _).mono (Nat.zero_le _)
  split
  · exact passes_pure ()
  · exact passes_fail _ 0

theorem passes_headerLine : headerLine.Passes 1 := by
  refine passes_octet.bind (n := 0) fun b => ?_
  split
  · exact ((passes_feed _).bind fun _ => passes_pure none).mono (Nat.zero_le _)
  split
  · exact passes_pure none
  split
  · exact ((passes_span _).bind fun _ => (passes_expect _ _).bind fun _ => (passes_span _).bind
      fun _ => (passes_span _).bind fun _ => (passes_lineEnd _).bind fun _ =>
        passes_pure _).mono (Nat.zero_le _)
  · exact passes_fail _ 0

theorem passes_headerLines (room : Nat) : (headerLines room).Passes 1 := by
  induction room with
  | zero =>
    refine passes_headerLine.bind (n := 0) fun header => ?_
    split
    · exact passes_pure []
    · exact passes_fail _ 0
  | succ room ih =>
    refine passes_headerLine.bind (n := 0) fun header => ?_
    split
    · exact passes_pure []
    · exact (ih.bind fun _ => passes_pure _).mono (Nat.zero_le _)

theorem passes_startLine (kind : Kind) : (startLine kind).Passes 0 := by
  cases kind with
  | request =>
    exact (passes_method.bind fun _ => passes_target.bind fun _ => passes_version.bind fun _ =>
      (passes_lineEnd _).bind fun _ => passes_pure none).mono (Nat.zero_le _)
  | response =>
    exact (passes_version.bind fun _ => (passes_expect _ _).bind fun _ => passes_code.bind fun _ =>
      passes_reason.bind fun _ => passes_pure _).mono (Nat.zero_le _)

/-- A head is not empty: it has at least the empty line at its end. -/
theorem passes_scan (kind : Kind) : (scan kind).Passes 1 :=
  (passes_emptyLines.bind fun _ => (passes_startLine kind).bind fun _ =>
    (passes_headerLines maxHeaders).bind fun _ => passes_pure _).mono (Nat.le_refl _)

end Head

end Trawl.Content.Http
