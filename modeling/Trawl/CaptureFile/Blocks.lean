import Trawl.CaptureFile.Window
import Trawl.Record

/-!
# Block-structured capture files

A file of this kind is a sequence of blocks. Each starts with its kind and its length, which it
repeats at its end. A section header sets the byte order of what follows and makes interface numbers
start over; interface descriptions and packets refer to the section they stand in.
-/

namespace Trawl.CaptureFile

/-- The kinds of blocks, by the number that starts them. -/
def kindSection : Nat := 0x0A0D0D0A
def kindInterface : Nat := 1
def kindSimplePacket : Nat := 3
def kindNames : Nat := 4
def kindStatistics : Nat := 5
def kindEnhancedPacket : Nat := 6
def kindSecrets : Nat := 10
def kindCustom : Nat := 0xBAD
def kindCustomNoCopy : Nat := 0x40000BAD
def kindProcess : Nat := 0x80000001

/-- What a block says, as far as reading packets needs it. -/
inductive Block where
  | sectionHeader (order : ByteOrder)
  /-- Options stay as they are written. -/
  | interface (linkType : Nat) (snapLength : UInt32) (options : Bytes)
  /-- The data is followed by the bytes that fill the block up to a multiple of four. -/
  | enhancedPacket (interface : UInt32) (ticks : UInt64) (capturedLength wireLength : UInt32)
      (data : Bytes)
  /-- The data is followed by the bytes that fill the block up to a multiple of four. -/
  | simplePacket (wireLength : UInt32) (data : Bytes)
  | other (kind : Nat)
  deriving DecidableEq, Repr

/-- The outer form of a block. -/
structure BlockBody where
  /-- The length that its start states. -/
  length : Nat
  /-- What stands between the two lengths. -/
  content : Bytes
  /-- The length that its end states. -/
  closingLength : Nat

namespace Block

/-- The least length of a block of a kind. -/
def leastLength (kind : Nat) : Nat :=
  if kind = kindSection then 28
  else if kind = kindInterface then 20
  else if kind = kindEnhancedPacket then 32
  else if kind = kindSimplePacket then 16
  else if kind = kindStatistics then 24
  else if kind = kindSecrets then 20
  else if kind = kindCustom ∨ kind = kindCustomNoCopy ∨ kind = kindProcess then 16
  else 12

/-- Whether the two lengths of a block of a kind have to agree. -/
def lengthsAgree (kind : Nat) : Bool :=
  [kindInterface, kindEnhancedPacket, kindNames, kindStatistics, kindSecrets, kindCustom,
    kindCustomNoCopy, kindProcess].contains kind

/-- A length filled up to a multiple of four. -/
def aligned (length : Nat) : Nat :=
  (length + 3) / 4 * 4

/-- The outer form of the block at the front. The content and the length after it are asked for one
after the other. -/
def parseBody (order : ByteOrder) (least : Nat) (b : Bytes) : Parsed BlockBody :=
  if !b.longerThan (least - 1) then .missing (least - b.length)
  else
    let length := order.read (b.field 4 4)
    if length < least then .refused .malformed
    else
      match b.split? length with
      | none =>
        .missing ((if b.longerThan (length - 5) then length else length - 4) - b.length)
      | some (block, rest) =>
        .block ⟨length, block.field 8 (length - 12), order.read (block.drop (length - 4))⟩ rest

/-- The section header at the front. Its byte-order magic tells its own byte order. -/
def parseSection (b : Bytes) : Parsed Block :=
  if !b.longerThan 11 then .missing (12 - b.length)
  else
    let magic := (b.field 8 4).littleEndian
    let order? :=
      if magic = 0x1A2B3C4D then some ByteOrder.little
      else if magic = 0x4D3C2B1A then some ByteOrder.big
      else none
    match order? with
    | none => .refused .notRecognized
    | some order =>
      match parseBody order (leastLength kindSection) b with
      | .block _ rest => .block (.sectionHeader order) rest
      | .missing count => .missing count
      | .refused cause => .refused cause

/-- The most bytes that a packet or secrets can state to hold. -/
def largestPayload : Nat := 0xFFFFFFFA

/-- What follows the records of a name resolution block. -/
def recordsEnd : Bytes := [0x00, 0x00, 0x00, 0x00]

/-- How many bytes are missing in the content of a name resolution block. A record is a kind, the
length of a value and the value, filled up to a multiple of four. -/
def missingInRecords (order : ByteOrder) (content : Bytes) : Nat :=
  match _hs : content.split? 4 with
  | none => if content.length = 1 ∧ content.octet 0 ≠ 0 then 1 else 4 - content.length
  | some (start, rest) =>
    if start = recordsEnd then 0
    else
      let length := aligned (order.read (start.field 2 2))
      match _hr : rest.split? length with
      | none => length - rest.length
      | some (_, rest) => missingInRecords order rest
termination_by content.length
decreasing_by
  have hs := Bytes.split?_eq_some _hs
  have hr := Bytes.split?_eq_some _hr
  rw [hs.1, hr.1]
  simp only [List.length_append]
  omega

/-- What a block of a kind other than a section header says. -/
def interpret (order : ByteOrder) (kind : Nat) (body : BlockBody) (rest : Bytes) : Parsed Block :=
  let number (offset width : Nat) : Nat := order.read (body.content.field offset width)
  let agreed (block : Block) : Parsed Block :=
    if body.closingLength = body.length then .block block rest else .refused .malformed
  let holding (stated : Nat) (after : Bytes) (block : Bytes → Block) : Parsed Block :=
    if largestPayload < stated then .refused .malformed
    else
      match after.split? (aligned stated) with
      | none => .missing (aligned stated - after.length)
      | some (data, _) => agreed (block data)
  if kind = kindInterface then
    agreed (.interface (number 0 2) (UInt32.ofNat (number 4 4)) (body.content.drop 8))
  else if kind = kindEnhancedPacket then
    let captured := number 12 4
    holding captured (body.content.drop 20) fun data =>
      .enhancedPacket (UInt32.ofNat (number 0 4))
        (UInt64.ofNat (number 4 4 * 0x100000000 + number 8 4)) (UInt32.ofNat captured)
        (UInt32.ofNat (number 16 4)) data
  else if kind = kindSimplePacket then
    .block (.simplePacket (UInt32.ofNat (number 0 4)) (body.content.drop 4)) rest
  else if kind = kindNames then
    match missingInRecords order body.content with
    | 0 => agreed (.other kind)
    | count => .missing count
  else if kind = kindSecrets then
    holding (number 4 4) (body.content.drop 8) fun _ => .other kind
  else if lengthsAgree kind then agreed (.other kind)
  else .block (.other kind) rest

/-- The block at the front, in the byte order of its section. -/
def parse (order : ByteOrder) (b : Bytes) : Parsed Block :=
  if !b.longerThan 3 then .missing (4 - b.length)
  else
    let kind := order.read (b.field 0 4)
    if kind = kindSection then parseSection b
    else
      match parseBody order (leastLength kind) b with
      | .block body rest => interpret order kind body rest
      | .missing count => .missing count
      | .refused cause => .refused cause

theorem leastLength_pos (kind : Nat) : 0 < leastLength kind := by
  unfold leastLength
  repeat' split
  all_goals omega

theorem length_parseBody {order : ByteOrder} {least : Nat} (hl : 0 < least) {b rest : Bytes}
    {body : BlockBody} (h : parseBody order least b = .block body rest) :
    rest.length < b.length := by
  simp only [parseBody] at h
  split at h
  · simp at h
  split at h
  · simp at h
  split at h
  · simp at h
  · rename_i hshort block rest' hs
    obtain ⟨hb, hlen⟩ := Bytes.split?_eq_some hs
    simp only [Parsed.block.injEq] at h
    obtain ⟨-, rfl⟩ := h
    simp only [hb, List.length_append]
    omega

theorem rest_interpret {order : ByteOrder} {kind : Nat} {body : BlockBody} {rest rest' : Bytes}
    {block : Block} (h : interpret order kind body rest = .block block rest') : rest' = rest := by
  simp only [interpret] at h
  repeat' split at h
  all_goals
    first
      | (simp at h; done)
      | (simp only [Parsed.block.injEq] at h; exact h.2.symm)

theorem length_parseSection {b rest : Bytes} {block : Block}
    (h : parseSection b = .block block rest) : rest.length < b.length := by
  simp only [parseSection] at h
  split at h
  · simp at h
  split at h
  · simp at h
  split at h
  · rename_i hp
    simp only [Parsed.block.injEq] at h
    obtain ⟨-, rfl⟩ := h
    exact length_parseBody (leastLength_pos _) hp
  · simp at h
  · simp at h

/-- The parser for the blocks of a section. -/
def parser (order : ByteOrder) : BlockParser Block where
  parse := parse order
  progress := by
    intro b block rest h
    simp only [parse] at h
    split at h
    · simp at h
    split at h
    · exact length_parseSection h
    split at h
    · rename_i hp
      rw [rest_interpret h]
      exact length_parseBody (leastLength_pos _) hp
    · simp at h
    · simp at h

end Block

/-- What earlier blocks say about the packets to come. -/
structure Section where
  order : ByteOrder
  /-- Link types of the interfaces described so far, by number. -/
  linkTypes : List Nat
  deriving DecidableEq, Repr

namespace Section

/-- The state before any section header. -/
def start : Section :=
  ⟨.little, []⟩

/-- The link type of an interface; Ethernet where none was described. -/
def linkTypeOf (s : Section) (interface : Nat) : Int :=
  match s.linkTypes[interface]? with
  | some linkType => linkType
  | none => linkEthernet

/-- Takes in a block: the state after it, and its record if it is a packet. Ticks count
microseconds. -/
def take (s : Section) : Block → Section × Option Record
  | .sectionHeader order => (⟨order, []⟩, none)
  | .interface linkType _ _ => ({ s with linkTypes := s.linkTypes ++ [linkType] }, none)
  | .enhancedPacket interface ticks capturedLength wireLength data =>
    (s, some {
      time := some (.counted 0 ticks .micro)
      linkType := s.linkTypeOf interface.toNat
      data := data.take capturedLength.toNat
      wireLength
      interface })
  | .simplePacket wireLength data =>
    (s, some {
      time := none
      linkType := s.linkTypeOf 0
      data := data.take wireLength.toNat
      wireLength
      interface := 0 })
  | .other _ => (s, none)

end Section

end Trawl.CaptureFile
