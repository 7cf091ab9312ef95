import Trawl.Proofs.CaptureFile.Interfaces

/-!
# Simple packets

A simple packet does not state how many of its bytes were captured: that follows from its length and
from the snapshot length of the first interface of its section. What is kept of it is cut to its
length alone, so the bytes that fill its block up to a multiple of four are kept with a packet that
was cut (`simple_packet_kept`).
-/

namespace Trawl.CaptureFile

namespace Block

/-- The snapshot length that a block describes an interface to have. -/
def snapLength? : Block → Option UInt32
  | .interface _ snapLength _ => some snapLength
  | _ => none

/-- The snapshot length of the first interface of the current section, zero where it sets none. -/
def snapLengthAfter (before : List Block) : Nat :=
  match (currentSection before).filterMap snapLength? with
  | snapLength :: _ => snapLength.toNat
  | [] => 0

/-- How many bytes of a packet are captured on that interface. -/
def capturedLength (before : List Block) (packet : Bytes) : Nat :=
  if snapLengthAfter before = 0 then packet.length
  else min packet.length (snapLengthAfter before)

end Block

/-- A simple packet as it is written behind some blocks. -/
structure SimplePacket (before : List Block) where
  /-- All bytes that were on the wire. -/
  packet : Bytes
  /-- The bytes that fill the block up. -/
  padding : Bytes
  length_packet : packet.length < 0x100000000
  length_padding : padding.length =
    Block.aligned (Block.capturedLength before packet) - Block.capturedLength before packet

namespace SimplePacket

variable {before : List Block} (p : SimplePacket before)

def captured : Bytes :=
  p.packet.take (Block.capturedLength before p.packet)

def block : Block :=
  .simplePacket (.ofNat p.packet.length) (p.captured ++ p.padding)

/-- The bytes of the block that are kept: what was captured, and of the padding as much as the
packet is longer than that. -/
def kept : Bytes :=
  p.captured ++ p.padding.take (p.packet.length - Block.capturedLength before p.packet)

def record : Record where
  time := none
  linkType := Block.linkTypeAfter before 0
  data := p.kept
  wireLength := .ofNat p.packet.length
  interface := 0

theorem capturedLength_le : Block.capturedLength before p.packet ≤ p.packet.length := by
  unfold Block.capturedLength
  split <;> omega

theorem length_captured : p.captured.length = Block.capturedLength before p.packet :=
  List.length_take_of_le p.capturedLength_le

theorem recordAfter_block : p.block.recordAfter before = some p.record := by
  have hwire : (UInt32.ofNat p.packet.length).toNat = p.packet.length := by
    rw [UInt32.toNat_ofNat', Nat.mod_eq_of_lt p.length_packet]
  have hdata : (p.captured ++ p.padding).take p.packet.length = p.kept := by
    rw [List.take_append, p.length_captured, kept,
      List.take_of_length_le (p.length_captured.trans_le p.capturedLength_le)]
  rw [block, Block.recordAfter, hwire, hdata, record]

theorem padding_eq_nil_iff : p.padding = [] ↔ 4 ∣ Block.capturedLength before p.packet := by
  have hpadding := p.length_padding
  unfold Block.aligned at hpadding
  rw [← List.length_eq_zero_iff, hpadding]
  omega

/-- Nothing but what was captured is kept where the packet was not cut, or cut to a multiple of
four. -/
theorem kept_eq_captured_iff : p.kept = p.captured ↔
    Block.snapLengthAfter before = 0 ∨ p.packet.length ≤ Block.snapLengthAfter before ∨
      4 ∣ Block.snapLengthAfter before := by
  rw [kept, List.append_right_eq_self, List.take_eq_nil_iff, p.padding_eq_nil_iff]
  unfold Block.capturedLength
  split <;> omega

end SimplePacket

/-- Where a file holds a simple packet, its record comes behind those of the blocks before it, with
what was captured and with as much of the padding as the packet is longer than that. That is what
was captured and nothing else exactly if the interface sets no snapshot length, or the packet is not
longer, or the snapshot length is a multiple of four. -/
theorem simple_packet_kept {w : Window} {before after : List Block} (p : SimplePacket before)
    (h : (Block.layout.drain .little w).1 = before ++ p.block :: after) :
    (∃ later, (Reader.blocks .start w).records.1 = Block.records before ++ p.record :: later) ∧
      (p.record.data = p.packet.take (Block.capturedLength before p.packet) ↔
        Block.snapLengthAfter before = 0 ∨ p.packet.length ≤ Block.snapLengthAfter before ∨
          4 ∣ Block.snapLengthAfter before) := by
  refine ⟨?_, p.kept_eq_captured_iff⟩
  obtain ⟨later, hrecords⟩ := Block.records_append_cons before p.block after
  rw [p.recordAfter_block] at hrecords
  rw [Reader.records_blocks, h, hrecords]
  exact ⟨later, rfl⟩

/-- A section whose interface cuts packets to a snapshot length, and a simple packet of 20 bytes
with this data in its block. -/
def sectionOfOne (snapLength : UInt8) (data : Bytes) : List (Piece Block) :=
  let length : UInt8 := .ofNat (16 + data.length)
  [⟨[0x0A, 0x0D, 0x0D, 0x0A, 28, 0, 0, 0, 0x4D, 0x3C, 0x2B, 0x1A, 1, 0, 0, 0,
      0xFF, 0xFF, 0xFF, 0xFF, 0xFF, 0xFF, 0xFF, 0xFF, 28, 0, 0, 0], .sectionHeader .little⟩,
    ⟨[1, 0, 0, 0, 20, 0, 0, 0, 1, 0, 0, 0, snapLength, 0, 0, 0, 20, 0, 0, 0],
      .interface 1 snapLength.toUInt32 []⟩,
    ⟨[3, 0, 0, 0, length, 0, 0, 0, 20, 0, 0, 0] ++ data ++ [length, 0, 0, 0],
      .simplePacket 20 data⟩]

def fileOfOne (snapLength : UInt8) (data : Bytes) : Bytes :=
  Piece.bytesOf (sectionOfOne snapLength data)

theorem drain_fileOfOne {snapLength : UInt8} {data : Bytes}
    (h : Block.layout.WellFormed .little (sectionOfOne snapLength data))
    (hdata : data.length < 0x1000) :
    Block.layout.drain .little (.start (fileOfOne snapLength data)) =
      ((sectionOfOne snapLength data).map Piece.value, none) := by
  have hlt : ∀ piece ∈ sectionOfOne snapLength data, piece.bytes.length < windowSize := by
    simp [sectionOfOne, windowSize]
    omega
  have hdrain := Layout.drain_bytesOf (n := windowSize) h (Nat.le_refl _)
  rw [Layout.readCount_of_lt h hlt, List.take_length, if_pos rfl] at hdrain
  exact hdrain

/-- What is read of a packet of 20 bytes that was cut after 16. -/
theorem simple_packet_kept_sixteen : ∃ (before : List Block) (p : SimplePacket before)
    (w : Window), (Block.layout.drain .little w).1 = before ++ p.block :: [] ∧
      Block.snapLengthAfter before = 16 ∧ p.packet.length = 20 ∧
      (∃ later, (Reader.blocks .start w).records.1 = Block.records before ++ p.record :: later) ∧
      p.record.data = p.packet.take 16 := by
  let before : List Block := [.sectionHeader .little, .interface 1 16 []]
  let p : SimplePacket before := ⟨List.replicate 20 7, [], by decide, by decide⟩
  have hwellFormed : Block.layout.WellFormed .little (sectionOfOne 16 (List.replicate 16 7)) :=
    ⟨by cbv, by cbv, by cbv, trivial⟩
  have hblocks : (Block.layout.drain .little (.start (fileOfOne 16 (List.replicate 16 7)))).1 =
      before ++ p.block :: [] := by
    rw [drain_fileOfOne hwellFormed (by decide)]
    rfl
  obtain ⟨hrecords, hkept⟩ := simple_packet_kept p hblocks
  exact ⟨before, p, _, hblocks, rfl, rfl, hrecords, hkept.2 (.inr (.inr (by decide)))⟩

/-- The three bytes of padding are kept with a packet of 20 bytes that was cut after 17. -/
theorem padding_kept :
    let captured : Bytes := [2, 0, 0, 0, 0, 0xFE, 2, 0, 0, 0, 0, 1, 8, 0, 1, 2, 3]
    let padding : Bytes := [0xA1, 0xA2, 0xA3]
    let file := fileOfOne 17 (captured ++ padding)
    ∃ p : SimplePacket [.sectionHeader .little, .interface 1 17 []],
      p.packet.length = 20 ∧ p.captured = captured ∧ p.padding = padding ∧
      Reader.ofFile file = .ok (.blocks .start (.start file)) ∧
      (Reader.blocks .start (.start file)).records = ([p.record], none) ∧
      p.record.data = captured ++ padding := by
  intro captured padding file
  let p : SimplePacket [.sectionHeader .little, .interface 1 17 []] :=
    ⟨captured ++ [4, 5, 6], padding, by decide, by decide⟩
  have hwellFormed : Block.layout.WellFormed .little (sectionOfOne 17 (captured ++ padding)) :=
    ⟨by cbv, by cbv, by cbv, trivial⟩
  refine ⟨p, rfl, rfl, rfl, by cbv, ?_, rfl⟩
  rw [Reader.records_blocks, drain_fileOfOne hwellFormed (by decide)]
  rfl

end Trawl.CaptureFile
