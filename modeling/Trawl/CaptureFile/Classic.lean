import Trawl.CaptureFile.Window
import Trawl.Record

/-!
# Classic capture files

A global header, then records: seconds, fraction of a second, captured length and wire length in
sixteen bytes, followed by the captured bytes. The magic number of the header gives the byte order
and the unit of the fraction. One variant has eight more bytes in each record header.
-/

namespace Trawl.CaptureFile

/-- What the global header of a classic file says. -/
structure ClassicHeader where
  order : ByteOrder
  resolution : Resolution
  linkType : Int
  /-- Whether record headers have eight more bytes. -/
  extended : Bool
  deriving DecidableEq, Repr

namespace ClassicHeader

/-- The size of a record header. -/
def recordHeaderSize (header : ClassicHeader) : Nat :=
  if header.extended then 24 else 16

/-- What a magic number, read least significant octet first, says on its own. -/
def ofMagic? (magic : Nat) : Option ClassicHeader :=
  if magic = 0xA1B2C3D4 then some ⟨.little, .micro, 0, false⟩
  else if magic = 0xA1B23C4D then some ⟨.little, .nano, 0, false⟩
  else if magic = 0xD4C3B2A1 then some ⟨.big, .micro, 0, false⟩
  else if magic = 0x4D3CB2A1 then some ⟨.big, .nano, 0, false⟩
  else if magic = 0xA1B2CD34 then some ⟨.little, .micro, 0, true⟩
  else none

/-- A number of 32 bits as a signed one. -/
def signed32 (n : Nat) : Int :=
  (BitVec.ofNat 32 n).toInt

/-- The global header at the start of a file: 24 bytes, the link type in the last four. -/
def parse (b : Bytes) : Except Cause ClassicHeader :=
  match ofMagic? (b.field 0 4).littleEndian with
  | none => .error .notRecognized
  | some header =>
    if b.longerThan 23 then
      .ok { header with linkType := signed32 (header.order.read (b.field 20 4)) }
    else .error .incomplete

/-- The record at the front of a file with this header. -/
def parseRecord (header : ClassicHeader) (b : Bytes) : Parsed Record :=
  match b.split? header.recordHeaderSize with
  | none => .missing (header.recordHeaderSize - b.length)
  | some (fields, after) =>
    let number (offset : Nat) : Nat := header.order.read (fields.field offset 4)
    let captured := number 8
    match after.split? captured with
    | none => .missing (captured - after.length)
    | some (data, rest) =>
      let time := .counted (UInt32.ofNat (number 0)) (UInt64.ofNat (number 4)) header.resolution
      .block
        { time := some time
          linkType := header.linkType
          data
          wireLength := UInt32.ofNat (number 12)
          interface := 0 }
        rest

/-- The parser for the records of a file with this header. -/
def recordParser (header : ClassicHeader) : BlockParser Record where
  parse := header.parseRecord
  progress := by
    intro b value rest h
    simp only [parseRecord] at h
    split at h
    · simp at h
    · rename_i fields after hs
      obtain ⟨hb, hl⟩ := Bytes.split?_eq_some hs
      have hpos : 0 < header.recordHeaderSize := by
        unfold recordHeaderSize
        split <;> omega
      split at h
      · simp at h
      · rename_i data rest' hd
        obtain ⟨ha, -⟩ := Bytes.split?_eq_some hd
        simp only [Parsed.block.injEq] at h
        obtain ⟨-, rfl⟩ := h
        simp only [hb, ha, List.length_append]
        omega

end ClassicHeader

end Trawl.CaptureFile
