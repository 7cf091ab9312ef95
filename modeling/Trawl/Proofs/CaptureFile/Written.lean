import Trawl.Proofs.CaptureFile.Layouts

/-!
# Classic capture files as they are written

A global header and the records behind it, in the byte order of the machine that writes them. What
is written is parsed back (`FileHead.parse_bytes`, `Entry.parseRecord_bytes`).
-/

namespace Trawl

namespace CaptureFile

/-! ## The global header -/

/-- A global header as it stands in a file. -/
structure GlobalHeader where
  bytes : Bytes
  header : ClassicHeader
  length_bytes : bytes.length = 24
  parse_bytes : ClassicHeader.parse bytes = .ok header

/-- What follows a global header does not matter to it. -/
theorem GlobalHeader.parse_append (head : GlobalHeader) (rest : Bytes) :
    ClassicHeader.parse (head.bytes ++ rest) = .ok head.header := by
  have hlength := head.length_bytes
  have hlong : (head.bytes ++ rest).longerThan 23 = head.bytes.longerThan 23 := by
    rw [Bytes.longerThan_of_lt (by simp; omega), Bytes.longerThan_of_lt (by omega)]
  have hmagic : (head.bytes ++ rest).field 0 4 = head.bytes.field 0 4 :=
    Bytes.field_left (by omega) rest
  have hlink : (head.bytes ++ rest).field 20 4 = head.bytes.field 20 4 :=
    Bytes.field_left (by omega) rest
  rw [← head.parse_bytes]
  unfold ClassicHeader.parse
  rw [hlong, hmagic, hlink]

/-- What a global header is written from. -/
structure FileHead where
  order : ByteOrder
  resolution : Resolution
  /-- The version, the zone, the accuracy and the snapshot length, which are not looked at. -/
  details : Bytes
  linkType : UInt32
  length_details : details.length = 16

namespace FileHead

/-- The magic number of a resolution. -/
def magic : Resolution → UInt32
  | .micro => 0xA1B2C3D4
  | .nano => 0xA1B23C4D

/-- The bytes of a global header. -/
def bytes (head : FileHead) : Bytes :=
  head.order.write (magic head.resolution) ++ (head.details ++ head.order.write head.linkType)

/-- What a global header says. -/
def header (head : FileHead) : ClassicHeader :=
  ⟨head.order, head.resolution, ClassicHeader.signed32 head.linkType.toNat, false⟩

@[simp]
theorem length_bytes (head : FileHead) : head.bytes.length = 24 := by
  simp [bytes, head.length_details]

theorem parse_bytes (head : FileHead) : ClassicHeader.parse head.bytes = .ok head.header := by
  have hmagic : head.bytes.field 0 4 = head.order.write (magic head.resolution) := by
    rw [bytes, ← List.nil_append (head.order.write _ ++ _)]
    exact Bytes.field_append rfl (ByteOrder.length_write ..)
  have hofMagic : ClassicHeader.ofMagic? (head.order.write (magic head.resolution)).littleEndian =
      some ⟨head.order, head.resolution, 0, false⟩ := by
    cases head.order <;> cases head.resolution <;> decide +kernel
  have hlong : head.bytes.longerThan 23 = true := Bytes.longerThan_of_lt (by simp)
  have hlink : head.bytes.field 20 4 = head.order.write head.linkType := by
    have happend : head.bytes = (head.order.write (magic head.resolution) ++ head.details) ++
        (head.order.write head.linkType ++ []) := by
      simp [bytes]
    rw [happend]
    exact Bytes.field_append (by simp [head.length_details]) (by simp)
  unfold ClassicHeader.parse
  rw [hmagic, hofMagic]
  dsimp only
  rw [if_pos hlong, hlink, ByteOrder.read_write]
  rfl

/-- The global header as it stands in a file. -/
def written (head : FileHead) : GlobalHeader :=
  ⟨head.bytes, head.header, head.length_bytes, head.parse_bytes⟩

end FileHead

/-! ## Records -/

/-- A record as it is given to a writer, small enough for the window that it is read through. -/
structure Entry where
  seconds : UInt32
  /-- Ticks of the resolution beyond the seconds. -/
  fraction : UInt32
  data : Bytes
  wireLength : UInt32
  fits : 16 + data.length ≤ windowSize

namespace Entry

variable (e : Entry)

/-- How many bytes a record takes up. -/
def size : Nat :=
  16 + e.data.length

/-- The header of a record. -/
def fields (order : ByteOrder) : Bytes :=
  order.write e.seconds ++ (order.write e.fraction ++
    (order.write (UInt32.ofNat e.data.length) ++ order.write e.wireLength))

/-- The bytes of a record. -/
def bytes (order : ByteOrder) : Bytes :=
  e.fields order ++ e.data

/-- What is read of a record. -/
def record (head : FileHead) : Record where
  time := some (.counted e.seconds e.fraction.toUInt64 head.resolution)
  linkType := head.header.linkType
  data := e.data
  wireLength := e.wireLength
  interface := 0

@[simp]
theorem length_fields (order : ByteOrder) : (e.fields order).length = 16 := by
  simp [fields]

@[simp]
theorem length_bytes (order : ByteOrder) : (e.bytes order).length = e.size := by
  simp [bytes, size]

theorem length_take_bytes (order : ByteOrder) {k : Nat} (hk : k ≤ e.size) :
    ((e.bytes order).take k).length = k := by
  rw [List.length_take, length_bytes, Nat.min_eq_left hk]

theorem toNat_length : (UInt32.ofNat e.data.length).toNat = e.data.length := by
  have := e.fits
  unfold windowSize at this
  rw [UInt32.toNat_ofNat']
  omega

variable (head : FileHead)

theorem fields_eq_words (order : ByteOrder) : e.fields order =
    order.words [e.seconds, e.fraction, .ofNat e.data.length, e.wireLength] ++ [] := by
  simp [fields, ByteOrder.words]

theorem read_fields (order : ByteOrder) :
    order.read ((e.fields order).field 0 4) = e.seconds.toNat ∧
      order.read ((e.fields order).field 4 4) = e.fraction.toNat ∧
      order.read ((e.fields order).field 8 4) = e.data.length ∧
      order.read ((e.fields order).field 12 4) = e.wireLength.toNat := by
  rw [e.fields_eq_words]
  exact ⟨order.read_word (i := 0) rfl [], order.read_word (i := 1) rfl [],
    (order.read_word (i := 2) rfl []).trans e.toNat_length, order.read_word (i := 3) rfl []⟩

/-- A record is read as what was written. -/
theorem parseRecord_bytes :
    head.header.parseRecord (e.bytes head.order) = .block (e.record head) [] := by
  obtain ⟨hseconds, hfraction, hlength, hwire⟩ := e.read_fields head.order
  have hrecord : head.header.recordOf (e.fields head.order) e.data = e.record head := by
    simp [ClassicHeader.recordOf, record, FileHead.header, hseconds, hfraction, hwire]
  rw [← hrecord]
  exact ClassicHeader.parseRecord_fields (e.length_fields _) hlength

/-- Of a record that is not there to its end, first the header is missing and then the data. -/
theorem parseRecord_take {k : Nat} (hk : k < e.size) :
    head.header.parseRecord ((e.bytes head.order).take k) =
      .missing (if k < 16 then 16 - k else e.size - k) := by
  have hlength := e.length_bytes head.order
  have hheader : head.header.recordHeaderSize = 16 := rfl
  rw [ClassicHeader.parseRecord_take (e.parseRecord_bytes head) (by omega), ClassicHeader.asked,
    hheader, hlength]
  split <;> rfl

/-- A record as a piece of a file. -/
def piece : Piece Record :=
  ⟨e.bytes head.order, e.record head⟩

end Entry

end CaptureFile

end Trawl
