import Trawl.Proofs.Compression.Following

/-!
# Gzip members

A gzip member is a header, a deflated stream and a trailer (`Gzip.Member`). There is one for every
data that fits into a stored block (`Gzip.Member.stored`). A member is decoded to its data under
every limit that leaves room for it, and what follows the member is not looked at
(`Gzip.Member.decode_bytes_append`).
-/

namespace Trawl.Compression

namespace Bits

/-- What is left of a byte is read as the lowest bits. -/
theorem read_left {fetched pending : Bytes} {width value : Nat} {last : Bits}
    (h : (⟨0, 0, fetched, pending⟩ : Bits).read width = .ok (value, last)) :
    ∀ {left octet : Nat}, octet < Nat.pow 2 left →
      (⟨octet, left, fetched, pending⟩ : Bits).read (width + left) =
        .ok (octet + value * Nat.pow 2 left, last)
  | 0, octet, hoctet => by
    obtain rfl : octet = 0 := by simpa using hoctet
    simpa using h
  | left + 1, octet, hoctet => by
    have hdouble : Nat.pow 2 (left + 1) = Nat.pow 2 left * 2 := rfl
    have hpow : value * Nat.pow 2 (left + 1) = 2 * (value * Nat.pow 2 left) := by
      rw [hdouble, ← Nat.mul_assoc, Nat.mul_comm 2]
    have hhalf : octet / 2 < Nat.pow 2 left := by
      rw [hdouble] at hoctet
      omega
    have hmore := read_left h hhalf
    rw [← Nat.add_assoc, read]
    simp only [next]
    rw [hmore, hpow]
    simp only [Except.ok.injEq, Prod.mk.injEq, and_true]
    omega

/-- Reading on behind a byte reads it as the lowest eight bits. -/
theorem read_octet {bits : Bits} {b : UInt8} {rest : Bytes} (hleft : bits.left = 0)
    (h : bits.wholeBytes = b :: rest) (width : Nat) :
    ∃ next : Bits, next.left = 0 ∧ next.wholeBytes = rest ∧ ∀ {value : Nat} {last : Bits},
      next.read width = .ok (value, last) →
        bits.read (width + 8) = .ok (b.toNat + value * 256, last) := by
  obtain ⟨octet, left, fetched, pending⟩ := bits
  obtain rfl : left = 0 := hleft
  obtain ⟨⟨octet', left', fetched', pending'⟩, hnext, ho, hl, hw⟩ :=
    next_of_wholeBytes octet (show fetched ++ pending = b :: rest from h)
  obtain rfl : octet' = b.toNat / 2 := ho
  obtain rfl : left' = 7 := hl
  refine ⟨⟨0, 0, fetched', pending'⟩, rfl, hw, fun {value last} hread => ?_⟩
  have hlt := b.toNat_lt
  have hmore := read_left hread (show b.toNat / 2 < Nat.pow 2 7 by
    rw [show Nat.pow 2 7 = 128 from rfl]
    omega)
  rw [show width + 8 = width + 7 + 1 from rfl, read, hnext]
  dsimp only
  rw [hmore, show Nat.pow 2 7 = 128 from rfl]
  simp only [Except.ok.injEq, Prod.mk.injEq, and_true]
  omega

/-- Bytes are read as the number that they are written for, least significant byte first. -/
theorem read_octets {bits : Bits} {rest : Bytes} : ∀ {front : Bytes}, bits.left = 0 →
    bits.wholeBytes = front ++ rest → ∃ next : Bits, next.left = 0 ∧ next.wholeBytes = rest ∧
      bits.read (8 * front.length) = .ok (front.littleEndian, next) := by
  intro front hleft h
  induction front generalizing bits with
  | nil => exact ⟨bits, hleft, h, rfl⟩
  | cons b front ih =>
    obtain ⟨next, hleft', hnext, hread⟩ := read_octet hleft h (8 * front.length)
    obtain ⟨last, hleft'', hlast, hvalue⟩ := ih hleft' hnext
    exact ⟨last, hleft'', hlast, hread hvalue⟩

end Bits

namespace Deflate

variable {bounds : Bounds} {bits : Bits} {rest : Bytes}

theorem inflateOctets_of_wholeBytes : ∀ {data : Bytes} {bits : Bits} {out : Array UInt8},
    bits.left = 0 → bits.wholeBytes = data ++ rest → out.size + data.length ≤ bounds.limit →
      bounds.limit < bounds.room → ∃ next : Bits, next.wholeBytes = rest ∧
        inflateOctets bounds data.length bits out = (out ++ data.toArray, .ok next)
  | [], bits, out, _, h, _, _ => ⟨bits, h, by simp [inflateOctets]⟩
  | b :: data, bits, out, hleft, h, hlimit, hroom => by
    obtain ⟨next, hleft', hnext, hread⟩ := Bits.read_octet hleft h 0
    rw [List.length_cons] at hlimit
    have hpush : (out.push b).size + data.length ≤ bounds.limit := by
      rw [Array.size_push]
      omega
    obtain ⟨last, hlast, hinflate⟩ := inflateOctets_of_wholeBytes hleft' hnext hpush hroom
    refine ⟨last, hlast, ?_⟩
    have hvalue : bits.read 8 = .ok (b.toNat, next) := hread rfl
    rw [List.length_cons, inflateOctets, if_pos (by omega), hvalue]
    dsimp only
    rw [UInt8.ofNat_toNat, Bounds.settle_of_le (by omega), hinflate]
    simp

/-- What is written before the bytes of a stored block: their number and its complement. -/
def storedLengths (data : Bytes) : Bytes :=
  ByteOrder.little.write (UInt32.ofNat (data.length + (65535 - data.length) * 65536))

theorem littleEndian_storedLengths {data : Bytes} (h : data.length < 65536) :
    (storedLengths data).littleEndian = data.length + (65535 - data.length) * 65536 := by
  have hsmall : data.length + (65535 - data.length) * 65536 < UInt32.size := by
    rw [UInt32.size]
    omega
  exact (ByteOrder.read_write .little _).trans (UInt32.toNat_ofNat_of_lt' hsmall)

/-- A stream of one block that holds its bytes as they are. -/
def stored (data : Bytes) : Bytes :=
  0x01 :: (storedLengths data ++ data)

theorem inflateStored_of_wholeBytes {data : Bytes} (hsmall : data.length < 65536)
    (hlimit : data.length ≤ bounds.limit) (hroom : bounds.limit < bounds.room)
    (h : bits.wholeBytes = storedLengths data ++ (data ++ rest)) :
    ∃ next : Bits, next.wholeBytes = rest ∧
      inflateStored bounds bits #[] = (data.toArray, .ok next) := by
  have hstart : bits.align.wholeBytes = storedLengths data ++ (data ++ rest) := h
  obtain ⟨bits₁, hleft, hbytes, hread⟩ := Bits.read_octets rfl hstart
  have hfits : (#[] : Array UInt8).size + data.length ≤ bounds.limit := by simpa using hlimit
  obtain ⟨next, hnext, hinflate⟩ := inflateOctets_of_wholeBytes hleft hbytes hfits hroom
  rw [littleEndian_storedLengths hsmall, storedLengths, ByteOrder.length_write] at hread
  have hlength : (data.length + (65535 - data.length) * 65536) % 65536 = data.length := by omega
  refine ⟨next, hnext, ?_⟩
  rw [inflateStored, hread]
  dsimp only
  rw [if_neg (by omega), hlength, hinflate, Array.empty_append]

/-- A stored stream is inflated to its data, up to where it ends. -/
theorem inflate_stored {data : Bytes} (h : data.length < 65536) (offset : Nat) (rest : Bytes) :
    inflate data.length offset (stored data ++ rest) = (data.toArray, .ok rest) := by
  have hbytes : (Bits.ofBytes offset (stored data ++ rest)).wholeBytes = stored data ++ rest :=
    List.take_append_drop ..
  obtain ⟨⟨octet, left, fetched, pending⟩, hnext, ho, hl, hw⟩ :=
    Bits.next_of_wholeBytes 0 hbytes
  obtain rfl : octet = 0 := ho
  obtain rfl : left = 7 := hl
  -- Three bits say that the block is the last one and stored; the rest of their byte is left out.
  have hblock : (⟨0, 5, fetched, pending⟩ : Bits).wholeBytes =
      storedLengths data ++ (data ++ rest) :=
    hw.trans (List.append_assoc ..)
  obtain ⟨next, hrest, hstored⟩ :=
    inflateStored_of_wholeBytes h (Nat.le_refl _) (limit_lt_room data.length) hblock
  have hlast : (Bits.ofBytes offset (stored data ++ rest)).read 1 =
      .ok (1, ⟨0, 7, fetched, pending⟩) := by
    have hfirst : (Bits.ofBytes offset (stored data ++ rest)).next =
      .ok (1, ⟨0, 7, fetched, pending⟩) := hnext
    simp [Bits.read, hfirst]
  have hkind : (⟨0, 7, fetched, pending⟩ : Bits).read 2 = .ok (0, ⟨0, 5, fetched, pending⟩) := by
    simp [Bits.read, Bits.next]
  rw [inflate, inflateBlocks_def, hlast]
  dsimp only
  rw [hkind]
  dsimp only
  rw [inflateBlock, if_pos rfl, hstored]
  dsimp only
  rw [if_pos rfl]
  show (data.toArray, Except.ok next.wholeBytes) = _
  rw [hrest]

end Deflate

namespace Gzip

/-- A member, and the data that it holds. -/
structure Member where
  bytes : Bytes
  data : Bytes
  /-- What follows the header. -/
  stream : Bytes
  /-- What follows the deflated data. -/
  trailer : Bytes
  starts : stream? bytes = some stream
  inflates : Deflate.inflate data.length (bytes.length - stream.length) stream =
    (data.toArray, .ok trailer)
  fits : trailerFits data.toArray trailer = true
  /-- Nothing follows the trailer. -/
  ends : trailer.length = 8

/-- A header without any parts that a flag announces. -/
def plainHeader : Bytes :=
  [0x1F, 0x8B, 0x08, 0, 0, 0, 0, 0, 0, 0xFF]

theorem stream?_plainHeader (stream : Bytes) : stream? (plainHeader ++ stream) = some stream := by
  have hs : (plainHeader ++ stream).split? 10 = some (plainHeader, stream) :=
    Bytes.split?_left (show plainHeader.length = 10 from rfl) stream
  have hflags : plainHeader.octet 3 = 0 := rfl
  have hmark : plainHeader.has 0 [0x1F, 0x8B, 0x08] = true := rfl
  have hskip (flag : UInt8) (skip : Bytes → Option Bytes) :
      skipIf 0 flag skip stream = some stream :=
    if_pos UInt8.zero_and
  simp [stream?, hs, hflags, hmark, hskip]

/-- The trailer for some data. -/
def trailerOf (data : Bytes) : Bytes :=
  ByteOrder.little.write (crc32 data.toArray) ++
    ByteOrder.little.write (UInt32.ofNat data.length)

@[simp]
theorem length_trailerOf (data : Bytes) : (trailerOf data).length = 8 := by
  simp [trailerOf]

theorem trailerFits_trailerOf (data : Bytes) :
    trailerFits data.toArray (trailerOf data) = true := by
  have hs : (trailerOf data).split? 8 = some (trailerOf data, []) := by
    simpa using Bytes.split?_left (length_trailerOf data) []
  have hcheck : (trailerOf data).field 0 4 = ByteOrder.little.write (crc32 data.toArray) :=
    List.take_left' (ByteOrder.length_write ..)
  have hsize : (trailerOf data).field 4 4 = ByteOrder.little.write (UInt32.ofNat data.length) :=
    rfl
  have hread (n : UInt32) : (ByteOrder.little.write n).littleEndian = n.toNat :=
    ByteOrder.read_write .little n
  rw [trailerFits, hs]
  dsimp only
  rw [hcheck, hsize, hread, hread]
  simp

/-- A member that holds its data as it is. -/
def Member.stored (data : Bytes) (h : data.length < 65536) : Member where
  bytes := plainHeader ++ (Deflate.stored data ++ trailerOf data)
  data
  stream := Deflate.stored data ++ trailerOf data
  trailer := trailerOf data
  starts := stream?_plainHeader _
  inflates := Deflate.inflate_stored h ..
  fits := trailerFits_trailerOf data
  ends := length_trailerOf data

variable {limit : Nat}

theorem Member.decode_bytes (m : Member) (h : m.data.length ≤ limit) :
    decode limit m.bytes = .ok m.data := by
  have hown : decode m.data.length m.bytes = .ok m.data := by
    rw [decode, m.starts]
    dsimp only
    rw [m.inflates]
    exact conclude_eq_ok_iff.2 ⟨m.trailer, rfl, by simp, m.fits, rfl⟩
  exact decode_of_le hown h

/-- A member is decoded, and what follows it is not. -/
theorem Member.decode_bytes_append (m : Member) (h : m.data.length ≤ limit) (more : Bytes) :
    decode limit (m.bytes ++ more) = .ok m.data :=
  decode_append more (m.decode_bytes h)

end Gzip

end Trawl.Compression
