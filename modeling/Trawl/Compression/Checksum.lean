/-!
# Checksums of decompressed bytes

The cyclic redundancy check that a gzip trailer holds and the Adler sum that a zlib trailer holds.
-/

namespace Trawl.Compression

/-- One bit of a cyclic redundancy check, with the reflected polynomial 0xEDB88320. -/
def crcBit (c : UInt32) : UInt32 :=
  if c &&& 1 = 1 then (c >>> 1) ^^^ 0xEDB88320 else c >>> 1

/-- One byte of a cyclic redundancy check. -/
def crcByte (c : UInt32) (b : UInt8) : UInt32 :=
  crcBit (crcBit (crcBit (crcBit (crcBit (crcBit (crcBit (crcBit (c ^^^ b.toUInt32))))))))

/-- The cyclic redundancy check of 32 bits. -/
def crc32 (data : Array UInt8) : UInt32 :=
  data.foldl crcByte 0xFFFFFFFF ^^^ 0xFFFFFFFF

/-- The modulus of both halves of an Adler sum. -/
def adlerModulus : UInt32 := 65521

/-- The Adler sum: the sum of the bytes after a one, and the sum of its running values. -/
def adler32 (data : Array UInt8) : UInt32 :=
  let (a, b) := data.foldl
    (fun (a, b) octet =>
      let a := (a + octet.toUInt32) % adlerModulus
      (a, (b + a) % adlerModulus))
    ((1, 0) : UInt32 × UInt32)
  b * 65536 + a

end Trawl.Compression
