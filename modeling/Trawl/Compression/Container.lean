import Trawl.Compression.Checksum
import Trawl.Compression.Deflate

/-!
# Compressed data as it is sent

Deflated streams come bare, in a zlib wrapper with an Adler sum, or in a gzip member with a header,
a cyclic redundancy check and a length. Every decoder has a limit on its output: at most one byte
more than the limit is asked for, so output beyond it is found out without being produced to its end,
and what follows the stream is then left alone. Whatever a decoder returns keeps the limit
(`length_conclude`).
-/

namespace Trawl.Compression

/-- Why decompressing failed. -/
inductive Failure where
  | tooLarge
  | corrupt
  deriving DecidableEq, Repr

/-- The result of inflating, given where the stream ended and a check on what follows it. -/
def conclude (limit : Nat) (out : Array UInt8) (ending : Except Halt Bytes)
    (accepted : Bytes → Bool) : Except Failure Bytes :=
  match ending with
  | .error .fault => .error .corrupt
  | .error .exhausted => .error (if limit < out.size then .tooLarge else .corrupt)
  | .ok rest =>
    if limit < out.size then .error .tooLarge
    else if accepted rest then .ok out.toList
    else .error .corrupt

theorem length_conclude {limit : Nat} {out : Array UInt8} {ending : Except Halt Bytes}
    {accepted : Bytes → Bool} {data : Bytes}
    (h : conclude limit out ending accepted = .ok data) : data.length ≤ limit := by
  unfold conclude at h
  split at h
  · simp at h
  · simp at h
  split at h
  · simp at h
  split at h
  · simp only [Except.ok.injEq] at h
    rw [← h, Array.length_toList]
    omega
  · simp at h

/-- Decompresses a bare stream. -/
def inflateBare (limit : Nat) (b : Bytes) : Except Failure Bytes :=
  let (out, ending) := Deflate.inflate limit 0 b
  conclude limit out ending fun _ => true

theorem length_inflateBare {limit : Nat} {b data : Bytes} (h : inflateBare limit b = .ok data) :
    data.length ≤ limit :=
  length_conclude h

/-- Whether two bytes are the header of a zlib wrapper without a preset dictionary. -/
def isZlibHeader (first second : UInt8) : Bool :=
  first &&& 0x0F = 8 && first >>> 4 ≤ 7 && second &&& 0x20 = 0 &&
    (first.toNat * 256 + second.toNat) % 31 = 0

/-- Where a stream ends whose Adler sum follows it. -/
def afterSum (out : Array UInt8) (rest : Bytes) : Except Halt Bytes :=
  match rest.split? 4 with
  | none => .error .exhausted
  | some (sum, rest) =>
    if sum.bigEndian = (adler32 out).toNat then .ok rest else .error .fault

/-- Decompresses a stream in a zlib wrapper. -/
def inflateWrapped (limit : Nat) : Bytes → Except Failure Bytes
  | first :: second :: stream =>
    if isZlibHeader first second then
      let (out, ending) := Deflate.inflate limit 2 stream
      conclude limit out (ending.bind (afterSum out)) fun _ => true
    else .error .corrupt
  | _ => .error .corrupt

theorem length_inflateWrapped {limit : Nat} {b data : Bytes}
    (h : inflateWrapped limit b = .ok data) : data.length ≤ limit := by
  unfold inflateWrapped at h
  split at h
  · split at h
    · exact length_conclude h
    · cases h
  · cases h

namespace Gzip

/-- The longest text in a header. -/
def maxText : Nat := 65535

/-- What follows a text that a zero ends. -/
def skipText (b : Bytes) : Option Bytes :=
  let text := (b.take (maxText + 1)).takeWhile (· ≠ 0)
  if maxText < text.length then none else (b.drop text.length).tail?

/-- What follows a field that states its length. -/
def skipExtra (b : Bytes) : Option Bytes := do
  let (length, rest) ← b.split? 2
  let (_, rest) ← rest.split? length.littleEndian
  return rest

/-- What follows the check of a header, if it fits the header before it. -/
def skipCheck (header b : Bytes) : Option Bytes := do
  let (check, rest) ← b.split? 2
  if check.littleEndian = (crc32 header.toArray).toNat % 65536 then some rest else none

/-- The parts that a header can have, as its flags announce them. -/
def flagCheck : UInt8 := 0x02
def flagExtra : UInt8 := 0x04
def flagName : UInt8 := 0x08
def flagComment : UInt8 := 0x10
def flagsReserved : UInt8 := 0xE0

/-- What follows a part of the header, where a flag announces it. -/
def skipIf (flags flag : UInt8) (skip : Bytes → Option Bytes) (b : Bytes) : Option Bytes :=
  if flags &&& flag = 0 then some b else skip b

/-- The stream that follows the header of a member. -/
def stream? (member : Bytes) : Option Bytes := do
  let (fixed, rest) ← member.split? 10
  let flags := fixed.octet 3
  if !fixed.has 0 [0x1F, 0x8B, 0x08] || flags &&& flagsReserved ≠ 0 then none
  else
    let rest ← skipIf flags flagExtra skipExtra rest
    let rest ← skipIf flags flagName skipText rest
    let rest ← skipIf flags flagComment skipText rest
    let header := member.take (member.length - rest.length)
    skipIf flags flagCheck (skipCheck header) rest

/-- Whether what follows the stream is the trailer for its output. -/
def trailerFits (out : Array UInt8) (rest : Bytes) : Bool :=
  match rest.split? 8 with
  | none => false
  | some (trailer, _) =>
    (trailer.field 0 4).littleEndian = (crc32 out).toNat &&
      (trailer.field 4 4).littleEndian = out.size % 0x100000000

/-- Decompresses the first member; bytes after it do not matter. -/
def decode (limit : Nat) (member : Bytes) : Except Failure Bytes :=
  match stream? member with
  | none => .error .corrupt
  | some stream =>
    let (out, ending) := Deflate.inflate limit (member.length - stream.length) stream
    conclude limit out ending (trailerFits out)

theorem length_decode {limit : Nat} {member data : Bytes} (h : decode limit member = .ok data) :
    data.length ≤ limit := by
  unfold decode at h
  split at h
  · cases h
  · exact length_conclude h

end Gzip

end Trawl.Compression
