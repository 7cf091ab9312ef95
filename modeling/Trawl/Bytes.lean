/-!
# Byte strings

Everything this library reads or carries is a list of octets, first octet first. This file holds
the few operations on them that the formats share: cutting a piece of known size, reading a fixed
field, reading a field as a number in either byte order.
-/

namespace Trawl

/-- A byte string, first octet first. -/
abbrev Bytes := List UInt8

namespace Bytes

/-- The first `n` bytes and what follows them, when there are that many. -/
def split? (n : Nat) (b : Bytes) : Option (Bytes × Bytes) :=
  let head := b.take n
  if head.length = n then some (head, b.drop n) else none

/-- Whether more than `n` bytes are present. -/
def longerThan (n : Nat) (b : Bytes) : Bool :=
  !(b.drop n).isEmpty

/-- The `width` bytes that start at `offset`, fewer where the bytes end before that. -/
def field (b : Bytes) (offset width : Nat) : Bytes :=
  (b.drop offset).take width

/-- The octet at `offset`, zero where there is none. -/
def octet (b : Bytes) (offset : Nat) : UInt8 :=
  b.getD offset 0

/-- Whether the bytes at `offset` are those of `mark`. -/
def has (b : Bytes) (offset : Nat) (mark : Bytes) : Bool :=
  mark.isPrefixOf (b.drop offset)

/-- The octets of a text, for marks that formats spell in letters. -/
def ofText (s : String) : Bytes :=
  s.toUTF8.data.toList

/-- The text these bytes are the UTF-8 form of, when there is one. -/
def toText? (b : Bytes) : Option String :=
  String.fromUTF8? ⟨b.toArray⟩

/-- The number whose octets are these, most significant first. -/
def bigEndian (b : Bytes) : Nat :=
  b.foldl (fun n octet => n * 256 + octet.toNat) 0

/-- The number whose octets are these, least significant first. -/
def littleEndian (b : Bytes) : Nat :=
  b.foldr (fun octet n => octet.toNat + n * 256) 0

theorem split?_eq_some {n : Nat} {b head rest : Bytes} (h : split? n b = some (head, rest)) :
    b = head ++ rest ∧ head.length = n := by
  simp only [split?] at h
  split at h
  · rename_i hn
    simp only [Option.some.injEq, Prod.mk.injEq] at h
    obtain ⟨rfl, rfl⟩ := h
    exact ⟨(List.take_append_drop n b).symm, hn⟩
  · simp at h

end Bytes

/-- The order in which the octets of a number are written. -/
inductive ByteOrder where
  | little
  | big
  deriving DecidableEq, Repr

/-- The number that octets stand for in a byte order. -/
def ByteOrder.read : ByteOrder → Bytes → Nat
  | .little, b => b.littleEndian
  | .big, b => b.bigEndian

end Trawl
