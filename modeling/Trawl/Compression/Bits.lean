import Trawl.Bytes

/-!
# Reading bits

Compressed data is a sequence of bits, those of one byte following each other from the least
significant one. Numbers are written least significant bit first. The bytes are fetched piece by
piece, and only when a bit of the next piece is asked for; a sequence can be closed so that no more
pieces are fetched.
-/

namespace Trawl.Compression

/-- Why compressed data is not read on. -/
inductive Halt where
  /-- The bytes end, or the room for what they stand for does. -/
  | exhausted
  /-- The bytes cannot be compressed data. -/
  | fault
  deriving DecidableEq, Repr

/-- How many bytes are fetched at a time. -/
def pieceSize : Nat := 32768

/-- A position in a sequence of bits. -/
structure Bits where
  /-- The bits left of the byte being read, as a number. -/
  octet : Nat
  /-- How many bits are left of the byte being read. -/
  left : Nat
  /-- The bytes after it that are fetched. -/
  fetched : Bytes
  /-- The bytes after these. -/
  pending : Bytes
  deriving DecidableEq, Repr

namespace Bits

/-- The bits of a byte string that stands `offset` bytes behind the start of the first piece. -/
def ofBytes (offset : Nat) (b : Bytes) : Bits :=
  let first := pieceSize - offset % pieceSize
  ⟨0, 0, b.take first, b.drop first⟩

/-- How many bits are left. -/
def size (bits : Bits) : Nat :=
  bits.left + 8 * (bits.fetched.length + bits.pending.length)

/-- The next bit, as a number. -/
def next (bits : Bits) : Except Halt (Nat × Bits) :=
  match bits.left with
  | left + 1 => .ok (bits.octet % 2, { bits with octet := bits.octet / 2, left })
  | 0 =>
    match bits.fetched with
    | b :: fetched => .ok (b.toNat % 2, ⟨b.toNat / 2, 7, fetched, bits.pending⟩)
    | [] =>
      match bits.pending with
      | b :: later =>
        .ok (b.toNat % 2,
          ⟨b.toNat / 2, 7, later.take (pieceSize - 1), later.drop (pieceSize - 1)⟩)
      | [] => .error .exhausted

/-- The number that the next `width` bits stand for. -/
def read : (width : Nat) → Bits → Except Halt (Nat × Bits)
  | 0, bits => .ok (0, bits)
  | width + 1, bits =>
    match bits.next with
    | .error halt => .error halt
    | .ok (bit, bits) =>
      match read width bits with
      | .error halt => .error halt
      | .ok (value, bits) => .ok (bit + 2 * value, bits)

/-- What is left after the byte being read. -/
def align (bits : Bits) : Bits :=
  { bits with octet := 0, left := 0 }

/-- The same bits, up to the end of the fetched ones. -/
def close (bits : Bits) : Bits :=
  { bits with pending := [] }

/-- The bytes that follow the one being read. -/
def wholeBytes (bits : Bits) : Bytes :=
  bits.fetched ++ bits.pending

theorem size_next {bits bits' : Bits} {bit : Nat} (h : bits.next = .ok (bit, bits')) :
    bits'.size < bits.size := by
  obtain ⟨octet, left, fetched, pending⟩ := bits
  cases left with
  | succ left =>
    simp only [next, Except.ok.injEq, Prod.mk.injEq] at h
    obtain ⟨-, rfl⟩ := h
    simp only [size]
    omega
  | zero =>
    cases fetched with
    | cons b fetched =>
      simp only [next, Except.ok.injEq, Prod.mk.injEq] at h
      obtain ⟨-, rfl⟩ := h
      simp only [size, List.length_cons]
      omega
    | nil =>
      cases pending with
      | nil => simp [next] at h
      | cons b later =>
        simp only [next, Except.ok.injEq, Prod.mk.injEq] at h
        obtain ⟨-, rfl⟩ := h
        simp only [size, List.length_take, List.length_drop, List.length_cons, List.length_nil]
        omega

theorem size_read {width : Nat} {bits bits' : Bits} {value : Nat}
    (h : bits.read width = .ok (value, bits')) : bits'.size + width ≤ bits.size := by
  induction width generalizing bits bits' value with
  | zero =>
    simp only [read, Except.ok.injEq, Prod.mk.injEq] at h
    simp [h.2]
  | succ width ih =>
    simp only [read] at h
    split at h
    · simp at h
    split at h
    · simp at h
    · rename_i hn _ _ _ hr
      simp only [Except.ok.injEq, Prod.mk.injEq] at h
      obtain ⟨-, rfl⟩ := h
      have := size_next hn
      have := ih hr
      omega

theorem size_align (bits : Bits) : bits.align.size ≤ bits.size := by
  simp only [size, align]
  omega

theorem size_close (bits : Bits) : bits.close.size ≤ bits.size := by
  simp only [size, close, List.length_nil]
  omega

end Bits

end Trawl.Compression
