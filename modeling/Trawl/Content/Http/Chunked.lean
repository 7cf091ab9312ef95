import Trawl.Content.Http.Head

/-!
# Chunked bodies

A chunked body is a sequence of chunks, each behind a line with its size, then a line with the size
zero and trailer lines up to an empty one. Only its length is wanted here.
-/

namespace Trawl.Content.Http.Chunked

/-- The value of a hexadecimal digit. -/
def hexValue? (b : UInt8) : Option Nat :=
  if isDigit b then some (b.toNat - 0x30)
  else if 0x61 ≤ b && b ≤ 0x66 then some (b.toNat - 0x57)
  else if 0x41 ≤ b && b ≤ 0x46 then some (b.toNat - 0x37)
  else none

/-- The most digits that a size has. -/
def maxDigits : Nat := 16

/-- A size line: the size it states and how many bytes it takes up. -/
structure SizeLine where
  size : Nat
  length : Nat
  deriving DecidableEq, Repr

/-- The parts of a size line. -/
inductive Part where
  /-- The digits, of which so many are read. -/
  | digits (count : Nat)
  /-- The blanks after them. -/
  | blanks
  /-- What a semicolon starts. -/
  | rest
  deriving DecidableEq, Repr

/-- Reads on in a size line, and gives what follows it. -/
def sizeLineFrom (part : Part) (size length : Nat) : Bytes → Option (SizeLine × Bytes)
  | [] => none
  | b :: more =>
    if b = carriageReturn then
      match more with
      | [] => none
      | b :: more => if b = lineFeed then some (⟨size, length + 2⟩, more) else none
    else
      match part with
      | .digits count =>
        match hexValue? b with
        | some value =>
          if count < maxDigits then
            sizeLineFrom (.digits (count + 1)) (size * 16 + value) (length + 1) more
          else none
        | none =>
          if b = 0x3B then sizeLineFrom .rest size (length + 1) more
          else if isBlank b then sizeLineFrom .blanks size (length + 1) more
          else none
      | .blanks =>
        if b = 0x3B then sizeLineFrom .rest size (length + 1) more
        else if isBlank b then sizeLineFrom .blanks size (length + 1) more
        else none
      | .rest => sizeLineFrom .rest size (length + 1) more

/-- The size line at the front and what follows it: up to sixteen hexadecimal digits, blanks, and
anything behind a semicolon. -/
def sizeLine? (b : Bytes) : Option (SizeLine × Bytes) :=
  sizeLineFrom (.digits 0) 0 0 b

/-- Where the trailer ends that goes on here after `position` bytes. `fresh` says that a line starts
here. -/
def trailerEnd? (fresh : Bool) (position : Nat) : Bytes → Option Nat
  | [] => none
  | [_] => none
  | a :: b :: rest =>
    if a = carriageReturn ∧ b = lineFeed then
      if fresh then some (position + 2) else trailerEnd? true (position + 2) rest
    else trailerEnd? false (position + 1) (b :: rest)

theorem length_sizeLineFrom {part : Part} {size length : Nat} {b rest : Bytes} {line : SizeLine}
    (h : sizeLineFrom part size length b = some (line, rest)) : rest.length < b.length := by
  fun_induction sizeLineFrom part size length b <;> simp_all <;> omega

/-- What follows a chunk of a size and the end of its line. -/
def afterChunk? (size : Nat) (b : Bytes) : Option Bytes :=
  match b.split? size with
  | some (_, a :: b :: rest) => if a = carriageReturn ∧ b = lineFeed then some rest else none
  | _ => none

theorem length_afterChunk?_le {size : Nat} {b rest : Bytes} (h : afterChunk? size b = some rest) :
    rest.length ≤ b.length := by
  unfold afterChunk? at h
  split at h
  · rename_i hs
    split at h
    · simp only [Option.some.injEq] at h
      rw [(Bytes.split?_eq_some hs).1, ← h]
      simp only [List.length_append, List.length_cons]
      omega
    · simp at h
  · simp at h

/-- Where the body ends that goes on here after `position` bytes. -/
def bodyEnd? (position : Nat) (b : Bytes) : Option Nat :=
  match _hl : sizeLine? b with
  | none => none
  | some (line, rest) =>
    if line.size = 0 then trailerEnd? true (position + line.length) rest
    else
      match _hc : afterChunk? line.size rest with
      | none => none
      | some rest => bodyEnd? (position + line.length + line.size + 2) rest
termination_by b.length
decreasing_by exact Nat.lt_of_le_of_lt (length_afterChunk?_le _hc) (length_sizeLineFrom _hl)

/-- The length of the chunked body at the front. -/
def length? (b : Bytes) : Option Nat :=
  bodyEnd? 0 b

end Trawl.Content.Http.Chunked
