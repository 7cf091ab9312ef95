import Trawl.Bytes

/-!
# Reading a file through a window

A capture file is read through a window of 65536 bytes. Blocks are parsed from what the window
holds; when one is not complete there, the window is moved up to its start and filled again. A block
that would not leave room in a full window is refused, unless the end of the file has been seen: then
the file is cut off. The end is only seen by a read that finds nothing.
-/

namespace Trawl.CaptureFile

/-- Why a file cannot be read on. -/
inductive Cause where
  /-- A block does not fit the window. -/
  | windowTooSmall
  /-- The file ends inside a block. -/
  | unexpectedEnd
  /-- The file is none of the known formats. -/
  | notRecognized
  /-- The file ends inside its first header. -/
  | incomplete
  /-- A block contradicts itself. -/
  | malformed
  deriving DecidableEq, Repr

/-- The wording of a cause. -/
def Cause.message : Cause → String
  | .windowTooSmall => "buffer is too small"
  | .unexpectedEnd => "unexpected end of file"
  | .notRecognized => "unrecognized header"
  | .incomplete => "need more bytes for the header"
  | .malformed => "malformed block"

/-- What parsing the front of the buffered bytes gives. -/
inductive Parsed (α : Type) where
  /-- A block and the bytes after it. -/
  | block (value : α) (rest : Bytes)
  /-- More bytes are needed, at least so many. -/
  | missing (count : Nat)
  | refused (cause : Cause)

/-- A way to parse blocks. Every block takes up at least one byte. -/
structure BlockParser (α : Type) where
  parse : Bytes → Parsed α
  progress : ∀ {b : Bytes} {value : α} {rest : Bytes},
    parse b = .block value rest → rest.length < b.length

/-- How many bytes the window holds. -/
def windowSize : Nat := 65536

/-- A file being read. -/
structure Window where
  /-- Bytes that have been read and not yet parsed. -/
  buffered : Bytes
  /-- Bytes that are still to be read. -/
  unread : Bytes
  /-- Whether a read has found nothing. -/
  exhausted : Bool
  deriving DecidableEq, Repr

namespace Window

/-- A file whose first bytes have been read. -/
def start (file : Bytes) : Window :=
  ⟨file.take windowSize, file.drop windowSize, false⟩

/-- How many bytes are left to parse. -/
def size (w : Window) : Nat :=
  w.buffered.length + w.unread.length

/-- Fills the window up. -/
def refill (w : Window) : Window :=
  let room := windowSize - w.buffered.length
  { buffered := w.buffered ++ w.unread.take room
    unread := w.unread.drop room
    exhausted := w.unread.isEmpty }

/-- How often the window can still be filled. -/
def refills (w : Window) : Nat :=
  w.unread.length + if w.exhausted then 0 else 1

theorem refills_refill {w : Window} (he : w.exhausted = false)
    (hr : w.buffered.length < windowSize) : w.refill.refills < w.refills := by
  obtain ⟨buffered, unread, exhausted⟩ := w
  subst he
  cases unread with
  | nil => simp [refills, refill]
  | cons b r =>
    simp only [refills, refill, List.length_drop, List.length_cons, List.isEmpty_cons,
      Bool.false_eq_true, ↓reduceIte] at hr ⊢
    omega

@[simp] theorem size_refill (w : Window) : w.refill.size = w.size := by
  simp only [size, refill, List.length_append, List.length_take, List.length_drop]
  omega

/-- The next block, or nothing at the end of the file. -/
def fetch {α : Type} (p : BlockParser α) (w : Window) : Except Cause (Option (α × Window)) :=
  if w.exhausted && w.buffered.isEmpty then .ok none
  else
    match p.parse w.buffered with
    | .block value rest => .ok (some (value, { w with buffered := rest }))
    | .refused cause => .error cause
    | .missing count =>
      if _he : w.exhausted then .error .unexpectedEnd
      else if _hr : windowSize ≤ w.buffered.length + count then .error .windowTooSmall
      else fetch p w.refill
termination_by w.refills
decreasing_by exact refills_refill (by simpa using _he) (by omega)

theorem size_fetch {α : Type} (p : BlockParser α) (w : Window) {value : α} {w' : Window}
    (h : w.fetch p = .ok (some (value, w'))) : w'.size < w.size := by
  fun_induction fetch p w with
  | case1 => simp at h
  | case2 w _ v rest hp =>
    simp only [Except.ok.injEq, Option.some.injEq, Prod.mk.injEq] at h
    obtain ⟨-, rfl⟩ := h
    have := p.progress hp
    simp only [size]
    omega
  | case3 => simp at h
  | case4 => simp at h
  | case5 => simp at h
  | case6 w _ count _ _ _ ih => simpa using ih h

end Window

end Trawl.CaptureFile
