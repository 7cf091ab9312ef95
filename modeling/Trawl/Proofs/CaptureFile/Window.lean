import Mathlib.Algebra.GroupWithZero.Nat
import Trawl.CaptureFile.Window

/-!
# Files that are read through a window

What the window holds when a block is reached depends on the sizes of the blocks before it. So that
is followed from block to block (`Piece.aheadAfter`), and each is read or refused for how much of it
is ahead (`Layout.fetch_append`). Of a well-formed file, all blocks up to the first one that does
not fit are read (`Layout.drain_bytesOf`); a block smaller than the window always fits, and a larger
one never does.
-/

namespace Trawl.CaptureFile

/-! ## Fetching -/

namespace Window

section Fetch

variable {α : Type} {p : BlockParser α} {w : Window}

theorem fetch_of_end (he : w.exhausted = true) (hb : w.buffered = []) : w.fetch p = .ok none := by
  rw [fetch]
  simp [he, hb]

theorem fetch_of_block {value : α} {rest : Bytes} (hp : p.parse w.buffered = .block value rest)
    (hb : w.buffered ≠ []) : w.fetch p = .ok (some (value, { w with buffered := rest })) := by
  rw [fetch, if_neg (by simp [hb]), hp]

theorem fetch_of_missing {count : Nat} (hp : p.parse w.buffered = .missing count)
    (he : w.exhausted = false) : w.fetch p =
      if windowSize ≤ w.buffered.length + count then .error .windowTooSmall
      else w.refill.fetch p := by
  rw [fetch, if_neg (by simp [he]), hp]
  dsimp only
  rw [dif_neg (by simp [he])]
  rfl

theorem fetch_of_cut {count : Nat} (hp : p.parse w.buffered = .missing count)
    (he : w.exhausted = true) (hb : w.buffered ≠ []) : w.fetch p = .error .unexpectedEnd := by
  rw [fetch, if_neg (by simp [hb]), hp]
  dsimp only
  rw [dif_pos he]

end Fetch

/-- A window with so many bytes ahead of what is parsed next, unless the file ends before that. -/
def ahead (n : Nat) (left : Bytes) : Window :=
  ⟨left.take n, left.drop n, false⟩

theorem refill_ahead {n : Nat} {left : Bytes} (hn : n ≤ windowSize) (h : n < left.length) :
    (ahead n left).refill = ahead windowSize left := by
  have hlength : (left.take n).length = n := by
    rw [List.length_take]
    omega
  have hunread : (left.drop n).isEmpty = false := by
    simpa using h
  have htake : left.take n ++ (left.drop n).take (windowSize - n) = left.take windowSize := by
    rw [← List.take_add, Nat.add_sub_cancel' hn]
  simp only [refill, ahead, hlength, hunread, htake, List.drop_drop, Nat.add_sub_cancel' hn]

theorem refill_of_unread_eq_nil {buffered : Bytes} :
    (⟨buffered, [], false⟩ : Window).refill = ⟨buffered, [], true⟩ := by
  simp [refill]

theorem ahead_of_length_le {n : Nat} {left : Bytes} (h : left.length ≤ n) :
    ahead n left = ⟨left, [], false⟩ := by
  rw [ahead, List.take_of_length_le h, List.drop_of_length_le h]

theorem fetch_ahead_nil {α : Type} {p : BlockParser α} {count : Nat}
    (hp : p.parse [] = .missing count) (hcount : count < windowSize) (n : Nat) :
    (ahead n []).fetch p = .ok none := by
  rw [ahead_of_length_le (Nat.zero_le n), fetch_of_missing hp rfl,
    if_neg (by simpa using hcount), refill_of_unread_eq_nil]
  exact fetch_of_end rfl rfl

end Window

/-! ## Blocks one after the other -/

/-- How the blocks of a file follow each other: each may change how those after it are read. Where a
block parses, it does so whatever follows it. Where only some of its bytes are there, more of it is
asked for, but nothing beyond it. -/
structure Layout (σ α : Type) where
  parser : σ → BlockParser α
  next : σ → α → σ
  /-- Up to where a block is asked for of which only so many bytes are there. -/
  asked : σ → Bytes → Nat → Nat
  /-- At the end of a file, not much is asked for. -/
  parse_nil : ∀ s, ∃ count < windowSize, (parser s).parse [] = .missing count
  parse_append : ∀ {s b value}, (parser s).parse b = .block value [] →
    ∀ rest, (parser s).parse (b ++ rest) = .block value rest
  parse_take : ∀ {s b value}, (parser s).parse b = .block value [] → ∀ {k}, k < b.length →
    (parser s).parse (b.take k) = .missing (asked s b k - k) ∧
      k < asked s b k ∧ asked s b k ≤ b.length

/-- A block as it stands in a file, with what it says. -/
structure Piece (α : Type) where
  bytes : Bytes
  value : α

namespace Piece

variable {α : Type} {n : Nat}

def bytesOf (pieces : List (Piece α)) : Bytes :=
  pieces.flatMap bytes

/-- How many bytes are ahead when a piece has been read that was reached with so many. -/
def aheadAfter (ahead : Nat) (piece : Piece α) : Nat :=
  if piece.bytes.length ≤ ahead then ahead - piece.bytes.length
  else windowSize - piece.bytes.length

theorem aheadAfter_le (hn : n ≤ windowSize) (piece : Piece α) :
    piece.aheadAfter n ≤ windowSize := by
  unfold aheadAfter
  split <;> omega

end Piece

namespace Layout

variable {σ α : Type} (l : Layout σ α)

/-- The blocks that a window gives from here on, and the cause that ends the reading, unless that is
the end of the file. -/
def drain (s : σ) (w : Window) : List α × Option Cause :=
  match _h : w.fetch (l.parser s) with
  | .error cause => ([], some cause)
  | .ok none => ([], none)
  | .ok (some (value, w')) =>
    let rest := drain (l.next s value) w'
    (value :: rest.1, rest.2)
termination_by w.size
decreasing_by exact Window.size_fetch _ _ _h

section Drain

variable {l} {s : σ} {w w' : Window}

theorem drain_of_error {cause : Cause} (h : w.fetch (l.parser s) = .error cause) :
    l.drain s w = ([], some cause) := by
  rw [drain]
  split <;> rename_i hfetch <;> rw [h] at hfetch <;> cases hfetch
  rfl

theorem drain_of_end (h : w.fetch (l.parser s) = .ok none) : l.drain s w = ([], none) := by
  rw [drain]
  split <;> rename_i hfetch <;> rw [h] at hfetch <;> cases hfetch

theorem drain_of_value {value : α} (h : w.fetch (l.parser s) = .ok (some (value, w'))) :
    l.drain s w =
      (value :: (l.drain (l.next s value) w').1, (l.drain (l.next s value) w').2) := by
  rw [drain]
  split <;> rename_i hfetch <;> rw [h] at hfetch <;> cases hfetch
  rfl

end Drain

/-! ## What fits -/

/-- Whether pieces are well formed: each of them parses where all of it is in view. -/
def WellFormed : (s : σ) → List (Piece α) → Prop
  | _, [] => True
  | s, piece :: more =>
    (l.parser s).parse piece.bytes = .block piece.value [] ∧ WellFormed (l.next s piece.value) more

/-- Whether a piece is read that is reached with so many bytes ahead: it is there, or it has room in
the window and less than the whole window is asked for at first. -/
def Fits (s : σ) (ahead : Nat) (piece : Piece α) : Prop :=
  piece.bytes.length ≤ ahead ∨
    piece.bytes.length ≤ windowSize ∧ l.asked s piece.bytes ahead < windowSize

instance (s : σ) (ahead : Nat) (piece : Piece α) : Decidable (l.Fits s ahead piece) :=
  inferInstanceAs (Decidable (_ ∨ _ ∧ _))

/-- How many pieces are read, the first of them reached with so many bytes ahead. -/
def readCount : (s : σ) → (ahead : Nat) → List (Piece α) → Nat
  | _, _, [] => 0
  | s, ahead, piece :: more =>
    if l.Fits s ahead piece then readCount (l.next s piece.value) (piece.aheadAfter ahead) more + 1
    else 0

variable {l} {s : σ} {n : Nat} {piece : Piece α}

theorem Fits.length_le (h : l.Fits s n piece) (hn : n ≤ windowSize) :
    piece.bytes.length ≤ windowSize := by
  rcases h with h | h
  · omega
  · exact h.1

theorem fits_of_lt (hparse : (l.parser s).parse piece.bytes = .block piece.value [])
    (h : piece.bytes.length < windowSize) : l.Fits s n piece := by
  by_cases hn : piece.bytes.length ≤ n
  · exact .inl hn
  · obtain ⟨-, -, hasked⟩ := l.parse_take hparse (k := n) (by omega)
    exact .inr ⟨by omega, by omega⟩

theorem readCount_of_lt : ∀ {s : σ} {n : Nat} {pieces : List (Piece α)}, l.WellFormed s pieces →
    (∀ piece ∈ pieces, piece.bytes.length < windowSize) → l.readCount s n pieces = pieces.length
  | _, _, [], _, _ => rfl
  | s, n, piece :: more, hpieces, h => by
    obtain ⟨hparse, hmore⟩ := hpieces
    obtain ⟨hpiece, hlt⟩ := List.forall_mem_cons.1 h
    rw [readCount, if_pos (fits_of_lt hparse hpiece), readCount_of_lt hmore hlt]
    rfl

/-- The first piece that is not read has at least the size of the window. -/
theorem windowSize_le_length : ∀ {s : σ} {n : Nat} {pieces : List (Piece α)},
    l.WellFormed s pieces → pieces[l.readCount s n pieces]? = some piece →
    windowSize ≤ piece.bytes.length
  | _, _, [], _, h => by simp at h
  | s, n, first :: more, hpieces, h => by
    obtain ⟨hparse, hmore⟩ := hpieces
    unfold readCount at h
    split at h
    · rw [List.getElem?_cons_succ] at h
      exact windowSize_le_length hmore h
    · rename_i hfits
      rw [List.getElem?_cons_zero, Option.some.injEq] at h
      subst h
      exact Nat.le_of_not_lt fun hlt => hfits (fits_of_lt hparse hlt)

/-- No piece larger than the window is read, nor any after it. -/
theorem readCount_lt_of_mem (h : windowSize < piece.bytes.length) :
    ∀ {s : σ} {n : Nat} {pieces : List (Piece α)}, n ≤ windowSize → piece ∈ pieces →
      l.readCount s n pieces < pieces.length
  | s, n, first :: more, hn, hmem => by
    unfold readCount
    split
    · rename_i hfits
      rcases List.mem_cons.1 hmem with rfl | hmem
      · have := hfits.length_le hn
        omega
      · exact Nat.succ_lt_succ (readCount_lt_of_mem h (first.aheadAfter_le hn) hmem)
    · exact Nat.succ_pos _

/-! ## What is read -/

theorem fetch_of_length_le (hparse : (l.parser s).parse piece.bytes = .block piece.value [])
    (rest : Bytes) (h : piece.bytes.length ≤ n) :
    (Window.ahead n (piece.bytes ++ rest)).fetch (l.parser s) =
      .ok (some (piece.value, Window.ahead (n - piece.bytes.length) rest)) := by
  have hbuffered : (piece.bytes ++ rest).take n =
      piece.bytes ++ rest.take (n - piece.bytes.length) := by
    rw [List.take_append, List.take_of_length_le h]
  have hunread : (piece.bytes ++ rest).drop n = rest.drop (n - piece.bytes.length) := by
    rw [List.drop_append, List.drop_of_length_le h, List.nil_append]
  have hparse : (l.parser s).parse ((piece.bytes ++ rest).take n) =
      .block piece.value (rest.take (n - piece.bytes.length)) := by
    rw [hbuffered]
    exact l.parse_append hparse _
  have hne : (piece.bytes ++ rest).take n ≠ [] := by
    have := (l.parser s).progress hparse
    exact List.ne_nil_of_length_pos (by omega)
  rw [Window.fetch_of_block hparse hne, Window.ahead, Window.ahead, hunread]

theorem fetch_of_lt_length (hparse : (l.parser s).parse piece.bytes = .block piece.value [])
    (rest : Bytes) (hn : n ≤ windowSize) (h : n < piece.bytes.length) :
    (Window.ahead n (piece.bytes ++ rest)).fetch (l.parser s) =
      if windowSize ≤ l.asked s piece.bytes n then .error .windowTooSmall
      else (Window.ahead windowSize (piece.bytes ++ rest)).fetch (l.parser s) := by
  have hbuffered : (Window.ahead n (piece.bytes ++ rest)).buffered = piece.bytes.take n :=
    List.take_append_of_le_length (Nat.le_of_lt h)
  have hcount : (Window.ahead n (piece.bytes ++ rest)).buffered.length = n := by
    rw [hbuffered, List.length_take]
    omega
  have hmore : n < (piece.bytes ++ rest).length := by
    rw [List.length_append]
    omega
  obtain ⟨hmissing, hasked, -⟩ := l.parse_take hparse h
  rw [Window.fetch_of_missing (hbuffered ▸ hmissing) rfl, hcount, Window.refill_ahead hn hmore,
    Nat.add_sub_cancel' (Nat.le_of_lt hasked)]

/-- What comes of a piece, whatever follows it. -/
theorem fetch_append (hparse : (l.parser s).parse piece.bytes = .block piece.value [])
    (rest : Bytes) (hn : n ≤ windowSize) :
    (Window.ahead n (piece.bytes ++ rest)).fetch (l.parser s) =
      if l.Fits s n piece then
        .ok (some (piece.value, Window.ahead (piece.aheadAfter n) rest))
      else .error .windowTooSmall := by
  by_cases h : piece.bytes.length ≤ n
  · rw [fetch_of_length_le hparse rest h, if_pos (.inl h), Piece.aheadAfter, if_pos h]
  · rw [fetch_of_lt_length hparse rest hn (by omega), Piece.aheadAfter, if_neg h]
    by_cases hasked : windowSize ≤ l.asked s piece.bytes n
    · rw [if_pos hasked, if_neg]
      rintro (hfits | hfits) <;> omega
    rw [if_neg hasked]
    -- Once the window has been filled up, the piece is ahead to its end or larger than the window.
    by_cases hsize : piece.bytes.length ≤ windowSize
    · rw [fetch_of_length_le hparse rest hsize, if_pos (.inr ⟨hsize, by omega⟩)]
    · obtain ⟨-, hlt, -⟩ := l.parse_take hparse (k := windowSize) (by omega)
      rw [fetch_of_lt_length hparse rest (Nat.le_refl _) (by omega), if_pos (by omega), if_neg]
      rintro (hfits | hfits) <;> omega

/-- Of the pieces of a well-formed file, those are read that come before the first one that does not
fit. -/
theorem drain_bytesOf : ∀ {s : σ} {pieces : List (Piece α)} {n : Nat}, l.WellFormed s pieces →
    n ≤ windowSize → l.drain s (Window.ahead n (Piece.bytesOf pieces)) =
      ((pieces.take (l.readCount s n pieces)).map Piece.value,
        if l.readCount s n pieces = pieces.length then none else some .windowTooSmall)
  | s, [], n, _, _ => by
    obtain ⟨count, hcount, hparse⟩ := l.parse_nil s
    exact drain_of_end (Window.fetch_ahead_nil hparse hcount n)
  | s, piece :: more, n, hpieces, hn => by
    obtain ⟨hparse, hmore⟩ := hpieces
    have hfetch := fetch_append hparse (Piece.bytesOf more) hn
    rw [Piece.bytesOf, List.flatMap_cons, ← Piece.bytesOf, readCount]
    by_cases hfits : l.Fits s n piece
    · rw [if_pos hfits] at hfetch
      rw [drain_of_value hfetch, drain_bytesOf hmore (piece.aheadAfter_le hn), if_pos hfits]
      simp
    · rw [if_neg hfits] at hfetch
      rw [drain_of_error hfetch, if_neg hfits]
      simp

end Layout

end Trawl.CaptureFile
