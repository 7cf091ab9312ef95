import Trawl.Bytes

/-!
# UTF-8

Reading characters off a byte string, as RFC 3629 has them: the lead byte says how many
continuation bytes follow and bounds the first of them, which rules out overlong forms, surrogates
and values above U+10FFFF. `next?` reads one character and `lossy` reads everything, with U+FFFD
for each longest piece that starts a character and does not finish it.
-/

namespace Trawl.Text.Utf8

/-- What a lead byte announces: how many continuation bytes, and the bounds of the first. -/
structure Lead where
  more : Nat
  low : UInt8
  high : UInt8
  /-- The bits of the lead byte that count towards the value. -/
  bits : UInt8

/-- The announcement of a lead byte, for the bytes that can be one. -/
def lead? (b : UInt8) : Option Lead :=
  if b < 0x80 then some ⟨0, 0x80, 0xBF, b⟩
  else if b < 0xC2 then none
  else if b < 0xE0 then some ⟨1, 0x80, 0xBF, b &&& 0x1F⟩
  else if b < 0xF0 then
    some ⟨2, if b = 0xE0 then 0xA0 else 0x80, if b = 0xED then 0x9F else 0xBF, b &&& 0x0F⟩
  else if b < 0xF5 then
    some ⟨3, if b = 0xF0 then 0x90 else 0x80, if b = 0xF4 then 0x8F else 0xBF, b &&& 0x07⟩
  else none

/-- The outcome of reading one character, each time with what follows: its value, or no value where
the bytes start none or do not finish the one they start. -/
inductive Read where
  | char (value : Nat) (rest : Bytes)
  | malformed (rest : Bytes)

/-- Reads the continuation bytes of a character: `more` of them, the first within its bounds. -/
def readMore (value : Nat) : (more : Nat) → (low high : UInt8) → Bytes → Read
  | 0, _, _, rest => .char value rest
  | _ + 1, _, _, [] => .malformed []
  | more + 1, low, high, b :: rest =>
    if low ≤ b && b ≤ high then
      readMore (value * 64 + (b &&& 0x3F).toNat) more 0x80 0xBF rest
    else .malformed (b :: rest)

/-- Reads the character whose lead byte is `b`. -/
def readFrom (b : UInt8) (rest : Bytes) : Read :=
  match lead? b with
  | none => .malformed rest
  | some lead => readMore lead.bits.toNat lead.more lead.low lead.high rest

/-- The character at the front, with the bytes after it, where the bytes there form one. -/
def next? : Bytes → Option (Char × Bytes)
  | [] => none
  | b :: rest =>
    match readFrom b rest with
    | .char value rest => some (Char.ofNat value, rest)
    | .malformed .. => none

/-- What is left after reading. -/
def Read.rest : Read → Bytes
  | .char _ rest => rest
  | .malformed rest => rest

theorem length_rest_readMore (value more : Nat) (low high : UInt8) (b : Bytes) :
    (readMore value more low high b).rest.length ≤ b.length := by
  induction b generalizing value more low high with
  | nil => cases more <;> simp [readMore, Read.rest]
  | cons c r ih =>
    cases more with
    | zero => simp [readMore, Read.rest]
    | succ more =>
      simp only [readMore]
      split
      · exact Nat.le_trans (ih ..) (by simp)
      · simp [Read.rest]

theorem length_rest_readFrom (b : UInt8) (rest : Bytes) :
    (readFrom b rest).rest.length ≤ rest.length := by
  unfold readFrom
  split
  · simp [Read.rest]
  · exact length_rest_readMore ..

theorem length_of_next? {b rest : Bytes} {c : Char} (h : next? b = some (c, rest)) :
    rest.length < b.length := by
  cases b with
  | nil => simp [next?] at h
  | cons a r =>
    have hr := length_rest_readFrom a r
    simp only [next?] at h
    split at h
    · rename_i value more hread
      simp only [Option.some.injEq, Prod.mk.injEq] at h
      rw [hread] at hr
      simp only [Read.rest, h.2] at hr
      simpa using Nat.lt_succ_of_le hr
    · simp at h

/-- The characters read so far, last first, then those of the rest. -/
def lossyOnto (done : List Char) : Bytes → List Char
  | [] => done.reverse
  | b :: rest =>
    have := length_rest_readFrom b rest
    match _h : readFrom b rest with
    | .char value rest' => lossyOnto (Char.ofNat value :: done) rest'
    | .malformed rest' => lossyOnto (Char.ofNat 0xFFFD :: done) rest'
termination_by b => b.length
decreasing_by
  all_goals
    rw [_h] at this
    simpa [Read.rest] using Nat.lt_succ_of_le this

/-- The text of a byte string, U+FFFD standing for each piece that is no character. -/
def lossy (b : Bytes) : List Char :=
  lossyOnto [] b

/-- A byte string of ASCII text reads as its characters. -/
theorem next?_ascii {b : UInt8} (h : b < 0x80) (rest : Bytes) :
    next? (b :: rest) = some (Char.ofNat b.toNat, rest) := by
  simp [next?, readFrom, lead?, h, readMore]

end Trawl.Text.Utf8
