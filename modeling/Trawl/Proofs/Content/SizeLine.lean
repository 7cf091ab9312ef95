import Mathlib.Tactic.SplitIfs
import Trawl.Content.Http.Chunked

/-!
# Size lines

The line before a chunk is up to sixteen hexadecimal digits, blanks and anything behind a semicolon,
none of which has to be there, and the end of the line. Reading the line at the front gives the
number that its digits stand for (`Chunked.sizeLine?_iff_states`), and that number has 64 bits
(`Chunked.States.lt`).
-/

namespace Trawl.Content.Http.Chunked

/-- The end of a line. -/
def lineEnd : Bytes :=
  [carriageReturn, lineFeed]

/-- Whether bytes are a size line, and read as a size. -/
def States (line : Bytes) (size : Nat) : Prop :=
  sizeLine? line = some (⟨size, line.length⟩, [])

/-- What may stand between a size and the end of its line: blanks, and anything that a semicolon
starts. -/
def IsComment (b : Bytes) : Prop :=
  ∃ blanks extension, b = blanks ++ extension ∧ (∀ x ∈ blanks, isBlank x = true) ∧
    (extension = [] ∨ extension.head? = some 0x3B) ∧ carriageReturn ∉ extension

/-- The number that hexadecimal digits stand for which go on from those of `front`. -/
def hexNumber (front : Nat) (digits : Bytes) : Nat :=
  digits.foldl (fun n d => n * 16 + (hexValue? d).getD 0) front

section SizeLines

variable {part : Part} {size length count : Nat} {b : UInt8} {more rest : Bytes} {line : SizeLine}

theorem hexValue?_of_isBlank (h : isBlank b = true) : hexValue? b = none := by
  rcases Bool.or_eq_true_iff.1 h with h | h <;> rw [of_decide_eq_true h] <;> decide

theorem sizeLineFrom_return :
    sizeLineFrom part size length (carriageReturn :: more) = some (line, rest) ↔
      more = lineFeed :: rest ∧ line = ⟨size, length + 2⟩ := by
  rw [sizeLineFrom.eq_def]
  rcases more with _ | ⟨b, more⟩
  · simp
  · by_cases hb : b = lineFeed
    · simp [hb, eq_comm, and_comm]
    · simp [hb]

theorem sizeLineFrom_rest (hb : b ≠ carriageReturn) :
    sizeLineFrom .rest size length (b :: more) = sizeLineFrom .rest size (length + 1) more := by
  rw [sizeLineFrom.eq_def]
  simp [hb]

theorem sizeLineFrom_blanks (hb : b ≠ carriageReturn) :
    sizeLineFrom .blanks size length (b :: more) =
      if b = 0x3B then sizeLineFrom .rest size (length + 1) more
      else if isBlank b then sizeLineFrom .blanks size (length + 1) more
      else none := by
  rw [sizeLineFrom.eq_def]
  simp [hb]

/-- Behind the digits, a size line goes on as behind a blank. -/
theorem sizeLineFrom_digits_of_none (hb : hexValue? b = none) :
    sizeLineFrom (.digits count) size length (b :: more) =
      sizeLineFrom .blanks size length (b :: more) := by
  rw [sizeLineFrom.eq_def, sizeLineFrom.eq_def]
  simp [hb]

theorem sizeLineFrom_digits_of_some {value : Nat} (hb : hexValue? b = some value) :
    sizeLineFrom (.digits count) size length (b :: more) =
      if count < maxDigits then
        sizeLineFrom (.digits (count + 1)) (size * 16 + value) (length + 1) more
      else none := by
  have hne : b ≠ carriageReturn := by
    rintro rfl
    cases hb
  rw [sizeLineFrom.eq_def]
  simp [hb, hne]

theorem length_cons_line (size length : Nat) (a : UInt8) (more : Bytes) :
    (⟨size, length + (a :: more).length + 2⟩ : SizeLine) =
      ⟨size, length + 1 + more.length + 2⟩ := by
  rw [List.length_cons, ← Nat.add_assoc, Nat.add_right_comm length]

theorem sizeLineFrom_rest_iff {b : Bytes} :
    sizeLineFrom .rest size length b = some (line, rest) ↔
      ∃ extension, carriageReturn ∉ extension ∧ b = extension ++ lineEnd ++ rest ∧
        line = ⟨size, length + extension.length + 2⟩ := by
  induction b generalizing length with
  | nil => simp [sizeLineFrom, lineEnd]
  | cons a more ih =>
    by_cases ha : a = carriageReturn
    · rw [ha, sizeLineFrom_return]
      constructor
      · rintro ⟨rfl, rfl⟩
        exact ⟨[], by simp, rfl, rfl⟩
      · rintro ⟨extension, hnot, hb, rfl⟩
        rcases extension with _ | ⟨x, extension⟩
        · simpa [lineEnd] using hb
        · obtain ⟨rfl, -⟩ := List.cons_eq_cons.1 hb
          simp at hnot
    · rw [sizeLineFrom_rest ha, ih]
      constructor
      · rintro ⟨extension, hnot, rfl, rfl⟩
        exact ⟨a :: extension, List.not_mem_cons_of_ne_of_not_mem (Ne.symm ha) hnot, rfl,
          (length_cons_line ..).symm⟩
      · rintro ⟨extension, hnot, hb, rfl⟩
        rcases extension with _ | ⟨x, extension⟩
        · exact absurd (List.cons_eq_cons.1 hb).1 ha
        · obtain ⟨rfl, rfl⟩ := List.cons_eq_cons.1 hb
          exact ⟨extension, fun h => hnot (List.mem_cons_of_mem _ h), rfl, length_cons_line ..⟩

theorem isComment_nil : IsComment [] :=
  ⟨[], [], rfl, by simp, .inl rfl, by simp⟩

theorem isComment_cons_iff {b : UInt8} {comment : Bytes} : IsComment (b :: comment) ↔
    b = 0x3B ∧ carriageReturn ∉ comment ∨ isBlank b = true ∧ IsComment comment := by
  constructor
  · rintro ⟨blanks, extension, hb, hblanks, hstart, hnot⟩
    rcases blanks with _ | ⟨x, blanks⟩
    · rw [List.nil_append] at hb
      subst hb
      exact .inl ⟨by simpa using hstart, fun h => hnot (List.mem_cons_of_mem _ h)⟩
    · obtain ⟨rfl, rfl⟩ := List.cons_eq_cons.1 hb
      obtain ⟨hx, hblanks⟩ := List.forall_mem_cons.1 hblanks
      exact .inr ⟨hx, blanks, extension, rfl, hblanks, hstart, hnot⟩
  · rintro (⟨rfl, hnot⟩ | ⟨hb, blanks, extension, rfl, hblanks, hstart, hnot⟩)
    · exact ⟨[], 0x3B :: comment, rfl, by simp, .inr rfl,
        List.not_mem_cons_of_ne_of_not_mem (by decide) hnot⟩
    · exact ⟨b :: blanks, extension, rfl, by simpa [hb] using hblanks, hstart, hnot⟩

theorem not_isComment_return {comment : Bytes} : ¬ IsComment (carriageReturn :: comment) := by
  rw [isComment_cons_iff]
  rintro (⟨h, -⟩ | ⟨h, -⟩) <;> revert h <;> decide

theorem sizeLineFrom_blanks_iff {b : Bytes} :
    sizeLineFrom .blanks size length b = some (line, rest) ↔
      ∃ comment, IsComment comment ∧ b = comment ++ lineEnd ++ rest ∧
        line = ⟨size, length + comment.length + 2⟩ := by
  induction b generalizing length with
  | nil => simp [sizeLineFrom, lineEnd]
  | cons a more ih =>
    by_cases ha : a = carriageReturn
    · rw [ha, sizeLineFrom_return]
      constructor
      · rintro ⟨rfl, rfl⟩
        exact ⟨[], isComment_nil, rfl, rfl⟩
      · rintro ⟨comment, hcomment, hb, rfl⟩
        rcases comment with _ | ⟨x, comment⟩
        · simpa [lineEnd] using hb
        · obtain ⟨rfl, -⟩ := List.cons_eq_cons.1 hb
          exact absurd hcomment not_isComment_return
    rw [sizeLineFrom_blanks ha]
    constructor
    · intro h
      split_ifs at h with hsemicolon hblank
      · obtain ⟨extension, hnot, rfl, rfl⟩ := sizeLineFrom_rest_iff.1 h
        exact ⟨a :: extension, isComment_cons_iff.2 (.inl ⟨hsemicolon, hnot⟩), rfl,
          (length_cons_line ..).symm⟩
      · obtain ⟨comment, hcomment, rfl, rfl⟩ := ih.1 h
        exact ⟨a :: comment, isComment_cons_iff.2 (.inr ⟨hblank, hcomment⟩), rfl,
          (length_cons_line ..).symm⟩
    · rintro ⟨comment, hcomment, hb, rfl⟩
      rcases comment with _ | ⟨x, comment⟩
      · exact absurd (List.cons_eq_cons.1 hb).1 ha
      obtain ⟨rfl, rfl⟩ := List.cons_eq_cons.1 hb
      split_ifs with hsemicolon hblank
      · refine sizeLineFrom_rest_iff.2 ⟨comment, ?_, rfl, length_cons_line ..⟩
        rcases isComment_cons_iff.1 hcomment with ⟨-, hnot⟩ | ⟨hblank, -⟩
        · exact hnot
        · rw [hsemicolon] at hblank
          exact absurd hblank (by decide)
      · refine ih.2 ⟨comment, ?_, rfl, length_cons_line ..⟩
        exact ((isComment_cons_iff.1 hcomment).resolve_left fun h => hsemicolon h.1).2
      · rcases isComment_cons_iff.1 hcomment with ⟨h, -⟩ | ⟨h, -⟩
        · exact absurd h hsemicolon
        · exact absurd h hblank

theorem hexValue?_of_isComment {b : UInt8} {comment : Bytes} (h : IsComment (b :: comment)) :
    hexValue? b = none := by
  rcases isComment_cons_iff.1 h with ⟨rfl, -⟩ | ⟨hb, -⟩
  · decide
  · exact hexValue?_of_isBlank hb

theorem sizeLineFrom_digits_iff {b : Bytes} :
    sizeLineFrom (.digits count) size length b = some (line, rest) ↔
      ∃ digits comment, count + digits.length ≤ max count maxDigits ∧
        (∀ d ∈ digits, (hexValue? d).isSome = true) ∧ IsComment comment ∧
        b = digits ++ comment ++ lineEnd ++ rest ∧
        line = ⟨hexNumber size digits, length + digits.length + comment.length + 2⟩ := by
  induction b generalizing count size length with
  | nil => simp [sizeLineFrom, lineEnd]
  | cons a more ih =>
    rcases ha : hexValue? a with _ | value
    · rw [sizeLineFrom_digits_of_none ha, sizeLineFrom_blanks_iff]
      constructor
      · rintro ⟨comment, hcomment, hb, rfl⟩
        exact ⟨[], comment, Nat.le_max_left .., by simp, hcomment, hb, rfl⟩
      · rintro ⟨digits, comment, -, hdigits, hcomment, hb, rfl⟩
        rcases digits with _ | ⟨d, digits⟩
        · exact ⟨comment, hcomment, hb, rfl⟩
        · obtain ⟨rfl, -⟩ := List.cons_eq_cons.1 hb
          have := (List.forall_mem_cons.1 hdigits).1
          simp [ha] at this
    · rw [sizeLineFrom_digits_of_some ha]
      constructor
      · intro h
        split_ifs at h with hcount
        obtain ⟨digits, comment, hle, hdigits, hcomment, rfl, rfl⟩ := ih.1 h
        refine ⟨a :: digits, comment, ?_, ?_, hcomment, rfl, ?_⟩
        · rw [List.length_cons]
          omega
        · exact List.forall_mem_cons.2 ⟨by simp [ha], hdigits⟩
        · simp only [SizeLine.mk.injEq, List.length_cons]
          refine ⟨by simp [hexNumber, ha], by omega⟩
      · rintro ⟨digits, comment, hle, hdigits, hcomment, hb, rfl⟩
        rcases digits with _ | ⟨d, digits⟩
        · rcases comment with _ | ⟨x, comment⟩
          · obtain ⟨rfl, -⟩ := List.cons_eq_cons.1 hb
            cases ha
          · obtain ⟨rfl, -⟩ := List.cons_eq_cons.1 hb
            rw [hexValue?_of_isComment hcomment] at ha
            cases ha
        · obtain ⟨rfl, rfl⟩ := List.cons_eq_cons.1 hb
          rw [List.length_cons] at hle
          rw [if_pos (by omega)]
          refine ih.2 ⟨digits, comment, by omega, (List.forall_mem_cons.1 hdigits).2, hcomment,
            rfl, ?_⟩
          simp only [SizeLine.mk.injEq, List.length_cons]
          refine ⟨by simp [hexNumber, ha], by omega⟩

theorem sizeLine?_iff {b : Bytes} : sizeLine? b = some (line, rest) ↔
    ∃ digits comment, digits.length ≤ maxDigits ∧ (∀ d ∈ digits, (hexValue? d).isSome = true) ∧
      IsComment comment ∧ b = digits ++ comment ++ lineEnd ++ rest ∧
      line = ⟨hexNumber 0 digits, (digits ++ comment ++ lineEnd).length⟩ := by
  rw [sizeLine?, sizeLineFrom_digits_iff]
  refine exists₂_congr fun digits comment => ?_
  have hlength : (digits ++ comment ++ lineEnd).length = digits.length + comment.length + 2 := by
    simp [lineEnd, Nat.add_assoc]
  rw [Nat.zero_add, Nat.zero_max, hlength]

/-- A size line is digits, a comment and its end. -/
theorem states_iff {front : Bytes} : States front size ↔
    ∃ digits comment, digits.length ≤ maxDigits ∧ (∀ d ∈ digits, (hexValue? d).isSome = true) ∧
      IsComment comment ∧ front = digits ++ comment ++ lineEnd ∧ size = hexNumber 0 digits := by
  rw [States, sizeLine?_iff]
  refine exists₂_congr fun digits comment => ?_
  rw [List.append_nil, SizeLine.mk.injEq]
  constructor
  · rintro ⟨hle, hdigits, hcomment, hfront, hsize, -⟩
    exact ⟨hle, hdigits, hcomment, hfront, hsize⟩
  · rintro ⟨hle, hdigits, hcomment, hfront, hsize⟩
    exact ⟨hle, hdigits, hcomment, hfront, hsize, by rw [hfront]⟩

theorem sizeLine?_iff_states {b : Bytes} : sizeLine? b = some (line, rest) ↔
    ∃ front, States front line.size ∧ b = front ++ rest ∧ line.length = front.length := by
  rw [sizeLine?_iff]
  constructor
  · rintro ⟨digits, comment, hle, hdigits, hcomment, rfl, rfl⟩
    exact ⟨_, states_iff.2 ⟨digits, comment, hle, hdigits, hcomment, rfl, rfl⟩, rfl, rfl⟩
  · rintro ⟨front, hstates, rfl, hlength⟩
    obtain ⟨digits, comment, hle, hdigits, hcomment, rfl, hsize⟩ := states_iff.1 hstates
    refine ⟨digits, comment, hle, hdigits, hcomment, rfl, ?_⟩
    rw [← hsize, ← hlength]

end SizeLines

/-! ### Sizes have 64 bits -/

theorem hexValue?_lt {d : UInt8} {value : Nat} (h : hexValue? d = some value) : value < 16 := by
  unfold hexValue? isDigit at h
  simp only [Bool.and_eq_true, decide_eq_true_eq, UInt8.le_iff_toNat_le] at h
  have := d.toNat_lt
  split_ifs at h with hdigit hsmall hcapital
  · obtain rfl := Option.some.inj h
    have := hdigit.2
    change d.toNat ≤ 0x39 at this
    omega
  · obtain rfl := Option.some.inj h
    have := hsmall.2
    change d.toNat ≤ 0x66 at this
    omega
  · obtain rfl := Option.some.inj h
    have := hcapital.2
    change d.toNat ≤ 0x46 at this
    omega

theorem hexNumber_lt : ∀ (digits : Bytes) (front : Nat),
    (∀ d ∈ digits, (hexValue? d).isSome = true) →
      hexNumber front digits < (front + 1) * Nat.pow 16 digits.length
  | [], front, _ => by simp [hexNumber]
  | d :: digits, front, h => by
    obtain ⟨hd, hdigits⟩ := List.forall_mem_cons.1 h
    obtain ⟨value, hvalue⟩ := Option.isSome_iff_exists.1 hd
    have hlt := hexValue?_lt hvalue
    have hmore := hexNumber_lt digits (front * 16 + value) hdigits
    rw [hexNumber, List.foldl_cons, hvalue, Option.getD_some]
    refine Nat.lt_of_lt_of_le hmore ?_
    have hpow : Nat.pow 16 (d :: digits).length = 16 * Nat.pow 16 digits.length :=
      Nat.mul_comm ..
    rw [hpow, ← Nat.mul_assoc]
    exact Nat.mul_le_mul_right _ (by omega)

/-- One more than the greatest number of 64 bits. -/
def wordLimit : Nat := 0x10000000000000000

/-- The size that a line states has 64 bits. -/
theorem States.lt {line : Bytes} {size : Nat} (h : States line size) : size < wordLimit := by
  obtain ⟨digits, comment, hle, hdigits, -, -, rfl⟩ := states_iff.1 h
  refine Nat.lt_of_lt_of_le (hexNumber_lt digits 0 hdigits) ?_
  rw [Nat.zero_add, Nat.one_mul]
  exact Nat.pow_le_pow_right (by decide) hle

end Trawl.Content.Http.Chunked
