import Mathlib.Data.List.Infix
import Trawl.Proofs.Content.Continued
import Trawl.Proofs.Content.SizeLine

/-!
# The grammar of chunked bodies

A chunked body (`Chunked.Body`) is a sequence of chunks, each behind the line that states its size
and followed by the end of a line, then a line that states the size zero and a trailer: lines that
are not empty, and an empty one (`Chunked.Trailer`). Where a body is found at the front of some
bytes, it is the only beginning of them which has this form, and none is found where there is no
such beginning (`Chunked.length?_eq_some_iff`). It is found with every way to add up offsets that is
right up to the end of the bytes (`Chunked.bodyEndBy_eq`), so offsets of 64 bits will do
(`Chunked.length64?_eq`).
`Chunked.body_measured_exactly` says all of it together.
-/

namespace Trawl.Content.Http.Chunked

/-- Lines that are not empty, each up to its first end, and an empty one. -/
inductive Trailer : Bytes → Prop
  | empty : Trailer lineEnd
  | line {text rest : Bytes} (hne : text ≠ []) (hfirst : ¬ lineEnd <:+: text)
      (more : Trailer rest) : Trailer (text ++ lineEnd ++ rest)

/-- Chunks that are not empty, a line that states zero, and a trailer. -/
inductive Body : Bytes → Prop
  | last {line trailer : Bytes} (hsize : States line 0) (htrailer : Trailer trailer) :
      Body (line ++ trailer)
  | chunk {line data rest : Bytes} (hne : data ≠ []) (hsize : States line data.length)
      (more : Body rest) : Body (line ++ data ++ lineEnd ++ rest)

/-! ### Lines -/

/-- The line at the front up to its first end, and what follows that. -/
def splitLine? : Bytes → Option (Bytes × Bytes)
  | [] => none
  | [_] => none
  | a :: b :: rest =>
    if a = carriageReturn ∧ b = lineFeed then some ([], rest)
    else (splitLine? (b :: rest)).map fun (text, rest) => (a :: text, rest)

section Lines

variable {a : UInt8} {b text rest : Bytes}

theorem splitLine?_eq_some (h : splitLine? b = some (text, rest)) :
    b = text ++ lineEnd ++ rest ∧ ¬ lineEnd <:+: text := by
  fun_induction splitLine? b generalizing text with
  | case1 => cases h
  | case2 => cases h
  | case3 a b rest' hend =>
    cases h
    obtain ⟨rfl, rfl⟩ := hend
    exact ⟨rfl, by simp [lineEnd]⟩
  | case4 a b rest' hend ih =>
    obtain ⟨⟨text, rest''⟩, hmore, heq⟩ := Option.map_eq_some_iff.1 h
    cases heq
    obtain ⟨hb, hfirst⟩ := ih hmore
    refine ⟨by rw [hb]; rfl, fun hinfix => ?_⟩
    -- an end that is not in the line behind `a` starts with it, and is the one that is not here
    rcases List.infix_cons_iff.1 hinfix with ⟨behind, hprefix⟩ | hinfix
    · obtain ⟨rfl, rfl⟩ := List.cons_eq_cons.1 hprefix
      exact hend ⟨rfl, (List.cons_eq_cons.1 hb).1⟩
    · exact hfirst hinfix

theorem splitLine?_of_not_infix (hfirst : ¬ lineEnd <:+: text) (rest : Bytes) :
    splitLine? (text ++ lineEnd ++ rest) = some (text, rest) := by
  induction text with
  | nil => rfl
  | cons a text ih =>
    have hmore := ih fun h => hfirst (List.infix_cons h)
    have hstep : ∀ b line, text ++ lineEnd ++ rest = b :: line →
        ¬ (a = carriageReturn ∧ b = lineFeed) := by
      rintro b line hline ⟨rfl, rfl⟩
      rcases text with _ | ⟨x, text⟩
      · cases hline
      · obtain ⟨rfl, -⟩ := List.cons_eq_cons.1 hline
        exact hfirst ⟨[], text, rfl⟩
    rcases hline : text ++ lineEnd ++ rest with _ | ⟨b, line⟩
    · rw [hline] at hmore
      cases hmore
    · rw [List.cons_append, List.cons_append, hline, splitLine?, if_neg (hstep b line hline),
        ← hline, hmore]
      rfl

theorem length_splitLine? (h : splitLine? b = some (text, rest)) :
    b.length = text.length + 2 + rest.length := by
  rw [(splitLine?_eq_some h).1]
  simp [lineEnd]
  omega

end Lines

/-! ### Trailers -/

section Trailers

variable {fresh : Bool} {position n : Nat} {b : Bytes}

/-- A trailer goes on behind the line at its front, and ends there if that one is empty. -/
theorem trailerEnd?_eq_splitLine? :
    trailerEnd? fresh position b = (splitLine? b).bind fun (text, rest) =>
      if fresh ∧ text = [] then some (position + 2)
      else trailerEnd? true (position + text.length + 2) rest := by
  fun_induction trailerEnd? fresh position b with
  | case1 => rfl
  | case2 => rfl
  | case3 position a b rest hend =>
    rw [splitLine?, if_pos hend]
    simp
  | case4 _ position a b rest hend hfresh _ =>
    rw [splitLine?, if_pos hend]
    simp [hfresh]
  | case5 _ position a b rest hend ih =>
    rw [ih, splitLine?, if_neg hend]
    rcases splitLine? (b :: rest) with _ | ⟨text, rest⟩
    · rfl
    · simp [Nat.add_assoc, Nat.add_comm 1]

theorem Trailer.trailerEnd?_eq {t : Bytes} (h : Trailer t) (position : Nat) :
    trailerEnd? true position t = some (position + t.length) := by
  induction h generalizing position with
  | empty => rfl
  | line hne hfirst _ ih =>
    rw [trailerEnd?_eq_splitLine?, splitLine?_of_not_infix hfirst]
    simp only [Option.bind_some, hne, and_false, if_false]
    rw [ih]
    simp [lineEnd]
    omega

theorem exists_trailer (h : trailerEnd? true position b = some n) :
    ∃ t rest, Trailer t ∧ b = t ++ rest ∧ n = position + t.length := by
  induction hlength : b.length using Nat.strongRecOn generalizing position b with
  | ind length ih =>
    rw [trailerEnd?_eq_splitLine?] at h
    obtain ⟨⟨text, rest⟩, hline, hn⟩ := Option.bind_eq_some_iff.1 h
    obtain ⟨hb, hfirst⟩ := splitLine?_eq_some hline
    dsimp only at hn
    by_cases hempty : text = []
    · rw [if_pos ⟨rfl, hempty⟩] at hn
      cases hn
      exact ⟨lineEnd, rest, .empty, by rw [hb, hempty]; rfl, rfl⟩
    · rw [if_neg fun h => hempty h.2] at hn
      have hlt := length_splitLine? hline
      obtain ⟨t, rest', ht, rfl, rfl⟩ := ih rest.length (by omega) hn rfl
      refine ⟨_, rest', .line hempty hfirst ht, by rw [hb, List.append_assoc _ t], ?_⟩
      simp [lineEnd]
      omega

end Trailers

/-! ### Bodies -/

section Bodies

variable {size position n : Nat} {b rest : Bytes}

theorem afterChunk?_eq_some_iff : afterChunk? size b = some rest ↔
    ∃ data, data.length = size ∧ b = data ++ lineEnd ++ rest := by
  constructor
  · intro h
    unfold afterChunk? at h
    split at h
    · rename_i data a b' rest' hs
      split at h <;> rename_i hend
      · cases h
        obtain ⟨hb, hlength⟩ := Bytes.split?_eq_some hs
        refine ⟨data, hlength, ?_⟩
        rw [hb, hend.1, hend.2, List.append_assoc]
        rfl
      · cases h
    · cases h
  · rintro ⟨data, rfl, rfl⟩
    have hs : Bytes.split? data.length (data ++ lineEnd ++ rest) =
        some (data, lineEnd ++ rest) := by
      rw [List.append_assoc]
      exact Bytes.split?_left rfl _
    rw [afterChunk?, hs]
    rfl

theorem length_afterChunk? (h : afterChunk? size b = some rest) :
    b.length = size + 2 + rest.length := by
  obtain ⟨data, rfl, rfl⟩ := afterChunk?_eq_some_iff.1 h
  simp [lineEnd]
  omega

theorem length_sizeLine? {line : SizeLine} (h : sizeLine? b = some (line, rest)) :
    b.length = line.length + rest.length := by
  obtain ⟨front, -, rfl, hlength⟩ := sizeLine?_iff_states.1 h
  rw [List.length_append, hlength]

theorem Body.bodyEnd?_eq {t : Bytes} (h : Body t) (position : Nat) :
    bodyEnd? position t = some (position + t.length) := by
  induction h generalizing position with
  | @last line trailer hsize htrailer =>
    have hline : sizeLine? (line ++ trailer) = some (⟨0, line.length⟩, trailer) :=
      sizeLine?_iff_states.2 ⟨line, hsize, rfl, rfl⟩
    rw [bodyEnd?_of_sizeLine hline, if_pos rfl, htrailer.trailerEnd?_eq]
    simp [Nat.add_assoc]
  | @chunk line data rest hne hsize _ ih =>
    have hline : sizeLine? (line ++ data ++ lineEnd ++ rest) =
        some (⟨data.length, line.length⟩, data ++ lineEnd ++ rest) :=
      sizeLine?_iff_states.2 ⟨line, hsize, by simp, rfl⟩
    have hafter : afterChunk? data.length (data ++ lineEnd ++ rest) = some rest :=
      afterChunk?_eq_some_iff.2 ⟨data, rfl, rfl⟩
    rw [bodyEnd?_of_sizeLine hline, if_neg (by simpa using hne), hafter, Option.bind_some, ih]
    simp [lineEnd]
    omega

theorem exists_body (h : bodyEnd? position b = some n) :
    ∃ t rest, Body t ∧ b = t ++ rest ∧ n = position + t.length := by
  fun_induction bodyEnd? position b with
  | case1 => cases h
  | case2 position b line rest hl hzero =>
    obtain ⟨front, hstates, rfl, hlength⟩ := sizeLine?_iff_states.1 hl
    obtain ⟨t, rest', ht, rfl, rfl⟩ := exists_trailer h
    rw [hzero] at hstates
    exact ⟨front ++ t, rest', .last hstates ht, by simp, by simp [hlength]; omega⟩
  | case3 => cases h
  | case4 position b line rest hl hzero rest' hc ih =>
    obtain ⟨front, hstates, rfl, hlength⟩ := sizeLine?_iff_states.1 hl
    obtain ⟨data, hsize, rfl⟩ := afterChunk?_eq_some_iff.1 hc
    obtain ⟨t, rest'', ht, rfl, rfl⟩ := ih h
    rw [← hsize] at hstates hzero
    refine ⟨_, rest'', .chunk (by simpa using hzero) hstates ht, by simp, ?_⟩
    simp [lineEnd, hlength]
    omega

/-- The length of a chunked body is that of the beginning which is one. -/
theorem length?_eq_some_iff : length? b = some n ↔ n ≤ b.length ∧ Body (b.take n) := by
  constructor
  · intro h
    obtain ⟨t, rest, ht, rfl, rfl⟩ := exists_body h
    rw [Nat.zero_add, List.take_left]
    exact ⟨by simp, ht⟩
  · rintro ⟨hle, hbody⟩
    have h := bodyEnd?_append (b.drop n) (hbody.bodyEnd?_eq 0)
    rwa [List.take_append_drop, List.length_take_of_le hle, Nat.zero_add] at h

theorem splitBody_chunked_of_length? (h : length? b = some n) :
    Message.splitBody .chunked b = .ok (b.take n, b.drop n) := by
  have hs : b.split? n = some (b.take n, b.drop n) := by
    rw [Bytes.split?, if_pos (List.length_take_of_le (length?_eq_some_iff.1 h).1)]
  rw [Message.splitBody, h, Option.bind_some, hs]

theorem splitBody_chunked_of_none (h : length? b = none) :
    Message.splitBody .chunked b = .error .malformedChunks := by
  rw [Message.splitBody, h, Option.bind_none]

end Bodies

/-! ### Offsets of 64 bits -/

/-- A sum that has 64 bits. -/
def sum? (m n : Nat) : Option Nat :=
  if m + n < wordLimit then some (m + n) else none

section Offsets

variable (add : Nat → Nat → Option Nat)

/-- `trailerEnd?`, line by line and with offsets that are added up in some way; `none` where that
gives nothing. -/
def trailerEndBy (position : Nat) (b : Bytes) : Option (Option Nat) :=
  match _hline : splitLine? b with
  | none => some none
  | some (text, rest) =>
    (add text.length 2).bind fun length => (add position length).bind fun position =>
      if text = [] then some (some position) else trailerEndBy position rest
termination_by b.length
decreasing_by
  have := length_splitLine? _hline
  omega

/-- `bodyEnd?` with offsets that are added up in some way; `none` where that gives nothing. Behind the
size of a chunk, that is a fault of the body instead. -/
def bodyEndBy (position : Nat) (b : Bytes) : Option (Option Nat) :=
  match _hl : sizeLine? b with
  | none => some none
  | some (line, rest) =>
    (add position line.length).bind fun position =>
      if line.size = 0 then trailerEndBy add position rest
      else
        match (add position line.size).bind (add · 2) with
        | none => some none
        | some position =>
          match _hc : afterChunk? line.size rest with
          | none => some none
          | some rest => bodyEndBy position rest
termination_by b.length
decreasing_by exact Nat.lt_of_le_of_lt (length_afterChunk?_le _hc) (length_sizeLineFrom _hl)

/-- `length?` with offsets of 64 bits. -/
def length64? (b : Bytes) : Option (Option Nat) :=
  bodyEndBy sum? 0 b

/-- Whether a way to add up offsets is right up to a limit. -/
def AddsUpTo (limit : Nat) : Prop :=
  ∀ m n, m + n ≤ limit → add m n = some (m + n)

variable {add} {limit position : Nat} {b : Bytes}

theorem addsUpTo_sum? (h : limit < wordLimit) : AddsUpTo sum? limit :=
  fun _ _ hle => if_pos (Nat.lt_of_le_of_lt hle h)

theorem trailerEndBy_eq (hadd : AddsUpTo add limit) (h : position + b.length ≤ limit) :
    trailerEndBy add position b = some (trailerEnd? true position b) := by
  induction hlength : b.length using Nat.strongRecOn generalizing position b with
  | ind length ih =>
    rw [trailerEndBy, trailerEnd?_eq_splitLine?]
    split <;> rename_i hline
    · rw [hline]
      rfl
    · rename_i text rest
      have hb := length_splitLine? hline
      rw [hline, hadd _ _ (by omega), Option.bind_some, hadd _ _ (by omega), Option.bind_some,
        Option.bind_some]
      by_cases hempty : text = []
      · simp [hempty]
      · simp only [hempty, and_false, if_false]
        rw [ih rest.length (by omega) (by omega) rfl, Nat.add_assoc]

/-- Whatever becomes of offsets past the end of the bytes, the end of a body is found. -/
theorem bodyEndBy_eq (hadd : AddsUpTo add limit) (h : position + b.length ≤ limit) :
    bodyEndBy add position b = some (bodyEnd? position b) := by
  induction hlength : b.length using Nat.strongRecOn generalizing position b with
  | ind length ih =>
    rw [bodyEndBy]
    split <;> rename_i hl
    · rw [bodyEnd?]
      split <;> rename_i hl'
      · rfl
      · rw [hl] at hl'
        cases hl'
    · rename_i line rest
      have hline := length_sizeLine? hl
      rw [bodyEnd?_of_sizeLine hl, hadd _ _ (by omega), Option.bind_some]
      split_ifs with hzero
      · exact trailerEndBy_eq hadd (by omega)
      · rcases hc : afterChunk? line.size rest with _ | rest'
        -- A chunk that is not there is a fault, whatever its end would be.
        · rcases (add (position + line.length) line.size).bind (add · 2) with _ | after <;> rfl
        · have hchunk := length_afterChunk? hc
          rw [hadd _ _ (by omega), Option.bind_some, hadd _ _ (by omega)]
          exact ih rest'.length (by omega) (by omega) rfl

theorem length64?_eq (h : b.length < wordLimit) : length64? b = some (length? b) :=
  bodyEndBy_eq (addsUpTo_sum? h) (Nat.le_of_eq (Nat.zero_add _))

end Offsets

/-! ### Measuring a body -/

/-- A chunked body is measured exactly: the length that is found is that of the beginning which is
a body, and it is a fault if there is none. Neither what follows the body counts, nor do offsets
have more than 64 bits, whatever size a line states. -/
theorem body_measured_exactly (b : Bytes) :
    (∀ n, length? b = some n ↔ n ≤ b.length ∧ Body (b.take n)) ∧
      (∀ n, n ≤ b.length ∧ Body (b.take n) →
        Message.splitBody .chunked b = .ok (b.take n, b.drop n)) ∧
      ((∀ n, ¬ (n ≤ b.length ∧ Body (b.take n))) →
        Message.splitBody .chunked b = .error .malformedChunks) ∧
      (∀ n other, length? b = some n → length? (b.take n ++ other) = some n) ∧
      (∀ line size, States line size → size < wordLimit) ∧
      (b.length < wordLimit → length64? b = some (length? b)) := by
  refine ⟨fun n => length?_eq_some_iff, fun n h => ?found, fun h => ?fault, fun n other h => ?more,
    fun _ _ h => h.lt, length64?_eq⟩
  case found => exact splitBody_chunked_of_length? (length?_eq_some_iff.2 h)
  case fault =>
    refine splitBody_chunked_of_none (Option.eq_none_iff_forall_ne_some.2 fun n hn => h n ?_)
    exact length?_eq_some_iff.1 hn
  case more =>
    obtain ⟨hle, hbody⟩ := length?_eq_some_iff.1 h
    have hlength : (b.take n).length = n := List.length_take_of_le hle
    have hown := bodyEnd?_append other (hbody.bodyEnd?_eq 0)
    rwa [Nat.zero_add, hlength] at hown

/-- A chunk of five bytes, a trailer of one line and another message; and no body at all. -/
theorem body_measured_hello :
    let b := Bytes.ofText "5;x\r\nhello\r\n0\r\nA: b\r\n\r\nGET"
    Body (b.take 23) ∧ Message.splitBody .chunked b = .ok (b.take 23, b.drop 23) ∧
      Message.splitBody .chunked [0x47] = .error .malformedChunks ∧
      length? (b.take 23 ++ [0x47]) = some 23 ∧ 5 < wordLimit ∧
      length64? b = some (some 23) := by
  intro b
  obtain ⟨hiff, hsplit, -, hmore, hsize, h64⟩ := body_measured_exactly b
  have hlength : length? b = some 23 := by decide +kernel
  have hbody := (hiff 23).1 hlength
  have hnone : ∀ n, ¬ (n ≤ [(0x47 : UInt8)].length ∧ Body ([(0x47 : UInt8)].take n)) := by
    intro n h
    have hn := ((body_measured_exactly [0x47]).1 n).2 h
    rw [show length? [0x47] = none by decide +kernel] at hn
    cases hn
  have hline : States (.ofText "5;x\r\n") 5 := by
    unfold States
    decide +kernel
  refine ⟨hbody.2, hsplit 23 hbody, (body_measured_exactly [0x47]).2.2.1 hnone, hmore 23 _ hlength,
    hsize _ 5 hline, ?_⟩
  rw [← hlength]
  exact h64 (by decide +kernel)

end Trawl.Content.Http.Chunked
