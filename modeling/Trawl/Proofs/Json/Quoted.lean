import Trawl.Json.Printer
import Trawl.Proofs.Bytes
import Trawl.Proofs.Json.Value

/-!
# Quoted strings and numbers are read back

A string is read byte by byte, in pieces: a character that is written as it is gives a piece for
each of its octets, an escaped one a piece of its own (`exists_pieces_escape`). What the pieces come
to is the string, and the digits of a number come to that number.
-/

namespace Trawl.Json

namespace Reader

/-! ### Characters -/

/-- What the front of a string adds to the pieces before it, the last one first. -/
def pieceStep (done : List Bytes) : Reader (List Bytes ⊕ List Bytes) := do
  let b ← next
  if b = 0x22 then return .inr done
  else if b = 0x5C then return .inl ((← escape numbered) :: done)
  else if b < 0x20 then throw .malformed
  else return .inl ([b] :: done)

/-- A byte that stands for itself in a string. -/
def IsPlain (b : UInt8) : Prop :=
  b ≠ 0x22 ∧ b ≠ 0x5C ∧ 0x20 ≤ b

section

variable {done pieces : List Bytes} {b rest : Bytes}

theorem runs_plain : ∀ {p : Bytes}, (∀ x ∈ p, IsPlain x) → ∀ {done : List Bytes},
    Runs pieceStep ((p.map fun x => [x]).reverse ++ done) b pieces rest →
    Runs pieceStep done (p ++ b) pieces rest
  | [], _, _, h => h
  | x :: p, hp, done, h => by
    obtain ⟨hquote, hbackslash, hlow⟩ := hp x List.mem_cons_self
    have hstep : Takes (pieceStep done) (x :: (p ++ b)) (.inl ([x] :: done)) (p ++ b) := by
      refine takes_next.bind ?_
      rw [if_neg hquote, if_neg hbackslash, if_neg (UInt8.not_lt.mpr hlow)]
      exact takes_pure _ _
    refine .next hstep (by simp) (runs_plain (fun y hy => hp y (List.mem_cons_of_mem x hy)) ?_)
    simpa using h

theorem runs_escaped {tail piece : Bytes} (h : Takes (escape numbered) tail piece b)
    (hlength : b.length ≤ tail.length) (hrun : Runs pieceStep (piece :: done) b pieces rest) :
    Runs pieceStep done (0x5C :: tail) pieces rest := by
  have hstep : Takes (pieceStep done) (0x5C :: tail) (.inl (piece :: done)) b :=
    takes_next.bind (h.bind (takes_pure _ _))
  exact .next hstep (by simpa using Nat.lt_succ_of_le hlength) hrun

theorem runs_quote : Runs pieceStep done (0x22 :: rest) done rest :=
  .done (takes_next.bind (takes_pure _ _))

end

theorem isPlain_of_mem_encodeChar {c : Char} (hquote : c ≠ '"') (hbackslash : c ≠ '\\')
    (hlow : 0x20 ≤ c.toNat) : ∀ b ∈ String.utf8EncodeChar c, IsPlain b := by
  intro b hb
  by_cases hascii : c.toNat < 0x80
  · rw [Bytes.encodeChar_of_ascii hascii, List.mem_singleton] at hb
    subst hb
    have hvalue : (UInt8.ofNat c.toNat).toNat = c.toNat := by
      rw [UInt8.toNat_ofNat']
      omega
    refine ⟨fun h => hquote ?_, fun h => hbackslash ?_, ?_⟩
    · exact Char.toNat_inj.mp (by rw [← hvalue, h]; rfl)
    · exact Char.toNat_inj.mp (by rw [← hvalue, h]; rfl)
    · rw [UInt8.le_iff_toNat_le, hvalue]
      exact hlow
  · have hhigh := Bytes.le_of_mem_encodeChar (Nat.le_of_not_lt hascii) b hb
    rw [UInt8.le_iff_toNat_le] at hhigh
    refine ⟨?_, ?_, ?_⟩
    · rintro rfl
      simp at hhigh
    · rintro rfl
      simp at hhigh
    · rw [UInt8.le_iff_toNat_le]
      exact Nat.le_trans (by decide) hhigh

theorem hexValue?_digitChar : ∀ n < 16,
    hexValue? (UInt8.ofNat (Nat.digitChar n).toNat) = some n := by
  decide

theorem ascii_digitChar : ∀ n < 16, (Nat.digitChar n).toNat < 0x80 := by
  decide

theorem takes_hex4 {p : Bytes} {values : List Nat} (hp : p.length = 4)
    (hvalues : p.mapM hexValue? = some values) (b : Bytes) :
    Takes hex4 (p ++ b) (values.foldl (fun n value => n * 16 + value) 0) b := by
  refine takes_get.bind ?_
  simp only [Bytes.split?_left hp, hvalues]
  rfl

/-- A character below U+0020 is the one whose number is in the last two of four digits, and its
number is not that of half a pair. -/
theorem takes_numbered {c : Char} (h : c.toNat < 0x20) (b : Bytes) :
    Takes numbered (0x30 :: 0x30 ::
        (Bytes.ofChars [hexDigit (c.toNat / 16), hexDigit c.toNat] ++ b))
      (String.utf8EncodeChar c) b := by
  have hhigh : c.toNat / 16 % 16 < 16 := Nat.mod_lt _ (by decide)
  have hlow : c.toNat % 16 < 16 := Nat.mod_lt _ (by decide)
  have hfour : 0x30 :: 0x30 :: Bytes.ofChars [hexDigit (c.toNat / 16), hexDigit c.toNat] =
      [0, 0, c.toNat / 16 % 16, c.toNat % 16].map fun n => UInt8.ofNat (Nat.digitChar n).toNat := by
    rw [Bytes.ofChars_of_ascii]
    · rfl
    · simp only [hexDigit, List.mem_cons, List.not_mem_nil, or_false, forall_eq_or_imp, forall_eq]
      exact ⟨ascii_digitChar _ hhigh, ascii_digitChar _ hlow⟩
  have hvalues : (0x30 :: 0x30 :: Bytes.ofChars [hexDigit (c.toNat / 16), hexDigit c.toNat]).mapM
      hexValue? = some [0, 0, c.toNat / 16 % 16, c.toNat % 16] := by
    rw [hfour]
    simp [hexValue?_digitChar _ hhigh, hexValue?_digitChar _ hlow,
      hexValue?_digitChar 0 (by decide)]
  have hread := takes_hex4 (by rw [hfour]; rfl) hvalues b
  have hnumber : [0, 0, c.toNat / 16 % 16, c.toNat % 16].foldl (fun n value => n * 16 + value) 0 =
      c.toNat := by
    simp only [List.foldl_cons, List.foldl_nil]
    omega
  rw [hnumber] at hread
  have hleading : Text.Utf16.isLeading c.toNat = false := by
    simp [Text.Utf16.isLeading]
    omega
  have htrailing : Text.Utf16.isTrailing c.toNat = false := by
    simp [Text.Utf16.isTrailing]
    omega
  have hform : utf8 c.toNat = String.utf8EncodeChar c := by
    rw [utf8, Char.ofNat_toNat, Bytes.ofText_eq_ofChars]
    simp
  refine hread.bind ?_
  rw [hleading, htrailing, hform]
  exact takes_pure _ _

/-- An escaped character is a backslash and something that the reader of escapes takes for it. -/
theorem exists_tail_escape {c : Char} (h : c = '"' ∨ c = '\\' ∨ c.toNat < 0x20) :
    ∃ tail, Bytes.ofChars (Json.escape c) = 0x5C :: tail ∧
      ∀ b, Takes (escape numbered) (tail ++ b) (String.utf8EncodeChar c) b := by
  have hletter {n : Nat} {d : Char} (hn : c.toNat = n) (hd : d.toNat = n) : c = d :=
    Char.toNat_inj.mp (hn.trans hd.symm)
  by_cases hquote : c = '"'
  · subst hquote
    exact ⟨[0x22], rfl, fun b => rfl⟩
  by_cases hbackslash : c = '\\'
  · subst hbackslash
    exact ⟨[0x5C], rfl, fun b => rfl⟩
  have hlow : c.toNat < 0x20 := by simpa [hquote, hbackslash] using h
  simp only [Json.escape, if_neg hquote, if_neg hbackslash, if_neg (Nat.not_le_of_lt hlow)]
  split
  case isTrue hb =>
    obtain rfl : c = '\x08' := hletter hb rfl
    exact ⟨[0x62], rfl, fun b => rfl⟩
  split
  case isTrue ht =>
    obtain rfl : c = '\t' := hletter ht rfl
    exact ⟨[0x74], rfl, fun b => rfl⟩
  split
  case isTrue hn =>
    obtain rfl : c = '\n' := hletter hn rfl
    exact ⟨[0x6E], rfl, fun b => rfl⟩
  split
  case isTrue hf =>
    obtain rfl : c = '\x0c' := hletter hf rfl
    exact ⟨[0x66], rfl, fun b => rfl⟩
  split
  case isTrue hr =>
    obtain rfl : c = '\r' := hletter hr rfl
    exact ⟨[0x72], rfl, fun b => rfl⟩
  exact ⟨0x75 :: 0x30 :: 0x30 :: Bytes.ofChars [hexDigit (c.toNat / 16), hexDigit c.toNat], rfl,
    fun b => takes_next.bind (takes_numbered hlow b)⟩

/-- A character of a string is read in pieces that come to its octets. -/
theorem exists_pieces_escape (c : Char) (done : List Bytes) (b : Bytes) :
    ∃ done' : List Bytes, done'.reverse.flatten = done.reverse.flatten ++ String.utf8EncodeChar c ∧
      ∀ {pieces : List Bytes} {rest : Bytes}, Runs pieceStep done' b pieces rest →
        Runs pieceStep done (Bytes.ofChars (Json.escape c) ++ b) pieces rest := by
  by_cases h : c = '"' ∨ c = '\\' ∨ c.toNat < 0x20
  · obtain ⟨tail, htail, htakes⟩ := exists_tail_escape h
    refine ⟨String.utf8EncodeChar c :: done, by simp, fun hrun => ?_⟩
    rw [htail, List.cons_append]
    exact runs_escaped (htakes b) (by simp) hrun
  · simp only [not_or, Nat.not_lt] at h
    obtain ⟨hquote, hbackslash, hlow⟩ := h
    have hescape : Json.escape c = [c] := by
      simp [Json.escape, hquote, hbackslash, hlow]
    refine ⟨((String.utf8EncodeChar c).map fun x => [x]).reverse ++ done, ?_, fun hrun => ?_⟩
    · have hflat :
          ((String.utf8EncodeChar c).map fun x => [x]).flatten = String.utf8EncodeChar c := by
        simp [← List.flatMap_def]
      simp [hflat]
    · rw [hescape, Bytes.ofChars_cons, Bytes.ofChars_nil, List.append_nil]
      exact runs_plain (isPlain_of_mem_encodeChar hquote hbackslash hlow) hrun

theorem exists_pieces : ∀ (cs : List Char) (done : List Bytes) (rest : Bytes),
    ∃ pieces : List Bytes, pieces.reverse.flatten = done.reverse.flatten ++ Bytes.ofChars cs ∧
      Runs pieceStep done (Bytes.ofChars (cs.flatMap Json.escape) ++ 0x22 :: rest) pieces rest
  | [], done, rest => ⟨done, by simp, runs_quote⟩
  | c :: cs, done, rest => by
    obtain ⟨done', hflat', hrun'⟩ := exists_pieces_escape c done
      (Bytes.ofChars (cs.flatMap Json.escape) ++ 0x22 :: rest)
    obtain ⟨pieces, hflat, hrun⟩ := exists_pieces cs done' rest
    refine ⟨pieces, ?_, ?_⟩
    · rw [hflat, hflat', Bytes.ofChars_cons, List.append_assoc]
    · rw [List.flatMap_cons, Bytes.ofChars_append, List.append_assoc]
      exact hrun' hrun

/-- After its opening quote, a quoted string is read as its octets. -/
theorem takes_string (s : String) (rest : Bytes) :
    Takes string (Bytes.ofChars (s.toList.flatMap Json.escape) ++ 0x22 :: rest)
      (Bytes.ofText s) rest := by
  obtain ⟨pieces, hflat, hrun⟩ := exists_pieces s.toList [] rest
  have hpieces : pieces.reverse.flatten = Bytes.ofText s := by
    rw [hflat, Bytes.ofText_eq_ofChars]
    rfl
  rw [← hpieces]
  exact hrun.takes.map

/-! ### Digits -/

/-- What does not continue a number. -/
def EndsNumber (rest : Bytes) : Prop :=
  ∀ x ∈ rest.head?, isDigit x = false ∧ x ≠ 0x2E ∧ x ≠ 0x65 ∧ x ≠ 0x45

theorem toNat_bounds {n : Nat} {c : Char} (h : c ∈ Nat.toDigits 10 n) :
    0x30 ≤ c.toNat ∧ c.toNat ≤ 0x39 := by
  have hdigit := Nat.isDigit_of_mem_toDigits (by decide) (by decide) h
  simp only [Char.isDigit, Bool.and_eq_true, decide_eq_true_eq] at hdigit
  exact ⟨hdigit.1, hdigit.2⟩

theorem ofChars_digits (n : Nat) :
    Bytes.ofChars (Json.digits n) = (Nat.toDigits 10 n).map fun c => UInt8.ofNat c.toNat := by
  refine Bytes.ofChars_of_ascii fun c hc => ?_
  have := toNat_bounds hc
  omega

theorem isDigit_of_mem_digits {n : Nat} :
    ∀ x ∈ Bytes.ofChars (Json.digits n), isDigit x = true := by
  intro x hx
  rw [ofChars_digits] at hx
  obtain ⟨c, hc, rfl⟩ := List.mem_map.mp hx
  obtain ⟨hlow, hhigh⟩ := toNat_bounds hc
  simp only [isDigit, Bool.and_eq_true, decide_eq_true_eq, UInt8.le_iff_toNat_le,
    UInt8.toNat_ofNat']
  have hsmall : c.toNat % 2 ^ 8 = c.toNat := by omega
  rw [hsmall]
  exact ⟨hlow, hhigh⟩

theorem exists_cons_digits (n : Nat) :
    ∃ x p, Bytes.ofChars (Json.digits n) = x :: p ∧ isDigit x = true := by
  obtain ⟨c, more, hc⟩ := List.exists_cons_of_ne_nil (Nat.toDigits_ne_nil (b := 10) (n := n))
  have hform := ofChars_digits n
  rw [hc, List.map_cons] at hform
  exact ⟨_, _, hform, isDigit_of_mem_digits _ (hform ▸ List.mem_cons_self)⟩

theorem decimal_digits (n : Nat) : decimal (Bytes.ofChars (Json.digits n)) = n := by
  have hfold : ∀ (cs : List Char), (∀ c ∈ cs, c.toNat ≤ 0x39) → ∀ start : Nat,
      (cs.map fun c => UInt8.ofNat c.toNat).foldl (fun n b => n * 10 + (b.toNat - 0x30)) start =
        Nat.ofDigitChars 10 cs start := by
    intro cs
    induction cs with
    | nil => exact fun _ _ => rfl
    | cons c cs ih =>
      intro hcs start
      have hc := hcs c List.mem_cons_self
      have hvalue : (UInt8.ofNat c.toNat).toNat = c.toNat := by
        rw [UInt8.toNat_ofNat']
        omega
      rw [List.map_cons, List.foldl_cons, ih (fun d hd => hcs d (List.mem_cons_of_mem c hd)),
        Nat.ofDigitChars_cons, hvalue, Nat.mul_comm]
      rfl
  rw [ofChars_digits, decimal, hfold _ fun c hc => (toNat_bounds hc).2]
  exact Nat.ofDigitChars_ten_toDigits

theorem digitChar_eq_zero : ∀ n < 10, Nat.digitChar n = '0' → n = 0 := by
  decide

/-- A number that is written with a zero first is zero. -/
theorem eq_zero_of_leading_zero {n : Nat} (h : (Nat.toDigits 10 n).head? = some '0') : n = 0 := by
  induction n using Nat.strongRecOn with
  | ind n ih =>
    by_cases hn : n < 10
    · rw [Nat.toDigits_of_lt_base hn] at h
      exact digitChar_eq_zero n hn (Option.some.inj h)
    · obtain ⟨d, more, hd⟩ :=
        List.exists_cons_of_ne_nil (Nat.toDigits_ne_nil (b := 10) (n := n / 10))
      rw [Nat.toDigits_of_base_le (by decide) (Nat.le_of_not_lt hn), hd] at h
      have := ih (n / 10) (by omega) (hd ▸ h)
      omega

theorem takes_digits {p rest : Bytes} (hp : ∀ x ∈ p, isDigit x = true) (hrest : EndsNumber rest) :
    Takes digits (p ++ rest) p rest := by
  have hstop : rest.takeWhile isDigit = [] ∧ rest.dropWhile isDigit = rest := by
    cases rest with
    | nil => exact ⟨rfl, rfl⟩
    | cons x rest =>
      have hx := (hrest x rfl).1
      simp [hx]
  have htake : (p ++ rest).takeWhile isDigit = p := by
    rw [List.takeWhile_append_of_pos hp, hstop.1, List.append_nil]
  have hdrop : (p ++ rest).dropWhile isDigit = rest := by
    rw [List.dropWhile_append_of_pos hp, hstop.2]
  have htakes : Takes digits (p ++ rest) ((p ++ rest).takeWhile isDigit)
      ((p ++ rest).dropWhile isDigit) := rfl
  rwa [htake, hdrop] at htakes

theorem takes_wholeDigits {n : Nat} {rest : Bytes} (hrest : EndsNumber rest) :
    Takes wholeDigits (Bytes.ofChars (Json.digits n) ++ rest) (Bytes.ofChars (Json.digits n))
      rest := by
  have hdigits := isDigit_of_mem_digits (n := n)
  obtain ⟨c, more, hc⟩ := List.exists_cons_of_ne_nil (Nat.toDigits_ne_nil (b := 10) (n := n))
  have hform := ofChars_digits n
  rw [hc, List.map_cons] at hform
  have hzero : ¬((Bytes.ofChars (Json.digits n)).head? = some 0x30 ∧
      (Bytes.ofChars (Json.digits n)).length ≠ 1) := by
    rintro ⟨hhead, hlength⟩
    rw [hform, List.head?_cons, Option.some.injEq] at hhead
    have hvalue := congrArg UInt8.toNat hhead
    have hbounds := toNat_bounds (n := n) (c := c) (hc ▸ List.mem_cons_self)
    rw [UInt8.toNat_ofNat', Nat.mod_eq_of_lt (by omega)] at hvalue
    obtain rfl : c = '0' := Char.toNat_inj.mp hvalue
    obtain rfl := eq_zero_of_leading_zero (hc ▸ List.head?_cons)
    exact hlength rfl
  have hsome : Takes someDigits (Bytes.ofChars (Json.digits n) ++ rest)
      (Bytes.ofChars (Json.digits n)) rest := by
    have htakes := takes_digits hdigits hrest
    rw [hform] at hdigits htakes ⊢
    refine takes_peek.bind ?_
    simp only [List.cons_append, List.head?_cons, hdigits _ List.mem_cons_self, if_true]
    exact htakes
  refine hsome.bind ?_
  rw [if_neg hzero]
  exact takes_pure _ _

theorem takes_count {n : Nat} {rest : Bytes} (hrest : EndsNumber rest) :
    Takes count (Bytes.ofChars (Json.digits n) ++ rest) n rest := by
  have hfraction : Takes fractionDigits rest [] rest := by
    refine takes_peek.bind ?_
    rw [if_neg fun h : rest.head? = some 0x2E => (hrest _ h).2.1 rfl]
    exact takes_pure _ _
  have hexponent : Takes exponent? rest none rest := by
    refine takes_peek.bind (takes_peek.bind ?_)
    rw [if_neg (by
      rintro (h | h)
      · exact (hrest _ h).2.2.1 rfl
      · exact (hrest _ h).2.2.2 rfl)]
    exact takes_pure _ _
  refine (takes_wholeDigits hrest).bind (hfraction.bind (hexponent.bind ?_))
  rw [decimal_digits]
  exact takes_pure _ _

end Reader

end Trawl.Json
