import Mathlib

/-!
# Rounding to doubles

What a double stands for is a rational number, and an operation on doubles gives the exact result,
rounded. Of that, this module has what a count of ticks goes through when it becomes a time: it is
turned into a double (`exists_toFloat`), multiplied by the length of a tick (`exists_mul`) and added
to zero (`unpack_zero_add`). All of them stay within the range where doubles have 53 digits, so each
is off by one part in 2⁵² at most.
-/

namespace Trawl

/-- Whether a number is another one up to so small a part of it. -/
def Approximates (part a x : ℚ) : Prop :=
  |a - x| ≤ part * x

namespace Approximates

variable {part part' a b x y z : ℚ}

theorem le (h : Approximates part a x) : a ≤ (1 + part) * x := by
  have := (abs_le.1 h).2
  linarith

theorem ge (h : Approximates part a x) : (1 - part) * x ≤ a := by
  have := (abs_le.1 h).1
  linarith

theorem mono (h : Approximates part a x) (hx : 0 ≤ x) (hpart : part ≤ part') :
    Approximates part' a x :=
  le_trans h (mul_le_mul_of_nonneg_right hpart hx)

theorem trans (h : Approximates part x y) (h' : Approximates part' y z) (hpart : 0 ≤ part) :
    Approximates ((1 + part) * (1 + part') - 1) x z := by
  have hy : part * y ≤ part * ((1 + part') * z) := mul_le_mul_of_nonneg_left h'.le hpart
  unfold Approximates at *
  calc |x - z| ≤ |x - y| + |y - z| := abs_sub_le x y z
    _ ≤ part * y + part' * z := add_le_add h h'
    _ ≤ part * ((1 + part') * z) + part' * z := by linarith
    _ = ((1 + part) * (1 + part') - 1) * z := by ring

theorem mul (h : Approximates part a x) (h' : Approximates part' b y) (hb : 0 ≤ b) (hx : 0 ≤ x)
    (hpart : 0 ≤ part) : Approximates ((1 + part) * (1 + part') - 1) (a * b) (x * y) := by
  have hleft : Approximates part (a * b) (x * b) := by
    unfold Approximates at *
    rw [← sub_mul, abs_mul, abs_of_nonneg hb, ← mul_assoc]
    exact mul_le_mul_of_nonneg_right h hb
  have hright : Approximates part' (x * b) (x * y) := by
    unfold Approximates at *
    rw [← mul_sub, abs_mul, abs_of_nonneg hx, mul_left_comm]
    exact mul_le_mul_of_nonneg_left h' hx
  exact hleft.trans hright hpart

/-- Two numbers are close to each other where one number approximates both. -/
theorem lt_of_both (h : Approximates (1 / 2 ^ 50) a x) (h' : Approximates (1 / 2 ^ 50) a y)
    (hy : 0 < y) : 127 * x < 128 * y := by
  have := h.ge.trans h'.le
  norm_num at this
  linarith

end Approximates

open Float.Model Float.Model.UnpackedFloat

/-- The number that an unpacked double stands for, unless it is infinite or no number. -/
def number? : UnpackedFloat → Option ℚ
  | .finite sign mantissa exponent _ => some (sign.apply mantissa * 2 ^ exponent)
  | .zero _ => some 0
  | .infinity _ | .notANumber => none

/-- A positive double with all 53 digits. -/
structure NormalDouble where
  mantissa : Nat
  exponent : Int
  le_mantissa : 2 ^ 52 ≤ mantissa
  mantissa_lt : mantissa < 2 ^ 53
  le_exponent : -1074 ≤ exponent
  exponent_le : exponent ≤ 971

namespace NormalDouble

variable (d : NormalDouble)

theorem mantissa_pos : 0 < d.mantissa :=
  Nat.lt_of_lt_of_le (Nat.two_pow_pos 52) d.le_mantissa

def unpacked : UnpackedFloat :=
  .finite .positive d.mantissa d.exponent d.mantissa_pos

def number : ℚ :=
  d.mantissa * 2 ^ d.exponent

theorem number?_unpacked : number? d.unpacked = some d.number := by
  simp [unpacked, number?, number, Sign.apply]

theorem number_nonneg : 0 ≤ d.number :=
  mul_nonneg (Nat.cast_nonneg _) (zpow_nonneg zero_le_two _)

theorem log2_mantissa : d.mantissa.log2 = 52 :=
  (Nat.log2_eq_iff d.mantissa_pos.ne').2 ⟨d.le_mantissa, d.mantissa_lt⟩

end NormalDouble

/-! ## The bits of a double -/

theorem unpackSign_packComponents {spec : Format} (sign : Sign)
    (exponent : BitVec spec.exponentBits) (mantissa : BitVec spec.mantissaBitsWithoutImplicit) :
    unpackSign (packComponents spec sign exponent mantissa) = sign.toBitVec := by
  apply BitVec.eq_of_getLsbD_eq
  intro i hi
  obtain rfl : i = 0 := by omega
  simp [unpackSign, packComponents, BitVec.getLsbD_append, BitVec.getElem_append]

theorem pack_normal {m : Nat} {e : Int} {b : Nat} (hpos : 0 < m) (hm : m.log2 = 52)
    (he : e + 1075 = b) (hb : b < 2047) :
    UnpackedFloat.pack .binary64 (.finite .positive m e hpos) =
      packComponents .binary64 .positive (.ofNat 11 b) (.ofNat 52 m) := by
  have hbiased : (e + Format.binary64.exponentBias + (52 : Nat)).toNat = b := by
    have : Format.binary64.exponentBias = 1023 := rfl
    omega
  have hlarge : ¬2 ^ 11 ≤ b + 1 := by omega
  have hbits : m.log2 + 1 = Format.binary64.mantissaBits := by rw [hm]; rfl
  unfold UnpackedFloat.pack
  simp only [hbiased]
  rw [if_neg hlarge, if_pos hbits]

theorem unpack_normal {s : Sign} {b : BitVec 11} {m : BitVec 52} (hzero : b ≠ 0#11)
    (hones : b ≠ -1#11) (hpos : 0 < (1#1 ++ m).toNat) :
    UnpackedFloat.unpack .binary64 (packComponents .binary64 s b m) =
      .finite s (1#1 ++ m).toNat (b.toNat - 1075) hpos := by
  have hsign : Sign.ofBitVec s.toBitVec = s := by cases s <;> rfl
  unfold UnpackedFloat.unpack
  simp only [unpackExponent_packComponents, unpackMantissa_packComponents,
    unpackSign_packComponents, if_neg hones, if_neg hzero, hsign]
  rfl

/-- The first of the 53 digits is not written, but always 1. -/
theorem toNat_append_mantissa {m : Nat} (h : 2 ^ 52 ≤ m) (h' : m < 2 ^ 53) :
    (1#1 ++ BitVec.ofNat 52 m).toNat = m := by
  rw [BitVec.toNat_append, ← Nat.shiftLeft_add_eq_or_of_lt (BitVec.isLt _), BitVec.toNat_ofNat,
    BitVec.toNat_ofNat]
  omega

theorem NormalDouble.unpack_pack (d : NormalDouble) :
    (Float.Model.pack d.unpacked).unpack = d.unpacked := by
  have hlow := d.le_exponent
  have hhigh := d.exponent_le
  obtain ⟨b, hb⟩ : ∃ b : Nat, d.exponent + 1075 = b := ⟨(d.exponent + 1075).toNat, by omega⟩
  have hbits : (BitVec.ofNat 11 b).toNat = b := by
    rw [BitVec.toNat_ofNat, Nat.mod_eq_of_lt (by omega)]
  have hne : ∀ n : Nat, n < 2 ^ 11 → b ≠ n → BitVec.ofNat 11 b ≠ BitVec.ofNat 11 n := by
    intro n hn hbn h
    have := congrArg BitVec.toNat h
    rw [hbits, BitVec.toNat_ofNat, Nat.mod_eq_of_lt hn] at this
    exact hbn this
  have hmantissa := toNat_append_mantissa d.le_mantissa d.mantissa_lt
  have hpack := pack_normal d.mantissa_pos d.log2_mantissa hb (by omega)
  have hunpack := unpack_normal (s := .positive) (m := .ofNat 52 d.mantissa)
    (hne 0 (by omega) (by omega)) (hne 2047 (by omega) (by omega))
    (by rw [hmantissa]; exact d.mantissa_pos)
  calc (Float.Model.pack d.unpacked).unpack
      = UnpackedFloat.unpack .binary64 (UnpackedFloat.pack .binary64 d.unpacked) := rfl
    _ = .finite .positive (1#1 ++ BitVec.ofNat 52 d.mantissa).toNat
          ((BitVec.ofNat 11 b).toNat - 1075) _ := by rw [unpacked, hpack, hunpack]
    _ = d.unpacked := by
      simp only [unpacked, hmantissa, hbits, ← hb, Int.add_sub_cancel]

/-! ## Rounding a mantissa -/

theorem mantissa_shiftRight (em : ExtendedMantissa) : ∀ k : Nat,
    (em >>> k).mantissa = em.mantissa / 2 ^ k
  | 0 => (Nat.div_one _).symm
  | k + 1 => by
    have hstep : (em >>> (k + 1)).mantissa = (em >>> k).mantissa / 2 := rfl
    rw [hstep, mantissa_shiftRight em k, Nat.div_div_eq_div_mul, Nat.pow_succ]

theorem roundedMantissa_bounds (em : ExtendedMantissa) :
    em.mantissa ≤ em.roundedMantissa ∧ em.roundedMantissa ≤ em.mantissa + 1 := by
  obtain ⟨m, r, s⟩ := em
  cases r <;> cases s <;>
    simp only [ExtendedMantissa.roundedMantissa, ExtendedMantissa.accuracy,
      Accuracy.roundToNearestEven] <;> omega

/-- What is left of a mantissa without its last digits. Rounding may carry, so that it has one
digit more than is wanted. -/
def roundedAt (m k : Nat) : Nat :=
  (ExtendedMantissa.ofMantissaAndAccuracy m .exact >>> k).roundedMantissa

section Rounding

variable {m k : Nat} {e : Int} (hm : m.log2 = 52 + k)

include hm

theorem two_pow_le_mantissa : 2 ^ 52 * 2 ^ k ≤ m ∧ m < 2 ^ 53 * 2 ^ k := by
  have hne : m ≠ 0 := by
    rintro rfl
    rw [Nat.log2_zero] at hm
    omega
  rw [← Nat.pow_add, ← Nat.pow_add, Nat.add_right_comm 52 1 k]
  exact (Nat.log2_eq_iff hne).1 hm

theorem roundedAt_bounds : (2 ^ 52 ≤ roundedAt m k ∧ roundedAt m k ≤ 2 ^ 53) ∧
    roundedAt m k * 2 ^ k ≤ m + 2 ^ k ∧ m ≤ roundedAt m k * 2 ^ k + 2 ^ k := by
  have hpos : 0 < 2 ^ k := Nat.two_pow_pos k
  obtain ⟨hlow, hhigh⟩ := two_pow_le_mantissa hm
  have hfloor : 2 ^ 52 ≤ m / 2 ^ k := (Nat.le_div_iff_mul_le hpos).2 hlow
  have hceil : m / 2 ^ k < 2 ^ 53 := (Nat.div_lt_iff_lt_mul hpos).2 hhigh
  have hdown := Nat.div_mul_le_self m (2 ^ k)
  have hup : m < m / 2 ^ k * 2 ^ k + 2 ^ k := Nat.lt_div_mul_add hpos
  obtain ⟨hle, hge⟩ : m / 2 ^ k ≤ roundedAt m k ∧ roundedAt m k ≤ m / 2 ^ k + 1 := by
    have h := roundedMantissa_bounds (ExtendedMantissa.ofMantissaAndAccuracy m .exact >>> k)
    rwa [mantissa_shiftRight] at h
  have hle' := Nat.mul_le_mul_right (2 ^ k) hle
  have hge' := Nat.mul_le_mul_right (2 ^ k) hge
  rw [Nat.add_mul, Nat.one_mul] at hge'
  omega

theorem approximates_roundedAt : Approximates (1 / 2 ^ 52) (roundedAt m k * 2 ^ k) m := by
  obtain ⟨-, hup, hdown⟩ := roundedAt_bounds hm
  have hulp : (2 : ℚ) ^ k ≤ 1 / 2 ^ 52 * m := by
    have hlow : (2 : ℚ) ^ 52 * 2 ^ k ≤ m := by exact_mod_cast (two_pow_le_mantissa hm).1
    rw [one_div, ← div_eq_inv_mul, le_div_iff₀ (by positivity), mul_comm]
    exact hlow
  refine le_trans ?_ hulp
  rw [abs_sub_le_iff, sub_le_iff_le_add', sub_le_iff_le_add']
  exact ⟨by exact_mod_cast hup, by exact_mod_cast hdown⟩

/-- Within the range of doubles, a mantissa is cut to 53 digits. -/
theorem shiftToTargetExponent_eq (he : -1074 ≤ e + k) :
    shiftToTargetExponent .binary64 m e .exact =
      (ExtendedMantissa.ofMantissaAndAccuracy m .exact >>> k, e + k) := by
  have hbits : Format.binary64.mantissaBits = 53 := rfl
  have hleast : Format.binary64.minExponent = -1074 := rfl
  have htarget : Format.binary64.targetExponent (totalExponent m e) = e + k := by
    simp only [Format.targetExponent, totalExponent, hm, hbits, hleast]
    omega
  have hshift : (e + k - e).toNat = k := by omega
  simp only [shiftToTargetExponent, shiftToExponent, htarget, hshift]

theorem roundWithAccuracy_eq {j : Nat} (he : -1074 ≤ e + k) (hj : (roundedAt m k).log2 = 52 + j)
    (hpos : 0 < roundedAt m k / 2 ^ j) : roundWithAccuracy .binary64 .positive m e .exact =
      .finite .positive (roundedAt m k / 2 ^ j) (e + k + j) hpos := by
  have hfirst := shiftToTargetExponent_eq hm he
  have hsecond := shiftToTargetExponent_eq hj (e := e + k) (by omega)
  have hmantissa : (ExtendedMantissa.ofMantissaAndAccuracy (roundedAt m k) .exact >>> j).mantissa =
      roundedAt m k / 2 ^ j :=
    mantissa_shiftRight _ _
  unfold roundWithAccuracy
  rw [hfirst]
  dsimp only
  rw [← roundedAt, hsecond]
  simp only [hmantissa, hpos.ne', dite_false]

theorem exists_round (hlow : -1074 ≤ e + k) (hhigh : e + k ≤ 970) : ∃ d : NormalDouble,
    roundWithAccuracy .binary64 .positive m e .exact = d.unpacked ∧
      (e + k ≤ d.exponent ∧ d.exponent ≤ e + k + 1) ∧
      Approximates (1 / 2 ^ 52) d.number (m * 2 ^ e) := by
  obtain ⟨⟨hle, hge⟩, -⟩ := roundedAt_bounds hm
  -- A carry leaves a power of two, so that cutting off one more digit loses nothing.
  obtain ⟨j, hj, hlog, hcarry⟩ : ∃ j, (j = 0 ∨ j = 1) ∧ (roundedAt m k).log2 = 52 + j ∧
      roundedAt m k / 2 ^ j * 2 ^ j = roundedAt m k := by
    rcases Nat.lt_or_eq_of_le hge with h | h
    · exact ⟨0, .inl rfl, (Nat.log2_eq_iff (by omega)).2 ⟨hle, h⟩, by simp⟩
    · exact ⟨1, .inr rfl, by rw [h, Nat.log2_two_pow], by rw [h]; norm_num⟩
  obtain ⟨hmin, hmax⟩ := two_pow_le_mantissa hlog
  let d : NormalDouble :=
    { mantissa := roundedAt m k / 2 ^ j
      exponent := e + k + j
      le_mantissa := (Nat.le_div_iff_mul_le (Nat.two_pow_pos j)).2 hmin
      mantissa_lt := (Nat.div_lt_iff_lt_mul (Nat.two_pow_pos j)).2 hmax
      le_exponent := by omega
      exponent_le := by omega }
  have hexponent : d.exponent = e + k + j := rfl
  refine ⟨d, roundWithAccuracy_eq hm hlow hlog d.mantissa_pos, by omega, ?_⟩
  have hnumber : d.number = roundedAt m k * 2 ^ k * 2 ^ e := by
    have hcarry' : ((roundedAt m k / 2 ^ j : Nat) : ℚ) * 2 ^ j = roundedAt m k := by
      exact_mod_cast hcarry
    rw [NormalDouble.number, ← hcarry', hexponent, zpow_add₀ two_ne_zero, zpow_add₀ two_ne_zero,
      zpow_natCast, zpow_natCast]
    ring
  have hpos : (0 : ℚ) ≤ 2 ^ e := zpow_nonneg zero_le_two e
  unfold Approximates
  rw [hnumber, ← sub_mul, abs_mul, abs_of_nonneg hpos, ← mul_assoc]
  exact mul_le_mul_of_nonneg_right (approximates_roundedAt hm) hpos

end Rounding

/-! ## Operations -/

theorem log2_shiftLeft {n : Nat} (hn : n ≠ 0) (s : Nat) : (n <<< s).log2 = n.log2 + s := by
  obtain ⟨hlow, hhigh⟩ := (Nat.log2_eq_iff hn).1 rfl
  have hpos : 0 < 2 ^ s := Nat.two_pow_pos s
  rw [Nat.shiftLeft_eq, Nat.log2_eq_iff (Nat.mul_ne_zero hn hpos.ne'), Nat.add_right_comm,
    Nat.pow_add, Nat.pow_add _ _ s]
  exact ⟨Nat.mul_le_mul_right _ hlow, Nat.mul_lt_mul_of_pos_right hhigh hpos⟩

/-- A number of fewer than 53 digits is first filled up to that many. -/
theorem ofNat_eq {n : Nat} (hn : n ≠ 0) : UnpackedFloat.ofNat .binary64 n =
    roundWithAccuracy .binary64 .positive (n <<< (52 - n.log2)) (-(52 - n.log2 : Nat)) .exact := by
  have hbits : Format.binary64.mantissaBits = 53 := rfl
  have hleast : Format.binary64.minExponent = -1074 := rfl
  have hshift : (-Format.binary64.targetExponent (totalExponent n 0)).toNat = 52 - n.log2 := by
    simp only [Format.targetExponent, totalExponent, hbits, hleast]
    omega
  have hsign : compare (n : Int) 0 = .gt := by
    rw [compare_gt_iff_gt]
    omega
  unfold UnpackedFloat.ofNat UnpackedFloat.ofInt UnpackedFloat.normalize
  rw [hsign]
  simp only [UnpackedFloat.round, decreaseExponent, Int.zero_sub, hshift, Int.toNat_natCast]

theorem exists_toFloat {n : UInt64} (hn : n ≠ 0) : ∃ d : NormalDouble,
    n.toFloat.toModel.unpack = d.unpacked ∧ (-52 ≤ d.exponent ∧ d.exponent ≤ 12) ∧
      Approximates (1 / 2 ^ 52) d.number n.toNat := by
  have hne : n.toNat ≠ 0 := fun h => hn (UInt64.toNat_inj.1 h)
  have hlt : n.toNat.log2 < 64 := (Nat.log2_lt hne).2 n.toNat_lt
  have hlog : (n.toNat <<< (52 - n.toNat.log2)).log2 = 52 + (n.toNat.log2 - 52) := by
    rw [log2_shiftLeft hne]
    omega
  obtain ⟨d, hround, hexponent, happrox⟩ :=
    exists_round (e := -(52 - n.toNat.log2 : Nat)) hlog (by omega) (by omega)
  have hnumber : ((n.toNat <<< (52 - n.toNat.log2) : Nat) : ℚ) *
      2 ^ (-((52 - n.toNat.log2 : Nat) : Int)) = n.toNat := by
    rw [Nat.shiftLeft_eq, Nat.cast_mul, Nat.cast_pow, Nat.cast_ofNat, zpow_neg, zpow_natCast,
      mul_assoc, mul_inv_cancel₀ (by positivity), mul_one]
  rw [hnumber] at happrox
  refine ⟨d, ?_, by omega, happrox⟩
  have hpack : n.toFloat.toModel = Float.Model.pack (UnpackedFloat.ofNat .binary64 n.toNat) := rfl
  rw [hpack, ofNat_eq hne, hround, d.unpack_pack]

/-- The product of two doubles that are neither large nor small. -/
theorem exists_mul {a b : Float} {d d' : NormalDouble} (ha : a.toModel.unpack = d.unpacked)
    (hb : b.toModel.unpack = d'.unpacked) (hlow : -1000 ≤ d.exponent + d'.exponent)
    (hhigh : d.exponent + d'.exponent ≤ 900) : ∃ p : NormalDouble,
      (a * b).toModel.unpack = p.unpacked ∧
        Approximates (1 / 2 ^ 52) p.number (d.number * d'.number) := by
  obtain ⟨k, hk, hlog⟩ : ∃ k, k ≤ 53 ∧ (d.mantissa * d'.mantissa).log2 = 52 + k := by
    have hpos : d.mantissa * d'.mantissa ≠ 0 := (Nat.mul_pos d.mantissa_pos d'.mantissa_pos).ne'
    have hmin : 2 ^ 52 * 2 ^ 52 ≤ d.mantissa * d'.mantissa :=
      Nat.mul_le_mul d.le_mantissa d'.le_mantissa
    have hmax : d.mantissa * d'.mantissa < 2 ^ 53 * 2 ^ 53 :=
      Nat.mul_lt_mul'' d.mantissa_lt d'.mantissa_lt
    have hge : 104 ≤ (d.mantissa * d'.mantissa).log2 := (Nat.le_log2 hpos).2 hmin
    have hlt : (d.mantissa * d'.mantissa).log2 < 106 := (Nat.log2_lt hpos).2 hmax
    exact ⟨(d.mantissa * d'.mantissa).log2 - 52, by omega, by omega⟩
  obtain ⟨p, hround, -, happrox⟩ :=
    exists_round (e := d.exponent + d'.exponent) hlog (by omega) (by omega)
  have hnumber : ((d.mantissa * d'.mantissa : Nat) : ℚ) * 2 ^ (d.exponent + d'.exponent) =
      d.number * d'.number := by
    rw [Nat.cast_mul, zpow_add₀ two_ne_zero, NormalDouble.number, NormalDouble.number]
    ring
  have hproduct : (a * b).toModel = Float.Model.pack
      (UnpackedFloat.mul .binary64 a.toModel.unpack b.toModel.unpack) := rfl
  have hmul : UnpackedFloat.mul .binary64 d.unpacked d'.unpacked = p.unpacked := hround
  rw [hnumber] at happrox
  exact ⟨p, by rw [hproduct, ha, hb, hmul, p.unpack_pack], happrox⟩

theorem unpack_zero_add {a : Float} {d : NormalDouble} (ha : a.toModel.unpack = d.unpacked) :
    ((0 : UInt32).toFloat + a).toModel.unpack = d.unpacked := by
  have hsum : ((0 : UInt32).toFloat + a).toModel =
      Float.Model.pack (UnpackedFloat.add .binary64 (.zero .positive) a.toModel.unpack) := rfl
  have hadd : UnpackedFloat.add .binary64 (.zero .positive) d.unpacked = d.unpacked := rfl
  rw [hsum, ha, hadd, d.unpack_pack]

end Trawl
