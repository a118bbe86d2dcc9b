import Ns3Noc.HighPrecision
import Mathlib

/-!
# FixedPointQuotients

The quotient of two numbers of 64 integer and 64 fractional bits. The fraction comes from the
remainder. When the remainder has an integer part, it is divided by the integer part of the divisor
alone.
-/
namespace Ns3Noc.HighPrecision
open LimbArithmetic

section Unsigned

theorem divu_of_lt {a b : BitVec 128} (hb : 0 < b.toNat) (h : a.toNat % b.toNat < 2 ^ 64)
    (hq : a.toNat / b.toNat ≤ 2 ^ 63) : (divu a b).toNat = a.toNat * 2 ^ 64 / b.toNat := by
  have htmp : (a % b) >>> 64 = 0 := by
    rw [← BitVec.toNat_inj, shift_toNat, BitVec.toNat_umod]
    simpa using h
  have hfirst : ((a / b) <<< 64).toNat = a.toNat / b.toNat * 2 ^ 64 := by
    rw [BitVec.toNat_shiftLeft, BitVec.toNat_udiv, Nat.shiftLeft_eq]
    omega
  have hsecond : (((a % b) <<< 64) / b).toNat = a.toNat % b.toNat * 2 ^ 64 / b.toNat := by
    rw [BitVec.toNat_udiv, BitVec.toNat_shiftLeft, BitVec.toNat_umod, Nat.shiftLeft_eq,
      Nat.mod_eq_of_lt (by omega)]
  have hle : a.toNat % b.toNat * 2 ^ 64 / b.toNat ≤ 2 ^ 64 := by
    apply Nat.div_le_of_le_mul
    exact Nat.mul_le_mul_right _ (Nat.mod_lt _ hb).le
  rw [divu, if_pos htmp, BitVec.toNat_add_of_lt] <;> rw [hfirst, hsecond]
  · exact quotient_div _ _ _
  · omega

theorem divu_of_ge {a b : BitVec 128} (ha : a.toNat ≤ 2 ^ 127) (h : 2 ^ 64 ≤ a.toNat % b.toNat)
    (hb : 2 ^ 64 ≤ b.toNat) : (divu a b).toNat =
      a.toNat / b.toNat * 2 ^ 64 + a.toNat % b.toNat / (b.toNat / 2 ^ 64) := by
  have htmp : (a % b) >>> 64 ≠ 0 := by
    intro htmp
    have := congrArg BitVec.toNat htmp
    rw [shift_toNat, BitVec.toNat_umod] at this
    simp only [BitVec.ofNat_eq_ofNat, BitVec.toNat_ofNat, Nat.zero_mod] at this
    omega
  have hle : a.toNat / b.toNat * 2 ^ 64 + a.toNat % b.toNat / (b.toNat / 2 ^ 64) ≤ a.toNat :=
    (Nat.le_mul_of_pos_right _ (by omega)).trans (short_quotient_mul_le _ _ _)
  have hfirst : ((a / b) <<< 64).toNat = a.toNat / b.toNat * 2 ^ 64 := by
    have hlt := ((Nat.le_add_right _ _).trans hle).trans_lt (ha.trans_lt (by norm_num : 2 ^ 127 < 2 ^ 128))
    rw [BitVec.toNat_shiftLeft, BitVec.toNat_udiv, Nat.shiftLeft_eq, Nat.mod_eq_of_lt hlt]
  have hsecond : ((a % b) / (b >>> 64)).toNat = a.toNat % b.toNat / (b.toNat / 2 ^ 64) := by
    rw [BitVec.toNat_udiv, BitVec.toNat_umod, shift_toNat]
  rw [divu, if_neg htmp, BitVec.toNat_add_of_lt] <;> rw [hfirst, hsecond]
  omega

/-- The quotient by the integer part alone never comes to the sign bit. -/
theorem short_quotient_lt {x y : ℕ} (hx : x ≤ 2 ^ 127) (h : 2 ^ 64 ≤ x % y) (hy : 0 < y) :
    x / y * 2 ^ 64 + x % y / (y / 2 ^ 64) < 2 ^ 127 := by
  have hmul := short_quotient_mul_le x y (2 ^ 64)
  have hr := Nat.mod_lt x hy
  have hsum := Nat.div_add_mod x y
  by_contra hge
  obtain hone | htwo : y / 2 ^ 64 = 1 ∨ 2 ≤ y / 2 ^ 64 := by omega
  · rw [hone] at hge hmul
    have hy' : y = 2 ^ 64 + y % 2 ^ 64 := by omega
    have hlow : y % 2 ^ 64 * (x / y) = 0 := by
      rw [hy', Nat.add_mul, ← hy'] at hsum
      omega
    rcases Nat.mul_eq_zero.mp hlow with hl | hq
    · omega
    · rw [hq] at hge
      omega
  · have := Nat.mul_le_mul (Nat.not_lt.mp hge) htwo
    omega

/-- The quotient of two magnitudes, as the code computes it. -/
def quotient (x y : ℕ) : ℕ :=
  if x % y < 2 ^ 64 then x * 2 ^ 64 / y else x / y * 2 ^ 64 + x % y / (y / 2 ^ 64)

theorem divu_toNat {a b : BitVec 128} (ha : a.toNat ≤ 2 ^ 127) (hb : 0 < b.toNat)
    (hq : a.toNat / b.toNat ≤ 2 ^ 63) : (divu a b).toNat = quotient a.toNat b.toNat := by
  rw [quotient]
  split_ifs with h
  · exact divu_of_lt hb h hq
  · have := Nat.mod_lt a.toNat hb
    exact divu_of_ge ha (by omega) (by omega)

/-- The part of the divisor that is dropped has no weight against the divisor. -/
def FractionNegligible (x y : ℕ) : Prop :=
  x % y < 2 ^ 64 ∨
    x % y / (y / 2 ^ 64) * (y % 2 ^ 64) < 2 * y + x % y % (y / 2 ^ 64) * 2 ^ 64

instance (x y : ℕ) : Decidable (FractionNegligible x y) := inferInstanceAs (Decidable (_ ∨ _))

theorem quotient_error_of_lt {x y : ℕ} (hy : 0 < y) (h : x % y < 2 ^ 64) :
    |((quotient x y * y : ℕ) : ℤ) - (x * 2 ^ 64 : ℕ)| < y := by
  have hdiv := Nat.div_add_mod' (x * 2 ^ 64) y
  have hlt := Nat.mod_lt (x * 2 ^ 64) hy
  rw [quotient, if_pos h, abs_lt]
  omega

theorem quotient_error_of_ge {x y : ℕ} (h : 2 ^ 64 ≤ x % y) :
    ((quotient x y * y : ℕ) : ℤ) - (x * 2 ^ 64 : ℕ) =
      (x % y / (y / 2 ^ 64) * (y % 2 ^ 64) : ℕ) - (x % y % (y / 2 ^ 64) * 2 ^ 64 : ℕ) := by
  rw [← short_quotient_error, quotient, if_neg (by omega)]
  have hsum := Nat.div_add_mod' x y
  conv_lhs =>
    enter [2, 1, 1]
    rw [← hsum]
  push_cast
  ring

theorem quotient_error_iff {x y : ℕ} (hy : 0 < y) :
    |((quotient x y * y : ℕ) : ℤ) - (x * 2 ^ 64 : ℕ)| < 2 * y ↔ FractionNegligible x y := by
  rw [FractionNegligible]
  by_cases h : x % y < 2 ^ 64
  · have := quotient_error_of_lt hy h
    exact iff_of_true (by omega) (Or.inl h)
  · have hr := Nat.mod_lt x hy
    have hrest : x % y % (y / 2 ^ 64) < y / 2 ^ 64 := Nat.mod_lt _ (by omega)
    rw [quotient_error_of_ge (by omega), abs_lt, or_iff_right h]
    omega

/-- A divisor without a fraction loses nothing. -/
theorem quotient_error_of_integer {x y : ℕ} (hy : 0 < y) (h : y % 2 ^ 64 = 0) :
    |((quotient x y * y : ℕ) : ℤ) - (x * 2 ^ 64 : ℕ)| < y := by
  by_cases hlt : x % y < 2 ^ 64
  · exact quotient_error_of_lt hy hlt
  · have hr := Nat.mod_lt x hy
    have hrest : x % y % (y / 2 ^ 64) < y / 2 ^ 64 := Nat.mod_lt _ (by omega)
    rw [quotient_error_of_ge (by omega), abs_lt, h]
    omega

end Unsigned

section Signed
variable {a b : HighPrecision}

theorem magnitude_pos (hb : b.m_value ≠ 0) : 0 < (magnitude b.m_value).toNat := by
  rw [magnitude_toNat]
  apply Int.natAbs_pos.mpr
  intro h
  exact hb (BitVec.toInt_inj.mp (h.trans BitVec.toInt_zero.symm))

theorem value_div (a b : HighPrecision) : a.value / b.value =
    if outputSign a.m_value b.m_value then
      -((magnitude a.m_value).toNat / (magnitude b.m_value).toNat : ℚ)
    else (magnitude a.m_value).toNat / (magnitude b.m_value).toNat := by
  rw [value, value, div_div_div_cancel_right₀ (by positivity), toInt_eq a.m_value,
    toInt_eq b.m_value, outputSign]
  cases a.m_value.msb <;> cases b.m_value.msb <;> simp [neg_div, div_neg]

theorem fits_div_iff (hb : b.m_value ≠ 0) : Fits (a.value / b.value) ↔
    (magnitude a.m_value).toNat < 2 ^ 63 * (magnitude b.m_value).toNat +
      (outputSign a.m_value b.m_value).toNat := by
  have hy : (0 : ℚ) < (magnitude b.m_value).toNat := Nat.cast_pos.mpr (magnitude_pos hb)
  have hx : (0 : ℚ) ≤ (magnitude a.m_value).toNat := Nat.cast_nonneg _
  have hq := div_nonneg hx hy.le
  rw [Fits, value_div]
  cases outputSign a.m_value b.m_value with
  | false =>
    have hlow : -2 ^ 63 ≤ ((magnitude a.m_value).toNat : ℚ) / (magnitude b.m_value).toNat := by
      linarith
    rw [if_neg Bool.false_ne_true, and_iff_right hlow, div_lt_iff₀ hy]
    norm_cast
  | true =>
    have hhigh : -((magnitude a.m_value).toNat / (magnitude b.m_value).toNat : ℚ) < 2 ^ 63 := by
      linarith
    rw [if_pos rfl, and_iff_left hhigh, neg_le_neg_iff, div_le_iff₀ hy, Bool.toNat_true,
      Nat.lt_add_one_iff]
    norm_cast

theorem quotient_lt {x y : ℕ} {neg : Bool} (hx : x ≤ 2 ^ 127) (hy : 0 < y)
    (hfit : x < 2 ^ 63 * y + neg.toNat) : quotient x y < 2 ^ 127 + neg.toNat := by
  rw [quotient]
  split_ifs with h
  · rw [Nat.div_lt_iff_lt_mul hy]
    cases neg with
    | false =>
      rw [Bool.toNat_false] at hfit ⊢
      omega
    | true =>
      rw [Bool.toNat_true] at hfit ⊢
      omega
  · have := short_quotient_lt hx (Nat.not_lt.mp h) hy
    omega

theorem div_value (hb : b.m_value ≠ 0) (hfit : Fits (a.value / b.value)) :
    (a.div b).value = if outputSign a.m_value b.m_value then
      -((quotient (magnitude a.m_value).toNat (magnitude b.m_value).toNat : ℕ) / 2 ^ 64 : ℚ)
    else (quotient (magnitude a.m_value).toNat (magnitude b.m_value).toNat : ℕ) / 2 ^ 64 := by
  have hy := magnitude_pos hb
  have hlt := (fits_div_iff hb).mp hfit
  have hbool := Bool.toNat_le (outputSign a.m_value b.m_value)
  have hq : (magnitude a.m_value).toNat / (magnitude b.m_value).toNat ≤ 2 ^ 63 :=
    Nat.div_le_of_le_mul (by omega)
  have hdivu := divu_toNat (magnitude_le a.m_value) hy hq
  have hroom := quotient_lt (magnitude_le a.m_value) hy hlt
  rw [← hdivu] at hroom ⊢
  rw [value, div, signed_toInt _ hroom]
  cases outputSign a.m_value b.m_value with
  | false => rw [if_neg Bool.false_ne_true, if_neg Bool.false_ne_true, Int.cast_natCast]
  | true => rw [if_pos rfl, if_pos rfl, Int.cast_neg, Int.cast_natCast, neg_div]

theorem div_error_lt_iff (hb : b.m_value ≠ 0) (hfit : Fits (a.value / b.value)) (k : ℕ) :
    |(a.div b).value - a.value / b.value| < k / 2 ^ 64 ↔
      |((quotient (magnitude a.m_value).toNat (magnitude b.m_value).toNat *
          (magnitude b.m_value).toNat : ℕ) : ℤ) - ((magnitude a.m_value).toNat * 2 ^ 64 : ℕ)| <
        k * (magnitude b.m_value).toNat := by
  have hratio := ratio_error_lt_iff
    (quotient (magnitude a.m_value).toNat (magnitude b.m_value).toNat) (magnitude a.m_value).toNat k
    (magnitude_pos hb) (Nat.two_pow_pos 64)
  rw [Nat.cast_pow, Nat.cast_ofNat] at hratio
  rw [← Nat.cast_mul, ← hratio, div_value hb hfit, value_div]
  cases outputSign a.m_value b.m_value with
  | false => rw [if_neg Bool.false_ne_true, if_neg Bool.false_ne_true]
  | true => rw [if_pos rfl, if_pos rfl, neg_sub_neg, abs_sub_comm]

theorem getLow_eq_zero_iff (hp : HighPrecision) :
    hp.getLow = 0 ↔ (magnitude hp.m_value).toNat % 2 ^ 64 = 0 := by
  have hlow : hp.getLow.toNat = (magnitude hp.m_value).toNat % 2 ^ 64 := by
    rw [getLow, BitVec.toNat_setWidth, and_maskLo, Nat.mod_mod, magnitude]
  rw [← hlow, ← BitVec.toNat_inj]
  rfl

/-- The quotient is off by less than two units in the last place, or one if the divisor has no
fraction, just when the fraction that is dropped from the divisor is negligible. -/
theorem div_error_iff (hb : b.m_value ≠ 0) (hfit : Fits (a.value / b.value)) :
    (|(a.div b).value - a.value / b.value| < 1 / 2 ^ 63 ∧
      (b.getLow = 0 → |(a.div b).value - a.value / b.value| < 1 / 2 ^ 64)) ↔
    FractionNegligible (magnitude a.m_value).toNat (magnitude b.m_value).toNat := by
  have hy := magnitude_pos hb
  have htwo := div_error_lt_iff hb hfit 2
  have hone := div_error_lt_iff hb hfit 1
  rw [Nat.cast_ofNat, Nat.cast_ofNat, quotient_error_iff hy] at htwo
  rw [Nat.cast_one, Nat.cast_one, one_mul] at hone
  rw [show (1 / 2 ^ 63 : ℚ) = 2 / 2 ^ 64 by norm_num, htwo, getLow_eq_zero_iff]
  exact and_iff_left fun h => hone.mpr (quotient_error_of_integer hy h)

theorem div_error_quarter :
    |((ofHighLow 1 (2 ^ 63)).div (ofHighLow 6 0)).value -
      (ofHighLow 1 (2 ^ 63)).value / (ofHighLow 6 0).value| < 1 / 2 ^ 63 := by
  have hb : (ofHighLow 6 0).m_value ≠ 0 := by
    decide +kernel
  have hfit := (fits_div_iff (a := ofHighLow 1 (2 ^ 63)) hb).mpr (by decide +kernel)
  exact ((div_error_iff hb hfit).mpr (by decide +kernel)).1

/-- One and a half divided by one and three quarters comes out as one and a half. -/
theorem not_div_error :
    ¬∀ a b : HighPrecision, b.m_value ≠ 0 → Fits (a.value / b.value) →
      |(a.div b).value - a.value / b.value| < 1 / 2 ^ 63 ∧
        (b.getLow = 0 → |(a.div b).value - a.value / b.value| < 1 / 2 ^ 64) := by
  intro h
  have hb : (ofHighLow 1 (3 * 2 ^ 62)).m_value ≠ 0 := by
    decide +kernel
  have hfit := (fits_div_iff (a := ofHighLow 1 (2 ^ 63)) hb).mpr (by decide +kernel)
  have herror := (div_error_lt_iff hb hfit 2).mp
    ((h _ _ hb hfit).1.trans_eq (by norm_num))
  exact absurd herror (by decide +kernel)

example : (ofHighLow 1 (2 ^ 63)).div (ofHighLow 1 (3 * 2 ^ 62)) = ofHighLow 1 (2 ^ 63) := by
  decide +kernel

end Signed

end Ns3Noc.HighPrecision
