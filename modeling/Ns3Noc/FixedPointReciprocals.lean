import Ns3Noc.FixedPointQuotients
import Mathlib

/-!
# FixedPointReciprocals

The division by a constant as a multiplication by its reciprocal, which is rounded up to 128 bits of
fraction.
-/
namespace Ns3Noc.HighPrecision
open LimbArithmetic

theorem umulByInvert_toNat {a b : BitVec 128} {t : ℕ} (ha : a.toNat = t * 2 ^ 64) (ht : t ≤ 2 ^ 63)
    (hb : b.toNat ≤ 2 ^ 127) : (umulByInvert a b).toNat = t * b.toNat / 2 ^ 64 := by
  have hah : (a >>> 64).toNat = t := by
    rw [shift_toNat, ha]
    omega
  have hal : (a &&& maskLo).toNat = 0 := by
    rw [and_maskLo, ha]
    omega
  have hal' : a &&& maskLo = 0 := by
    rw [← BitVec.toNat_inj, hal]
    rfl
  have hbh : t * (b.toNat / 2 ^ 64) ≤ 2 ^ 63 * 2 ^ 63 := Nat.mul_le_mul ht (by omega)
  have hbl : t * (b.toNat % 2 ^ 64) ≤ 2 ^ 63 * 2 ^ 64 := Nat.mul_le_mul ht (by omega)
  have hhigh : ((a >>> 64) * (b >>> 64)).toNat = t * (b.toNat / 2 ^ 64) := by
    rw [BitVec.toNat_mul_of_lt] <;> rw [hah, shift_toNat]
    omega
  have hmid : ((a >>> 64) * (b &&& maskLo)).toNat = t * (b.toNat % 2 ^ 64) := by
    rw [BitVec.toNat_mul_of_lt] <;> rw [hah, and_maskLo]
    omega
  have hsplit : t * b.toNat = t * (b.toNat % 2 ^ 64) + t * (b.toNat / 2 ^ 64) * 2 ^ 64 := by
    conv_lhs => rw [← Nat.div_add_mod b.toNat (2 ^ 64)]
    ring
  rw [umulByInvert, hal', zero_mul, add_zero, BitVec.toNat_add_of_lt] <;>
    rw [hhigh, shift_toNat, hmid]
  · omega
  · omega

theorem tdiv_tdiv_halves (n : ℕ) :
    ((n / 2 ^ 64 : ℕ) : ℤ).tdiv (2 ^ 64) = (n : ℤ).tdiv (2 ^ 128) := by
  rw [Int.tdiv_eq_ediv_of_nonneg (by omega), Int.tdiv_eq_ediv_of_nonneg (by omega)]
  omega

/-- Multiplying a whole number by a reciprocal keeps the integer part of the product. -/
theorem mulByInvert_ofInteger (t : BitVec 64) {o : HighPrecision} (ho : o.m_value.toNat ≤ 2 ^ 127) :
    ((ofInteger t).mulByInvert o).getInteger.toInt =
      (t.toInt * o.m_value.toNat).tdiv (2 ^ 128) := by
  have habs : (magnitude (ofInteger t).m_value).toNat = t.toInt.natAbs * 2 ^ 64 := by
    rw [magnitude_toNat, toInt_ofInteger, Int.natAbs_mul]
    rfl
  have ht : t.toInt.natAbs ≤ 2 ^ 63 := by
    have := BitVec.le_toInt t
    have := BitVec.toInt_lt (x := t)
    norm_num at *
    omega
  have hprod := umulByInvert_toNat habs ht ho
  have hle : t.toInt.natAbs * o.m_value.toNat ≤ 2 ^ 63 * 2 ^ 127 := Nat.mul_le_mul ht ho
  have hsigned := signed_toInt (w := 127) (ofInteger t).m_value.msb
    (r := umulByInvert (magnitude (ofInteger t).m_value) o.m_value) (by omega)
  have hsign : t.toInt = if (ofInteger t).m_value.msb then -(t.toInt.natAbs : ℤ)
      else t.toInt.natAbs := by
    have htoInt := toInt_eq (ofInteger t).m_value
    rw [habs, toInt_ofInteger, Nat.cast_mul] at htoInt
    norm_num only at htoInt
    generalize (t.toInt.natAbs : ℤ) = n at htoInt ⊢
    split_ifs at htoInt ⊢ <;> omega
  rw [getInteger_toInt, mulByInvert, ← magnitude, hsigned, hprod]
  conv_rhs => rw [hsign]
  split_ifs
  · rw [neg_mul, Int.neg_tdiv, Int.neg_tdiv, ← Nat.cast_mul]
    exact congrArg Neg.neg (tdiv_tdiv_halves _)
  · rw [← Nat.cast_mul]
    exact tdiv_tdiv_halves _

theorem invert_toNat {v : BitVec 64} (hv : 1 < v.toNat) (hv' : v.toNat < 2 ^ 63) :
    ∃ o s, invert v = some o ∧ o.m_value.toNat * v.toNat = 2 ^ 128 + s ∧ s < v.toNat ∧
      o.m_value.toNat ≤ 2 ^ 127 := by
  have hone : ((1 : BitVec 128) <<< 64).toNat = 2 ^ 64 := by
    decide
  have hone' : 1 < v := by
    rwa [BitVec.lt_def]
  have hwide : (v.setWidth 128).toNat = v.toNat := by
    rw [BitVec.toNat_setWidth, Nat.mod_eq_of_lt (by omega)]
  have hsmall := Nat.mod_lt (2 ^ 64) (Nat.zero_lt_of_lt hv)
  have hhalf : 2 ^ 64 / v.toNat ≤ 2 ^ 63 := Nat.div_le_of_le_mul (by omega)
  set d := divu ((1 : BitVec 128) <<< 64) (v.setWidth 128) with hd
  have hdivu : d.toNat = 2 ^ 128 / v.toNat := by
    rw [hd, divu_of_lt (by rw [hwide]; omega) (by rw [hone, hwide]; omega)
      (by rw [hone, hwide]; omega), hone, hwide, ← Nat.pow_add]
  have hquot := Nat.div_add_mod' (2 ^ 128) v.toNat
  have hrem := Nat.mod_lt (2 ^ 128) (Nat.zero_lt_of_lt hv)
  have hle : 2 ^ 128 / v.toNat ≤ 2 ^ 127 := Nat.div_le_of_le_mul (by omega)
  have htoInt : v.toInt = v.toNat := by
    rw [BitVec.toInt_eq_toNat_cond, if_pos (by omega)]
  have htmp := mulByInvert_ofInteger v (o := ⟨d⟩) (hdivu ▸ hle)
  rw [hdivu, htoInt, ← Nat.cast_mul, Nat.mul_comm] at htmp
  have htest : ((ofInteger v).mulByInvert ⟨d⟩).getInteger = 1 ↔
      2 ^ 128 % v.toNat = 0 := by
    rw [← BitVec.toInt_inj, htmp, Int.tdiv_eq_ediv_of_nonneg (by omega)]
    generalize 2 ^ 128 / v.toNat * v.toNat = p at hquot ⊢
    rw [show (1 : BitVec 64).toInt = 1 by decide]
    omega
  by_cases hexact : 2 ^ 128 % v.toNat = 0
  · refine ⟨⟨d⟩, 0, ?_, ?_, by omega, ?_⟩
    · rw [invert, if_pos hone', ← hd]
      simp [htest.mpr hexact]
    · rw [hdivu]
      omega
    · rw [hdivu]
      exact hle
  · have hthree : 3 ≤ v.toNat := by
      by_contra h
      have : v.toNat = 2 := by omega
      rw [this] at hexact
      norm_num at hexact
    have hthird : 2 ^ 128 / v.toNat * 3 ≤ 2 ^ 128 / v.toNat * v.toNat := Nat.mul_le_mul_left _ hthree
    have hnext : (d + 1).toNat = 2 ^ 128 / v.toNat + 1 := by
      rw [BitVec.toNat_add_of_lt] <;> rw [hdivu]
      · rfl
      · change 2 ^ 128 / v.toNat + 1 < 2 ^ 128
        omega
    refine ⟨⟨d + 1⟩, v.toNat - 2 ^ 128 % v.toNat, ?_, ?_,
      by omega, ?_⟩
    · rw [invert, if_pos hone', ← hd]
      exact congrArg some (if_pos (mt htest.mp hexact))
    · rw [hnext, Nat.add_mul]
      omega
    · rw [hnext]
      omega

/-- Multiplying a whole number by the reciprocal of another one divides it exactly. -/
theorem mulByInvert_invert {v : BitVec 64} (hv : 1 < v.toNat) (hv' : v.toNat < 2 ^ 63)
    (t : BitVec 64) : ∃ o, invert v = some o ∧
      ((ofInteger t).mulByInvert o).getInteger.toInt = t.toInt.tdiv v.toNat := by
  obtain ⟨o, s, hinvert, hmul, hs, hle⟩ := invert_toNat hv hv'
  refine ⟨o, hinvert, ?_⟩
  have ht : t.toInt.natAbs ≤ 2 ^ 63 := by
    have := BitVec.le_toInt t
    have := BitVec.toInt_lt (x := t)
    norm_num at *
    omega
  have hsmall : t.toInt.natAbs * s < 2 ^ 128 :=
    (Nat.mul_le_mul ht (by omega : s ≤ 2 ^ 63)).trans_lt (by norm_num)
  have hexact := reciprocal_exact hmul hsmall
  rw [mulByInvert_ofInteger t hle]
  have hnat : ((t.toInt.natAbs : ℤ) * o.m_value.toNat).tdiv (2 ^ 128) =
      (t.toInt.natAbs : ℤ).tdiv v.toNat := by
    rw [← Nat.cast_mul, show ((2 : ℤ) ^ 128) = ((2 ^ 128 : ℕ) : ℤ) by norm_num, ← Int.ofNat_tdiv,
      ← Int.ofNat_tdiv, hexact]
  rcases Int.natAbs_eq t.toInt with h | h <;> rw [h]
  · exact hnat
  · rw [neg_mul, Int.neg_tdiv, Int.neg_tdiv, hnat]

end Ns3Noc.HighPrecision
