import Ns3Noc.LimbArithmetic
import Mathlib

/-!
# HighPrecision

A signed number of 64 integer and 64 fractional bits, held in an integer of 128 bits.
-/
namespace Ns3Noc

structure HighPrecision where
  m_value : BitVec 128
  deriving DecidableEq, Repr

namespace HighPrecision

/-- `MASK_LO` -/
def maskLo : BitVec 128 := ((1 : BitVec 128) <<< 64) - 1

/-- `MASK_HI` -/
def maskHi : BitVec 128 := ~~~maskLo

/-- `HighPrecision (int64_t high, uint64_t low)` -/
def ofHighLow (high low : BitVec 64) : HighPrecision :=
  let is_negative := high.msb
  let m_value := (if is_negative then -high else high).signExtend 128
  let m_value := (m_value <<< 64) + low.setWidth 128
  ⟨if is_negative then -m_value else m_value⟩

/-- `HighPrecision (int64_t value, bool dummy)` -/
def ofInteger (value : BitVec 64) : HighPrecision :=
  ⟨value.signExtend 128 <<< 64⟩

/-- What `OUTPUT_SIGN` leaves in `ua` and `ub`. -/
def magnitude (s : BitVec 128) : BitVec 128 :=
  if s.msb then -s else s

/-- The value of `OUTPUT_SIGN`. -/
def outputSign (sa sb : BitVec 128) : Bool :=
  (sa.msb && !sb.msb) || (!sa.msb && sb.msb)

def getInteger (hp : HighPrecision) : BitVec 64 :=
  let negative := hp.m_value.msb
  let v := if negative then -hp.m_value else hp.m_value
  let retval := (v.sshiftRight 64).setWidth 64
  if negative then -retval else retval

def getHigh (hp : HighPrecision) : BitVec 64 := hp.getInteger

def getLow (hp : HighPrecision) : BitVec 64 :=
  let negative := hp.m_value.msb
  let v := if negative then -hp.m_value else hp.m_value
  (v &&& maskLo).setWidth 64

def umul (a b : BitVec 128) : Option (BitVec 128) :=
  let aL := a &&& maskLo
  let bL := b &&& maskLo
  let aH := (a >>> 64) &&& maskLo
  let bH := (b >>> 64) &&& maskLo
  let loPart := aL * bL
  let midPart := aL * bH + aH * bL
  let result := (loPart >>> 64) + (midPart &&& maskLo)
  let hiPart := aH * bH
  let result := result ||| (((hiPart &&& maskLo) <<< 64) + (midPart &&& maskHi))
  if hiPart &&& maskHi ≠ 0 then none else some result

/-- `none` is the abort for a multiplication overflow. -/
def mul (hp o : HighPrecision) : Option HighPrecision :=
  let negResult := outputSign hp.m_value o.m_value
  (umul (magnitude hp.m_value) (magnitude o.m_value)).map fun result =>
    ⟨if negResult then -result else result⟩

def divu (a b : BitVec 128) : BitVec 128 :=
  let quo := a / b
  let rem := a % b
  let result := quo <<< 64
  let tmp := rem >>> 64
  let quo := if tmp = 0 then (rem <<< 64) / b else rem / (b >>> 64)
  result + quo

def div (hp o : HighPrecision) : HighPrecision :=
  let negResult := outputSign hp.m_value o.m_value
  let result := divu (magnitude hp.m_value) (magnitude o.m_value)
  ⟨if negResult then -result else result⟩

def umulByInvert (a b : BitVec 128) : BitVec 128 :=
  let ah := a >>> 64
  let bh := b >>> 64
  let al := a &&& maskLo
  let bl := b &&& maskLo
  let mid := (ah * bl + al * bh) >>> 64
  ah * bh + mid

def mulByInvert (hp o : HighPrecision) : HighPrecision :=
  let negResult := hp.m_value.msb
  let a := if negResult then -hp.m_value else hp.m_value
  let result := umulByInvert a o.m_value
  ⟨if negResult then -result else result⟩

/-- `none` is the failed assertion that `v` is above one. -/
def invert (v : BitVec 64) : Option HighPrecision :=
  if 1 < v then
    let result : HighPrecision := ⟨divu ((1 : BitVec 128) <<< 64) (v.setWidth 128)⟩
    let tmp := (ofInteger v).mulByInvert result
    some (if tmp.getInteger ≠ 1 then ⟨result.m_value + 1⟩ else result)
  else none

section Words
variable (a b : BitVec 128)

@[simp]
theorem maskLo_toNat : maskLo.toNat = 2 ^ 64 - 1 := by
  decide

theorem and_maskLo : (a &&& maskLo).toNat = a.toNat % 2 ^ 64 := by
  rw [BitVec.toNat_and, maskLo_toNat, Nat.and_two_pow_sub_one_eq_mod]

theorem shift_toNat : (a >>> 64).toNat = a.toNat / 2 ^ 64 := by
  rw [BitVec.toNat_ushiftRight, Nat.shiftRight_eq_div_pow]

theorem and_maskHi : (a &&& maskHi).toNat = 2 ^ 64 * (a.toNat / 2 ^ 64) := by
  have hmask : ∀ i < 128, maskHi.getLsbD i = decide (64 ≤ i) := by
    decide
  have hshift : a &&& maskHi = (a >>> 64) <<< 64 := by
    apply BitVec.eq_of_getLsbD_eq
    intro i hi
    rw [BitVec.getLsbD_and, hmask i hi, BitVec.getLsbD_shiftLeft, BitVec.getLsbD_ushiftRight]
    by_cases h : 64 ≤ i
    · simp [h, hi, Nat.not_lt.mpr h, Nat.add_sub_cancel' h]
    · simp [h, Nat.not_le.mp h]
  rw [hshift, BitVec.toNat_shiftLeft, shift_toNat, Nat.shiftLeft_eq]
  omega

theorem shift_lt : a.toNat / 2 ^ 64 < 2 ^ 64 := by
  have := a.isLt
  omega

theorem shift_and_maskLo : ((a >>> 64) &&& maskLo).toNat = a.toNat / 2 ^ 64 := by
  rw [and_maskLo, shift_toNat, Nat.mod_eq_of_lt (shift_lt a)]

theorem magnitude_toNat : (magnitude a).toNat = a.toInt.natAbs := by
  rw [magnitude]
  split_ifs with h
  · rw [BitVec.toNat_neg, BitVec.toInt_eq_msb_cond, if_pos h]
    have := a.isLt
    have := BitVec.msb_eq_true_iff_two_mul_ge.mp h
    omega
  · rw [BitVec.toInt_eq_msb_cond, if_neg h]
    rfl

theorem toInt_eq : a.toInt = if a.msb then -((magnitude a).toNat : ℤ) else (magnitude a).toNat := by
  have hneg := BitVec.toInt_neg_iff (x := a)
  have hmsb := BitVec.msb_eq_true_iff_two_mul_ge (x := a)
  rw [magnitude_toNat]
  split_ifs with h
  · have := hneg.mpr (hmsb.mp h)
    omega
  · have : ¬a.toInt < 0 := fun hlt => h (hmsb.mpr (hneg.mp hlt))
    omega

theorem magnitude_le : (magnitude a).toNat ≤ 2 ^ 127 := by
  rw [magnitude_toNat]
  have := BitVec.le_toInt a
  have := BitVec.toInt_lt (x := a)
  norm_num at *
  omega

/-- Putting the sign back gives the signed number, when there is room for it. -/
theorem signed_toInt {w : ℕ} (neg : Bool) {r : BitVec (w + 1)} (hr : r.toNat < 2 ^ w + neg.toNat) :
    (if neg then -r else r).toInt = if neg then -(r.toNat : ℤ) else r.toNat := by
  have hpow : 2 ^ (w + 1) = 2 * 2 ^ w := Nat.pow_succ'
  have hpos := Nat.two_pow_pos w
  cases neg with
  | false =>
    rw [Bool.toNat_false] at hr
    rw [if_neg Bool.false_ne_true, if_neg Bool.false_ne_true, BitVec.toInt_eq_toNat_cond,
      if_pos (by omega)]
  | true =>
    rw [Bool.toNat_true] at hr
    rw [if_pos rfl, if_pos rfl, BitVec.toInt_eq_toNat_cond, BitVec.toNat_neg]
    rcases Nat.eq_zero_or_pos r.toNat with h0 | h0
    · rw [h0, Nat.sub_zero, Nat.mod_self, if_pos (by omega), Nat.cast_zero, neg_zero]
    · rw [Nat.mod_eq_of_lt (by omega)]
      split_ifs <;> omega

theorem signed_toInt_iff (neg : Bool) {r : BitVec 128} {n : ℕ} (hn : n < 2 ^ 127 + neg.toNat) :
    (if neg then -r else r).toInt = (if neg then -(n : ℤ) else n) ↔ r.toNat = n := by
  have hlt : n < 2 ^ 128 := by
    have := Bool.toNat_le neg
    omega
  have hnat : (BitVec.ofNat 128 n).toNat = n := by
    rw [BitVec.toNat_ofNat, Nat.mod_eq_of_lt hlt]
  have hsigned := signed_toInt neg (r := BitVec.ofNat 128 n) (hnat.symm ▸ hn)
  rw [hnat] at hsigned
  rw [← hsigned, BitVec.toInt_inj]
  constructor
  · intro h
    cases neg with
    | false => simpa [hnat] using congrArg BitVec.toNat h
    | true => simpa [hnat] using congrArg BitVec.toNat (neg_injective h)
  · intro h
    rw [← h, BitVec.ofNat_toNat, BitVec.setWidth_eq]

end Words

section Integers

theorem toInt_ofInteger (t : BitVec 64) : (ofInteger t).m_value.toInt = t.toInt * 2 ^ 64 := by
  have hlow := BitVec.le_toInt t
  have hhigh := BitVec.toInt_lt (x := t)
  have hshift : (ofInteger t).m_value = BitVec.ofInt 128 (t.toInt * 2 ^ 64) := by
    rw [ofInteger, BitVec.signExtend, BitVec.shiftLeft_eq_mul_twoPow, BitVec.ofInt_mul]
    congr 1
  rw [hshift, BitVec.toInt_ofInt, Int.bmod_eq_of_le] <;> norm_num at * <;> omega

/-- The integer part is found from the magnitude. -/
theorem getInteger_toInt (hp : HighPrecision) :
    hp.getInteger.toInt = hp.m_value.toInt.tdiv (2 ^ 64) := by
  have hle := magnitude_le hp.m_value
  rcases hle.eq_or_lt with heq | hlt
  · have hmin : hp.m_value = BitVec.intMin 128 := by
      rw [magnitude_toNat] at heq
      rw [← BitVec.toInt_inj, BitVec.toInt_intMin]
      have := BitVec.toInt_lt (x := hp.m_value)
      norm_num at *
      omega
    rw [getInteger, hmin]
    decide +kernel
  · have hmsb : (magnitude hp.m_value).msb = false := by
      rw [BitVec.msb_eq_false_iff_two_mul_lt]
      omega
    have hv : (((magnitude hp.m_value).sshiftRight 64).setWidth 64).toNat =
        (magnitude hp.m_value).toNat / 2 ^ 64 := by
      rw [BitVec.sshiftRight_eq_of_msb_false hmsb, BitVec.toNat_setWidth, shift_toNat,
        Nat.mod_eq_of_lt (shift_lt _)]
    have hroom := Bool.toNat_le hp.m_value.msb
    have hsigned := signed_toInt (w := 63) hp.m_value.msb
      (r := ((magnitude hp.m_value).sshiftRight 64).setWidth 64) (by omega)
    rw [toInt_eq hp.m_value, getInteger, ← magnitude, hsigned, hv]
    split_ifs
    · rw [Int.neg_tdiv]
      rfl
    · rfl

end Integers

section Values

/-- The number, in units of one. -/
def value (hp : HighPrecision) : ℚ := hp.m_value.toInt / 2 ^ 64

/-- The number has a representation with 64 integer bits, but for its fraction. -/
def Fits (q : ℚ) : Prop := -2 ^ 63 ≤ q ∧ q < 2 ^ 63

/-- The next integer toward zero. -/
def trunc (q : ℚ) : ℤ := if 0 ≤ q then ⌊q⌋ else ⌈q⌉

theorem trunc_div (m : ℤ) (n : ℕ) : trunc (m / n) = m.tdiv n := by
  rcases Nat.eq_zero_or_pos n with rfl | hn
  · simp [trunc]
  have hn' : (0 : ℚ) < n := by exact_mod_cast hn
  rw [trunc]
  split_ifs with h
  · have hm : 0 ≤ m := by
      by_contra hm
      have hlt : (m : ℚ) < 0 := by exact_mod_cast not_le.mp hm
      exact absurd h (not_le.mpr (div_neg_of_neg_of_pos hlt hn'))
    rw [Rat.floor_intCast_div_natCast, Int.tdiv_eq_ediv_of_nonneg hm]
  · have hm : 0 ≤ -m := by
      have : ¬0 ≤ m := fun h0 => h (div_nonneg (by exact_mod_cast h0) hn'.le)
      omega
    have hneg : (m : ℚ) / n = -(((-m : ℤ) : ℚ) / n) := by
      push_cast
      ring
    rw [hneg, Int.ceil_neg, Rat.floor_intCast_div_natCast, ← Int.tdiv_eq_ediv_of_nonneg hm,
      Int.neg_tdiv, neg_neg]

theorem value_eq_iff (hp : HighPrecision) (z : ℤ) :
    hp.value = z / 2 ^ 64 ↔ hp.m_value.toInt = z := by
  rw [value, div_left_inj' (by positivity)]
  norm_cast

end Values

end HighPrecision
end Ns3Noc
