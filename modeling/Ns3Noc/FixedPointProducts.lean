import Ns3Noc.HighPrecision
import Mathlib

/-!
# FixedPointProducts

The product of two numbers of 64 integer and 64 fractional bits. The partial products of the middle
are added to the low one, but the carry of this sum is put into the integer part by an `or`.
-/
namespace Ns3Noc.HighPrecision
open LimbArithmetic

section Unsigned
variable (a b : BitVec 128)

/-- What the product of the integer parts and the mixed products bring into the integer part. -/
def integerPart (a b : ℕ) : ℕ :=
  a / 2 ^ 64 * (b / 2 ^ 64) + (a % 2 ^ 64 * (b / 2 ^ 64) + a / 2 ^ 64 * (b % 2 ^ 64)) / 2 ^ 64

/-- The two low halves that are added before the `or`. -/
def lowSum (a b : ℕ) : ℕ :=
  (a % 2 ^ 64 * (b / 2 ^ 64) + a / 2 ^ 64 * (b % 2 ^ 64)) % 2 ^ 64 + a % 2 ^ 64 * (b % 2 ^ 64) / 2 ^ 64

theorem integer_mul_le {a b : ℕ} (ha : a ≤ 2 ^ 127) (hb : b ≤ 2 ^ 127) :
    a / 2 ^ 64 * (b / 2 ^ 64) ≤ 2 ^ 63 * 2 ^ 63 :=
  Nat.mul_le_mul (by omega) (by omega)

theorem lowPart_lt (a b : ℕ) : a % 2 ^ 64 * (b % 2 ^ 64) < 2 ^ 64 * 2 ^ 64 :=
  Nat.mul_lt_mul'' (Nat.mod_lt a (by norm_num)) (Nat.mod_lt b (by norm_num))

theorem midPart_lt {a b : ℕ} (ha : a ≤ 2 ^ 127) (hb : b ≤ 2 ^ 127) :
    a % 2 ^ 64 * (b / 2 ^ 64) + a / 2 ^ 64 * (b % 2 ^ 64) < 2 ^ 128 := by
  have h1 : a % 2 ^ 64 * (b / 2 ^ 64) ≤ (2 ^ 64 - 1) * 2 ^ 63 :=
    Nat.mul_le_mul (by omega) (by omega)
  have h2 : a / 2 ^ 64 * (b % 2 ^ 64) ≤ 2 ^ 63 * (2 ^ 64 - 1) :=
    Nat.mul_le_mul (by omega) (by omega)
  omega

theorem hiPart_toNat {a b : BitVec 128} (ha : a.toNat ≤ 2 ^ 127) (hb : b.toNat ≤ 2 ^ 127) :
    (((a >>> 64) &&& maskLo) * ((b >>> 64) &&& maskLo)).toNat =
      a.toNat / 2 ^ 64 * (b.toNat / 2 ^ 64) := by
  have hle := integer_mul_le ha hb
  rw [BitVec.toNat_mul_of_lt] <;> rw [shift_and_maskLo, shift_and_maskLo]
  omega

theorem loPart_toNat (a b : BitVec 128) :
    ((a &&& maskLo) * (b &&& maskLo)).toNat = a.toNat % 2 ^ 64 * (b.toNat % 2 ^ 64) := by
  have hlt := lowPart_lt a.toNat b.toNat
  rw [BitVec.toNat_mul_of_lt] <;> rw [and_maskLo, and_maskLo]
  omega

theorem midPart_toNat {a b : BitVec 128} (ha : a.toNat ≤ 2 ^ 127) (hb : b.toNat ≤ 2 ^ 127) :
    ((a &&& maskLo) * ((b >>> 64) &&& maskLo) + ((a >>> 64) &&& maskLo) * (b &&& maskLo)).toNat =
      a.toNat % 2 ^ 64 * (b.toNat / 2 ^ 64) + a.toNat / 2 ^ 64 * (b.toNat % 2 ^ 64) := by
  have hlt := midPart_lt ha hb
  have h1 : ((a &&& maskLo) * ((b >>> 64) &&& maskLo)).toNat =
      a.toNat % 2 ^ 64 * (b.toNat / 2 ^ 64) := by
    rw [BitVec.toNat_mul_of_lt] <;> rw [and_maskLo, shift_and_maskLo]
    omega
  have h2 : (((a >>> 64) &&& maskLo) * (b &&& maskLo)).toNat =
      a.toNat / 2 ^ 64 * (b.toNat % 2 ^ 64) := by
    rw [BitVec.toNat_mul_of_lt] <;> rw [shift_and_maskLo, and_maskLo]
    omega
  rw [BitVec.toNat_add_of_lt] <;> rw [h1, h2]
  exact hlt

theorem umul_eq_none_iff {a b : BitVec 128} (ha : a.toNat ≤ 2 ^ 127) (hb : b.toNat ≤ 2 ^ 127) :
    umul a b = none ↔ 2 ^ 64 ≤ a.toNat / 2 ^ 64 * (b.toNat / 2 ^ 64) := by
  have habort : umul a b = none ↔
      ((a >>> 64) &&& maskLo) * ((b >>> 64) &&& maskLo) &&& maskHi ≠ 0 := by
    simp [umul]
  rw [habort, ne_eq, ← BitVec.toNat_inj, and_maskHi, hiPart_toNat ha hb]
  simp only [BitVec.ofNat_eq_ofNat, BitVec.toNat_ofNat, Nat.zero_mod]
  omega

theorem umul_toNat {a b r : BitVec 128} (ha : a.toNat ≤ 2 ^ 127) (hb : b.toNat ≤ 2 ^ 127)
    (hint : integerPart a.toNat b.toNat < 2 ^ 64) (h : umul a b = some r) :
    r.toNat = lowSum a.toNat b.toNat ||| 2 ^ 64 * integerPart a.toNat b.toNat := by
  have hmid := midPart_toNat ha hb
  have hlow := loPart_toNat a b
  have hhi := hiPart_toNat ha hb
  have hlt := lowPart_lt a.toNat b.toNat
  rw [umul] at h
  split_ifs at h
  rw [← Option.some.inj h]
  clear h
  generalize (a &&& maskLo) * ((b >>> 64) &&& maskLo) + ((a >>> 64) &&& maskLo) * (b &&& maskLo) =
    midPart at hmid ⊢
  generalize ((a >>> 64) &&& maskLo) * ((b >>> 64) &&& maskLo) = hiPart at hhi ⊢
  generalize (a &&& maskLo) * (b &&& maskLo) = loPart at hlow ⊢
  have hfirst : ((loPart >>> 64) + (midPart &&& maskLo)).toNat = lowSum a.toNat b.toNat := by
    rw [BitVec.toNat_add_of_lt] <;> rw [shift_toNat, and_maskLo, hlow, hmid]
    · rw [lowSum, Nat.add_comm]
    · omega
  have hshift : ((hiPart &&& maskLo) <<< 64).toNat = 2 ^ 64 * hiPart.toNat := by
    rw [BitVec.toNat_shiftLeft, and_maskLo, Nat.shiftLeft_eq, hhi]
    rw [integerPart] at hint
    omega
  have hsecond : (((hiPart &&& maskLo) <<< 64) + (midPart &&& maskHi)).toNat =
      2 ^ 64 * integerPart a.toNat b.toNat := by
    rw [BitVec.toNat_add_of_lt] <;> rw [hshift, and_maskHi, hmid, hhi]
    · rw [integerPart, Nat.mul_add]
    · rw [integerPart] at hint
      omega
  rw [BitVec.toNat_or, hfirst, hsecond]

/-- The product is right when nothing is carried into the integer part, or an even number there. -/
theorem umul_toNat_iff {a b r : BitVec 128} (ha : a.toNat ≤ 2 ^ 127) (hb : b.toNat ≤ 2 ^ 127)
    (hfit : a.toNat * b.toNat < 2 ^ 192) (h : umul a b = some r) :
    r.toNat = a.toNat * b.toNat / 2 ^ 64 ↔
      a.toNat * b.toNat / 2 ^ 128 = integerPart a.toNat b.toNat ∨
        integerPart a.toNat b.toNat % 2 = 0 := by
  have hquot : a.toNat * b.toNat / 2 ^ 64 =
      2 ^ 64 * integerPart a.toNat b.toNat + lowSum a.toNat b.toNat := by
    rw [product_div _ _ (B := 2 ^ 64) (by norm_num), integerPart, lowSum]
    omega
  have hlow : lowSum a.toNat b.toNat < 2 ^ 64 + 2 ^ 64 :=
    Nat.add_lt_add (Nat.mod_lt _ (by norm_num)) (fraction_product_lt (by norm_num))
  have hint : a.toNat * b.toNat / 2 ^ 128 =
      integerPart a.toNat b.toNat + lowSum a.toNat b.toNat / 2 ^ 64 := by
    omega
  have hlo : lowSum a.toNat b.toNat % 2 ^ 64 < 2 ^ 64 := Nat.mod_lt _ (by norm_num)
  have hor := or_limbs 64 (lowSum a.toNat b.toNat / 2 ^ 64) (integerPart a.toNat b.toNat) hlo
  rw [Nat.div_add_mod] at hor
  rw [umul_toNat ha hb (by omega) h, hor, hquot, hint, Nat.add_eq_left,
    ← or_eq_add_iff (by omega) (integerPart a.toNat b.toNat)]
  omega

end Unsigned

section Signed
variable (a b : HighPrecision)

theorem toInt_mul (x y : BitVec 128) :
    x.toInt * y.toInt = if outputSign x y then -(((magnitude x).toNat * (magnitude y).toNat : ℕ) : ℤ)
      else ((magnitude x).toNat * (magnitude y).toNat : ℕ) := by
  rw [toInt_eq x, toInt_eq y, outputSign]
  cases x.msb <;> cases y.msb <;> simp

theorem value_mul :
    a.value * b.value = ((a.m_value.toInt * b.m_value.toInt : ℤ) : ℚ) / 2 ^ 128 := by
  rw [value, value]
  push_cast
  ring

/-- What the product keeps of the exact one. -/
theorem trunc_value_mul :
    trunc (a.value * b.value * 2 ^ 64) = (a.m_value.toInt * b.m_value.toInt).tdiv (2 ^ 64 : ℕ) := by
  rw [← trunc_div, value_mul]
  congr 1
  push_cast
  ring

theorem fits_mul_iff : Fits (a.value * b.value) ↔
    (magnitude a.m_value).toNat * (magnitude b.m_value).toNat <
      2 ^ 191 + (outputSign a.m_value b.m_value).toNat := by
  have hprod := toInt_mul a.m_value b.m_value
  rw [Fits, value_mul, le_div_iff₀ (by positivity), div_lt_iff₀ (by positivity)]
  generalize a.m_value.toInt * b.m_value.toInt = p at hprod ⊢
  have hcast : (-2 ^ 63 * 2 ^ 128 ≤ (p : ℚ) ∧ (p : ℚ) < 2 ^ 63 * 2 ^ 128) ↔
      -2 ^ 191 ≤ p ∧ p < 2 ^ 191 := by
    norm_num
    norm_cast
  rw [hcast, hprod]
  cases outputSign a.m_value b.m_value <;> simp <;> omega

/-- No carry into the integer part is lost. -/
def CarryKept (a b : HighPrecision) : Prop :=
  let x := (magnitude a.m_value).toNat
  let y := (magnitude b.m_value).toNat
  x * y / 2 ^ 128 = integerPart x y ∨ integerPart x y % 2 = 0

/-- The product of the integer parts does not fit in 64 bits without a sign. -/
def IntegersOverflow (a b : HighPrecision) : Prop :=
  2 ^ 64 ≤ (magnitude a.m_value).toNat / 2 ^ 64 * ((magnitude b.m_value).toNat / 2 ^ 64)

instance : Decidable (CarryKept a b) := inferInstanceAs (Decidable (_ ∨ _))

theorem mul_eq_none_iff : a.mul b = none ↔ IntegersOverflow a b := by
  rw [mul, Option.map_eq_none_iff, umul_eq_none_iff (magnitude_le _) (magnitude_le _),
    IntegersOverflow]

theorem mul_value_iff (hfit : Fits (a.value * b.value)) :
    (∃ s, a.mul b = some s ∧ s.value = trunc (a.value * b.value * 2 ^ 64) / 2 ^ 64) ↔
      CarryKept a b := by
  have hlt := (fits_mul_iff a b).mp hfit
  have hint := product_div_div (magnitude a.m_value).toNat (magnitude b.m_value).toNat
    (B := 2 ^ 64) (by norm_num)
  have hbool := Bool.toNat_le (outputSign a.m_value b.m_value)
  cases hu : umul (magnitude a.m_value) (magnitude b.m_value) with
  | none =>
    rw [umul_eq_none_iff (magnitude_le _) (magnitude_le _)] at hu
    omega
  | some r =>
    have htrunc : (a.m_value.toInt * b.m_value.toInt).tdiv (2 ^ 64 : ℕ) =
        if outputSign a.m_value b.m_value then
          -(((magnitude a.m_value).toNat * (magnitude b.m_value).toNat / 2 ^ 64 : ℕ) : ℤ)
        else ((magnitude a.m_value).toNat * (magnitude b.m_value).toNat / 2 ^ 64 : ℕ) := by
      rw [toInt_mul]
      split_ifs
      · rw [Int.neg_tdiv, Int.ofNat_tdiv]
      · rw [Int.ofNat_tdiv]
    have hsome : a.mul b = some ⟨if outputSign a.m_value b.m_value then -r else r⟩ := by
      rw [mul, hu, Option.map_some]
    rw [trunc_value_mul, htrunc, hsome]
    simp only [Option.some.injEq, exists_eq_left', value_eq_iff]
    rw [signed_toInt_iff _ (by omega), umul_toNat_iff (magnitude_le _) (magnitude_le _) (by omega) hu,
      CarryKept]

/-- The product of every two numbers whose product fits is the exact one truncated toward zero, and
every product with an integer part out of range is refused, if no carry is lost and the product of
the integer parts is out of range too. -/
theorem mul_exact_iff :
    ((Fits (a.value * b.value) →
        ∃ s, a.mul b = some s ∧ s.value = trunc (a.value * b.value * 2 ^ 64) / 2 ^ 64) ∧
      (¬Fits (trunc (a.value * b.value)) → a.mul b = none)) ↔
    (Fits (a.value * b.value) → CarryKept a b) ∧
      (¬Fits (trunc (a.value * b.value)) → IntegersOverflow a b) := by
  rw [mul_eq_none_iff]
  apply and_congr_left'
  exact forall_congr' (mul_value_iff a b)

/-- The product of 1.375 and 1.5 comes out as 1.0625. -/
theorem not_mul_exact :
    ¬∀ a b : HighPrecision, (Fits (a.value * b.value) →
        ∃ s, a.mul b = some s ∧ s.value = trunc (a.value * b.value * 2 ^ 64) / 2 ^ 64) ∧
      (¬Fits (trunc (a.value * b.value)) → a.mul b = none) := by
  intro h
  have hfit := (fits_mul_iff (ofHighLow 1 (3 * 2 ^ 61)) (ofHighLow 1 (2 ^ 63))).mpr (by decide +kernel)
  have hkept := (mul_value_iff _ _ hfit).mp ((h _ _).1 hfit)
  exact absurd hkept (by decide +kernel)

example : (ofHighLow 1 (3 * 2 ^ 61)).mul (ofHighLow 1 (2 ^ 63)) = some (ofHighLow 1 (2 ^ 60)) := by
  decide +kernel

end Signed

end Ns3Noc.HighPrecision
