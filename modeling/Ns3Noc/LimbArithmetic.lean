import Mathlib

/-!
# LimbArithmetic

Numbers of two limbs in base `B`: the product and the quotient that keep one limb of fraction, an
`or` in the place of the last addition, and the multiplication by a reciprocal that is rounded up.
-/
namespace Ns3Noc.LimbArithmetic

/-- The schoolbook product without its lowest limb. -/
theorem product_div (a b : ℕ) {B : ℕ} (hB : 0 < B) :
    a * b / B = a / B * (b / B) * B + (a % B * (b / B) + a / B * (b % B)) + a % B * (b % B) / B := by
  have hab : a * b = a % B * (b % B) +
      (a / B * (b / B) * B + (a % B * (b / B) + a / B * (b % B))) * B := by
    conv_lhs => rw [← Nat.div_add_mod a B, ← Nat.div_add_mod b B]
    ring
  rw [hab, Nat.add_mul_div_right _ _ hB]
  ring

/-- The integer part of the product is the product of the integer parts and what the two mixed
products and the product of the fractions carry into it. -/
theorem product_div_div (a b : ℕ) {B : ℕ} (hB : 0 < B) :
    a * b / B / B = a / B * (b / B) + (a % B * (b / B) + a / B * (b % B)) / B +
      ((a % B * (b / B) + a / B * (b % B)) % B + a % B * (b % B) / B) / B := by
  rw [product_div a b hB]
  set mid := a % B * (b / B) + a / B * (b % B)
  set low := a % B * (b % B) / B
  have hsum : a / B * (b / B) * B + mid + low =
      mid % B + low + (a / B * (b / B) + mid / B) * B := by
    conv_lhs => rw [← Nat.div_add_mod mid B]
    ring
  rw [hsum, Nat.add_mul_div_right _ _ hB, Nat.add_comm]

theorem fraction_product_lt {a b B : ℕ} (hB : 0 < B) : a % B * (b % B) / B < B := by
  rw [Nat.div_lt_iff_lt_mul hB]
  exact Nat.mul_lt_mul'' (Nat.mod_lt a hB) (Nat.mod_lt b hB)

/-- The long division of one more limb. -/
theorem quotient_div (a b B : ℕ) : a / b * B + a % b * B / b = a * B / b := by
  rcases Nat.eq_zero_or_pos b with rfl | hb
  · simp
  · have ha : a * B = a % b * B + a / b * B * b := by
      conv_lhs => rw [← Nat.div_add_mod a b]
      ring
    rw [ha, Nat.add_mul_div_right _ _ hb, Nat.add_comm]

/-- With the integer part of the divisor alone, the quotient times this part is not too large. -/
theorem short_quotient_mul_le (a b B : ℕ) :
    (a / b * B + a % b / (b / B)) * (b / B) ≤ a := by
  calc (a / b * B + a % b / (b / B)) * (b / B) =
        a / b * (b / B * B) + a % b / (b / B) * (b / B) := by ring
    _ ≤ a / b * b + a % b := Nat.add_le_add (Nat.mul_le_mul_left _ (Nat.div_mul_le_self b B))
        (Nat.div_mul_le_self _ _)
    _ = a := Nat.div_add_mod' a b

/-- What the integer part of the divisor alone adds to the quotient. -/
theorem short_quotient_error (r b B : ℕ) :
    ((r / (b / B) * b : ℕ) : ℤ) - (r * B : ℕ) =
      (r / (b / B) * (b % B) : ℕ) - (r % (b / B) * B : ℕ) := by
  have hb := Nat.div_add_mod b B
  have hr := Nat.div_add_mod r (b / B)
  generalize r / (b / B) = n, r % (b / B) = s at hr ⊢
  generalize b / B = h, b % B = l at hb hr
  subst hr hb
  push_cast
  ring

/-- The error of a quotient that counts in units of `B`. -/
theorem ratio_error_lt_iff (n x k : ℕ) {y B : ℕ} (hy : 0 < y) (hB : 0 < B) :
    |(n / B : ℚ) - x / y| < k / B ↔ |((n * y : ℕ) : ℤ) - (x * B : ℕ)| < (k * y : ℕ) := by
  have hy' : (0 : ℚ) < y := Nat.cast_pos.mpr hy
  have hB' : (0 : ℚ) < B := Nat.cast_pos.mpr hB
  have hdiff : (n / B : ℚ) - x / y = (n * y - x * B) / (B * y) := by
    field_simp
  have hbound : (k / B : ℚ) = k * y / (B * y) := by
    field_simp
  rw [hdiff, abs_div, abs_of_pos (mul_pos hB' hy'), hbound,
    div_lt_div_iff_of_pos_right (mul_pos hB' hy')]
  norm_cast

/-- The limbs of an `or`, when the second number has no low limb. -/
theorem or_limbs (w c y : ℕ) {lo : ℕ} (hlo : lo < 2 ^ w) :
    (2 ^ w * c + lo) ||| 2 ^ w * y = 2 ^ w * (c ||| y) + lo := by
  rw [Nat.two_pow_add_eq_or_of_lt hlo, Nat.two_pow_add_eq_or_of_lt hlo, Nat.or_right_comm]
  simp only [Nat.mul_comm (2 ^ w), ← Nat.shiftLeft_eq, Nat.shiftLeft_or_distrib]

/-- A carry of one that is put into place by an `or` is lost in an odd limb. -/
theorem or_eq_add_iff {c : ℕ} (hc : c ≤ 1) (y : ℕ) : c ||| y = c + y ↔ c = 0 ∨ y % 2 = 0 := by
  obtain rfl | rfl : c = 0 ∨ c = 1 := by omega
  · simp
  · have hor : 1 ||| y = 2 ^ 1 * (y / 2) + 1 := by
      have htwo := Nat.two_pow_add_eq_or_of_lt (i := 1) one_lt_two (y / 2)
      rcases Nat.mod_two_eq_zero_or_one y with h | h
      · rw [htwo, Nat.or_comm]
        congr 1
        omega
      · have hy : y = 2 ^ 1 * (y / 2) + 1 := by omega
        conv_lhs => rw [hy, htwo, Nat.or_comm, Nat.or_assoc, Nat.or_self]
        exact htwo.symm
    omega

/-- Every number up to the range divided by `v` is divided exactly by `v` when it is multiplied
by the reciprocal of `v`, rounded up by `s`. -/
theorem reciprocal_exact {t v N b s : ℕ} (hb : b * v = N + s) (hs : t * s < N) :
    t * b / N = t / v := by
  have hN : 0 < N := by omega
  rcases Nat.eq_zero_or_pos v with rfl | hv
  · have : N = 0 := by omega
    omega
  have ht : t * b * v = t * N + t * s := by
    rw [Nat.mul_assoc, hb, Nat.mul_add]
  apply Nat.div_eq_of_lt_le
  · apply Nat.le_of_mul_le_mul_right _ hv
    calc t / v * N * v = t / v * v * N := by ring
      _ ≤ t * N := Nat.mul_le_mul_right N (Nat.div_mul_le_self t v)
      _ ≤ t * b * v := by omega
  · apply Nat.lt_of_mul_lt_mul_right (a := v)
    calc t * b * v < (t + 1) * N := by rw [ht, Nat.succ_mul]; omega
      _ ≤ v * (t / v + 1) * N := Nat.mul_le_mul_right N (Nat.lt_mul_div_succ t hv)
      _ = (t / v + 1) * N * v := by ring

end Ns3Noc.LimbArithmetic
