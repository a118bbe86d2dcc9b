import Mathlib

/-!
# SequenceNumber

A number of fixed width that wraps around. One number is greater than another one if it is ahead of
it by at most half of the range, as RFC 3626 has it. The difference of two numbers is a value of the
signed type of the same width.
-/
namespace Ns3Noc

structure SequenceNumber (w : ℕ) where
  value : BitVec w
  deriving DecidableEq, Repr

namespace SequenceNumber
variable {w : ℕ}

/-- `std::numeric_limits<NUMERIC_TYPE>::max ()` -/
def maxValue (w : ℕ) : BitVec w := BitVec.allOnes w

def halfMaxValue (w : ℕ) : ℕ := (maxValue w).toNat / 2

/-- `operator +` with a value of the signed type. -/
def add (a : SequenceNumber w) (delta : ℤ) : SequenceNumber w := ⟨a.value + BitVec.ofInt w delta⟩

/-- `operator -` of two numbers. -/
def sub (a other : SequenceNumber w) : ℤ :=
  if a.value > other.value then
    let diff := a.value - other.value
    if diff.toNat < halfMaxValue w then diff.toInt
    else (-(maxValue w - a.value + 1 + other.value)).toInt
  else
    let diff := other.value - a.value
    if diff.toNat < halfMaxValue w then (-diff).toInt
    else (maxValue w - other.value + 1 + a.value).toInt

/-- `operator >` -/
def greater (a other : SequenceNumber w) : Bool :=
  (a.value > other.value ∧ (a.value - other.value).toNat ≤ halfMaxValue w) ∨
    (other.value > a.value ∧ (other.value - a.value).toNat > halfMaxValue w)

/-- `operator <` -/
def less (a other : SequenceNumber w) : Bool := !a.greater other ∧ a.value ≠ other.value

theorem maxValue_add_one (w : ℕ) : maxValue w + 1 = 0 := by
  rw [maxValue, ← BitVec.neg_one_eq_allOnes]
  simp

/-- All cases give the wrapped difference. -/
theorem sub_eq (a b : SequenceNumber w) : a.sub b = (a.value - b.value).toInt := by
  have hwrap (x y : BitVec w) : maxValue w - x + 1 + y = y - x := by
    linear_combination maxValue_add_one w
  rw [sub]
  split
  · dsimp only
    split
    · rfl
    · rw [hwrap, neg_sub]
  · dsimp only
    split
    · rw [neg_sub]
    · rw [hwrap]

theorem halfMaxValue_succ (n : ℕ) : halfMaxValue (n + 1) = 2 ^ n - 1 := by
  rw [halfMaxValue, maxValue, BitVec.toNat_allOnes, pow_succ]
  omega

theorem mod_of_le {x y m : ℕ} (h : y ≤ x) (hx : x < m) : (m - y + x) % m = x - y := by
  have hsum : m - y + x = m + (x - y) := by omega
  rw [hsum, Nat.add_mod_left, Nat.mod_eq_of_lt (by omega)]

theorem mod_of_lt {x y m : ℕ} (h : x < y) (hy : y ≤ m) : (m - y + x) % m = m - y + x :=
  Nat.mod_eq_of_lt (by omega)

/-- One number is greater where the difference is positive. Where two numbers are half of the range
apart, their difference is negative in both orders, and the smaller value is the greater one. -/
theorem greater_iff (a b : SequenceNumber w) : a.greater b = true ↔
    0 < a.sub b ∨ a.value < b.value ∧ b.value.toNat - a.value.toNat = 2 ^ (w - 1) := by
  cases w with
  | zero => simp [greater, sub_eq, Subsingleton.elim a.value b.value]
  | succ n =>
    have ha := a.value.isLt
    have hb := b.value.isLt
    rw [greater, decide_eq_true_eq, sub_eq, BitVec.toInt_eq_toNat_cond, BitVec.toNat_sub,
      BitVec.toNat_sub, halfMaxValue_succ, gt_iff_lt, BitVec.lt_def, gt_iff_lt, BitVec.lt_def,
      Nat.add_sub_cancel]
    rw [pow_succ] at ha hb ⊢
    have hpos : 0 < 2 ^ n := Nat.two_pow_pos n
    generalize 2 ^ n = half at *
    generalize a.value.toNat = x at *
    generalize b.value.toNat = y at *
    rcases Nat.lt_trichotomy x y with hlt | rfl | hgt
    · rw [mod_of_lt hlt hb.le, mod_of_le hlt.le hb]
      split <;> omega
    · rw [mod_of_le le_rfl ha]
      split <;> omega
    · rw [mod_of_le hgt.le ha, mod_of_lt hgt ha.le]
      split <;> omega

/-- Exactly one of three. -/
def OneOf (p q r : Prop) : Prop := p ∧ ¬q ∧ ¬r ∨ ¬p ∧ q ∧ ¬r ∨ ¬p ∧ ¬q ∧ r

theorem trichotomy (a b : SequenceNumber w) :
    OneOf (a.less b = true) (a = b) (a.greater b = true) := by
  have heq : a = b ↔ a.value = b.value := by
    rw [← SequenceNumber.mk.injEq]
  rw [OneOf, less, heq]
  by_cases hvalue : a.value = b.value
  · have hgreater : a.greater b = false := by simp [greater, hvalue]
    simp [hvalue, hgreater]
  · cases a.greater b <;> simp [hvalue]

theorem add_sub (a b : SequenceNumber w) : b.add (a.sub b) = a := by
  rw [add, sub_eq, BitVec.ofInt_toInt, add_sub_cancel]

/-- A step ahead by at most half of the range. -/
theorem greater_add (a : SequenceNumber w) {d : ℕ} (hpos : 0 < d) (hd : d ≤ halfMaxValue w) :
    (a.add d).greater a = true ∧ (a.add d).sub a = d := by
  cases w with
  | zero => simp [halfMaxValue] at hd; omega
  | succ n =>
    rw [halfMaxValue_succ] at hd
    have hone : 0 < 2 ^ n := Nat.two_pow_pos n
    have hstep : (a.add d).sub a = d := by
      rw [sub_eq, add, add_sub_cancel_left, BitVec.toInt_ofInt, pow_succ]
      exact Int.bmod_eq_of_le (by omega) (by omega)
    refine ⟨(greater_iff _ _).mpr (Or.inl ?_), hstep⟩
    rw [hstep]
    exact_mod_cast hpos

/-- What comparison, difference and sum have to do with each other, at every width. -/
theorem arithmetic (w : ℕ) (a b : SequenceNumber w) :
    OneOf (a.less b = true) (a = b) (a.greater b = true) ∧ b.add (a.sub b) = a ∧
      (a.greater b = true ↔
        0 < a.sub b ∨ a.value < b.value ∧ b.value.toNat - a.value.toNat = 2 ^ (w - 1)) ∧
      ∀ d : ℕ, 0 < d → d ≤ (2 ^ w - 1) / 2 → (a.add d).greater a = true ∧ (a.add d).sub a = d := by
  refine ⟨trichotomy a b, add_sub a b, greater_iff a b, fun d hpos hd => ?_⟩
  apply greater_add a hpos
  rwa [halfMaxValue, maxValue, BitVec.toNat_allOnes]

/-- Zero is greater than the number half of the range ahead, and the difference is negative. -/
theorem not_greater_iff_pos :
    ¬∀ (w : ℕ) (a b : SequenceNumber w), a.greater b = true ↔ 0 < a.sub b := by
  intro h
  have hhalf := (h 16 ⟨0⟩ ⟨0x8000⟩).mp (by decide)
  exact absurd hhalf (by decide)

end SequenceNumber

end Ns3Noc
