import Ns3Noc.FixedPointReciprocals
import Mathlib

/-!
# TimeConversion

Times in steps of a global resolution, and their conversion from and to whole numbers of a unit.
-/
namespace Ns3Noc
open HighPrecision

/-- `Time::Unit` -/
inductive TimeUnit
  | S
  | MS
  | US
  | NS
  | PS
  | FS
  deriving DecidableEq, Repr

namespace TimeUnit

/-- The number of decimal digits of the unit in femtoseconds. -/
def power : TimeUnit → ℕ
  | S => 15
  | MS => 12
  | US => 9
  | NS => 6
  | PS => 3
  | FS => 0

end TimeUnit

structure Time where
  m_data : HighPrecision
  deriving DecidableEq, Repr

namespace Time

structure Information where
  toMul : Bool
  fromMul : Bool
  factor : BitVec 64
  timeTo : HighPrecision
  timeFrom : HighPrecision
  deriving DecidableEq, Repr

/-- The entry that `SetResolution` makes for a unit. -/
def information (resolution unit : TimeUnit) : Option Information :=
  let shift : ℤ := (unit.power : ℤ) - resolution.power
  let factor := BitVec.ofNat 64 (10 ^ shift.natAbs)
  if shift = 0 then
    some
      { timeFrom := ofInteger 1
        timeTo := ofInteger 1
        toMul := true
        fromMul := true
        factor := factor }
  else if shift > 0 then
    (invert factor).map fun timeTo =>
      { timeFrom := ofInteger factor
        timeTo := timeTo
        toMul := false
        fromMul := true
        factor := factor }
  else
    (invert factor).map fun timeFrom =>
      { timeFrom := timeFrom
        timeTo := ofInteger factor
        toMul := true
        fromMul := false
        factor := factor }

/-- `From` -/
def ofHighPrecision (resolution : TimeUnit) (value : HighPrecision) (timeUnit : TimeUnit) :
    Option Time := do
  let info ← information resolution timeUnit
  if info.fromMul then
    return ⟨← value.mul info.timeFrom⟩
  else
    return ⟨value.mulByInvert info.timeFrom⟩

def fromInteger (resolution : TimeUnit) (value : BitVec 64) (timeUnit : TimeUnit) : Option Time := do
  let info ← information resolution timeUnit
  if info.fromMul then
    return ⟨ofInteger (value * info.factor)⟩
  else
    ofHighPrecision resolution (ofInteger value) timeUnit

def toInteger (resolution : TimeUnit) (time : Time) (timeUnit : TimeUnit) : Option (BitVec 64) := do
  let info ← information resolution timeUnit
  let v := time.m_data.getInteger
  return if info.toMul then v * info.factor else v / info.factor

section Units
variable {resolution unit : TimeUnit}

theorem power_injective : Function.Injective TimeUnit.power := by
  intro a b
  cases a <;> cases b <;> simp [TimeUnit.power]

/-- The powers of two units are three digits apart. -/
theorem power_add_three_le (h : resolution.power < unit.power) :
    resolution.power + 3 ≤ unit.power ∧ unit.power ≤ 15 := by
  cases resolution <;> cases unit <;> simp [TimeUnit.power] at h ⊢

/-- How many steps of the resolution the unit has. -/
def unitFactor (resolution unit : TimeUnit) : ℕ := 10 ^ (unit.power - resolution.power)

theorem unitFactor_bounds (h : resolution.power < unit.power) :
    1000 ≤ unitFactor resolution unit ∧ unitFactor resolution unit ≤ 10 ^ 15 := by
  obtain ⟨hthree, hmax⟩ := power_add_three_le h
  have hlow : 10 ^ 3 ≤ unitFactor resolution unit :=
    Nat.pow_le_pow_right (by norm_num) (by omega)
  have hhigh : unitFactor resolution unit ≤ 10 ^ 15 :=
    Nat.pow_le_pow_right (by norm_num) (by omega)
  exact ⟨hlow, hhigh⟩

theorem unitFactor_toNat (h : resolution.power < unit.power) :
    (BitVec.ofNat 64 (unitFactor resolution unit)).toNat = unitFactor resolution unit := by
  have hle := (unitFactor_bounds h).2
  rw [BitVec.toNat_ofNat, Nat.mod_eq_of_lt (hle.trans_lt (by norm_num))]

theorem information_self :
    (information unit unit).map (fun info => (info.toMul, info.factor)) = some (true, 1) := by
  rw [information, sub_self, if_pos rfl]
  rfl

theorem information_of_lt (h : resolution.power < unit.power) :
    (information resolution unit).map (fun info => (info.toMul, info.factor)) =
      some (false, BitVec.ofNat 64 (unitFactor resolution unit)) := by
  have hshift : ((unit.power : ℤ) - resolution.power).natAbs = unit.power - resolution.power := by
    omega
  have hbounds := unitFactor_bounds h
  have hnat := unitFactor_toNat h
  obtain ⟨o, s, hinvert, -⟩ := invert_toNat (v := BitVec.ofNat 64 (unitFactor resolution unit))
    (by omega) (by omega)
  rw [information, if_neg (by omega), if_pos (by omega), hshift, ← unitFactor, hinvert]
  rfl

end Units

section ToInteger
variable {resolution unit : TimeUnit}

theorem toInteger_of_information {toMul : Bool} {factor : BitVec 64} (time : Time)
    (h : (information resolution unit).map (fun info => (info.toMul, info.factor)) =
      some (toMul, factor)) :
    toInteger resolution time unit = some (if toMul then time.m_data.getInteger * factor
      else time.m_data.getInteger / factor) := by
  obtain ⟨info, hinfo, heq⟩ := Option.map_eq_some_iff.mp h
  obtain ⟨rfl, rfl⟩ := Prod.mk.inj heq
  rw [toInteger, hinfo]
  rfl

theorem toInteger_self (time : Time) :
    toInteger unit time unit = some time.m_data.getInteger := by
  rw [toInteger_of_information time information_self, if_pos rfl]
  exact congrArg some (BitVec.mul_one _)

theorem toInteger_of_lt (h : resolution.power < unit.power) (time : Time) :
    toInteger resolution time unit =
      some (time.m_data.getInteger / BitVec.ofNat 64 (unitFactor resolution unit)) := by
  rw [toInteger_of_information time (information_of_lt h), if_neg Bool.false_ne_true]

theorem tdiv_tdiv_natCast (m : ℤ) (n k : ℕ) : (m.tdiv n).tdiv k = m.tdiv (n * k : ℕ) := by
  rcases Int.natAbs_eq m with h | h <;> rw [h]
  · rw [← Int.ofNat_tdiv, ← Int.ofNat_tdiv, ← Int.ofNat_tdiv, Nat.div_div_eq_div_mul]
  · rw [Int.neg_tdiv, Int.neg_tdiv, Int.neg_tdiv, ← Int.ofNat_tdiv, ← Int.ofNat_tdiv,
      ← Int.ofNat_tdiv, Nat.div_div_eq_div_mul]

theorem trunc_value_div (time : Time) (f : ℕ) :
    trunc (time.m_data.value / f) = time.m_data.getInteger.toInt.tdiv f := by
  have hval : time.m_data.value / f = time.m_data.m_value.toInt / ((2 ^ 64 * f : ℕ) : ℚ) := by
    rw [value, div_div, Nat.cast_mul, Nat.cast_pow, Nat.cast_ofNat]
  rw [hval, trunc_div, getInteger_toInt, ← tdiv_tdiv_natCast, Nat.cast_pow, Nat.cast_ofNat]

theorem getInteger_nonneg_iff (time : Time) :
    0 ≤ time.m_data.getInteger.toInt ↔ -1 < time.m_data.value := by
  have hcast : -1 * 2 ^ 64 < (time.m_data.m_value.toInt : ℚ) ↔
      -1 * 2 ^ 64 < time.m_data.m_value.toInt := by
    norm_num
    norm_cast
  rw [getInteger_toInt, value, lt_div_iff₀ (by positivity), hcast]
  generalize time.m_data.m_value.toInt = m
  rcases le_total 0 m with h | h
  · rw [Int.tdiv_eq_ediv_of_nonneg h]
    omega
  · have hneg : m.tdiv (2 ^ 64) = -(-m / 2 ^ 64) := by
      rw [← Int.tdiv_eq_ediv_of_nonneg (by omega), Int.neg_tdiv, neg_neg]
    rw [hneg]
    omega

/-- The unsigned division is the signed one on numbers that are not negative. -/
theorem udiv_toInt_iff {i F : BitVec 64} (hF : 1000 ≤ F.toNat) (hF' : F.toNat ≤ 10 ^ 15) :
    (i / F).toInt = i.toInt.tdiv F.toNat ↔ 0 ≤ i.toInt := by
  have hquot : (i / F).toNat = i.toNat / F.toNat := BitVec.toNat_udiv
  have hlt := i.isLt
  have hle : i.toNat / F.toNat ≤ i.toNat / 1000 := Nat.div_le_div_left hF (by norm_num)
  have hge : i.toNat / 10 ^ 15 ≤ i.toNat / F.toNat := Nat.div_le_div_left hF' (by omega)
  have htoInt : (i / F).toInt = (i.toNat / F.toNat : ℕ) := by
    rw [BitVec.toInt_eq_toNat_cond, hquot, if_pos (by omega)]
  rw [htoInt]
  have hcond := BitVec.toInt_eq_toNat_cond i
  split_ifs at hcond with hsign
  · rw [hcond]
    exact iff_of_true (Int.ofNat_tdiv _ _) (by omega)
  · have hneg : i.toInt.tdiv F.toNat ≤ 0 := by
      rw [show i.toInt = -(2 ^ 64 - i.toNat : ℕ) by omega, Int.neg_tdiv, ← Int.ofNat_tdiv]
      exact Int.neg_nonpos_of_nonneg (Int.natCast_nonneg _)
    omega

end ToInteger

/-- The two conversions divide exactly, truncating toward zero: a whole number by the reciprocal of
`v`, and a time by the factor of a coarser unit, as long as the time has no negative whole steps. -/
theorem conversions_exact_iff (v t : BitVec 64) (resolution unit : TimeUnit) (time : Time) :
    ((1 < v.toNat → v.toNat < 2 ^ 63 → ∃ o, invert v = some o ∧
        ((ofInteger t).mulByInvert o).getInteger.toInt = t.toInt.tdiv v.toNat) ∧
      (resolution.power ≤ unit.power → ∃ n, toInteger resolution time unit = some n ∧
        n.toInt = trunc (time.m_data.value / unitFactor resolution unit))) ↔
    (resolution.power ≤ unit.power → unit = resolution ∨ -1 < time.m_data.value) := by
  rw [and_iff_right fun hv hv' => mulByInvert_invert hv hv' t]
  apply forall_congr'
  intro hle
  rw [trunc_value_div]
  rcases hle.eq_or_lt with heq | hlt
  · have hunit := power_injective heq
    subst hunit
    rw [toInteger_self, unitFactor, Nat.sub_self, pow_zero]
    simp
  · have hne : unit ≠ resolution := by
      intro h
      subst h
      exact absurd hlt (lt_irrefl _)
    have hbounds := unitFactor_bounds hlt
    have hiff := udiv_toInt_iff (i := time.m_data.getInteger)
      (F := BitVec.ofNat 64 (unitFactor resolution unit))
    rw [unitFactor_toNat hlt] at hiff
    rw [toInteger_of_lt hlt, or_iff_right hne, ← getInteger_nonneg_iff, ← hiff hbounds.1 hbounds.2]
    simp

/-- Minus one second at the resolution of nanoseconds has this many milliseconds. -/
theorem not_conversions_exact :
    ¬∀ (v t : BitVec 64) (resolution unit : TimeUnit) (time : Time),
      (1 < v.toNat → v.toNat < 2 ^ 63 → ∃ o, invert v = some o ∧
        ((ofInteger t).mulByInvert o).getInteger.toInt = t.toInt.tdiv v.toNat) ∧
      (resolution.power ≤ unit.power → ∃ n, toInteger resolution time unit = some n ∧
        n.toInt = trunc (time.m_data.value / unitFactor resolution unit)) := by
  intro h
  obtain ⟨n, hn, htrunc⟩ := (h 2 0 .NS .MS ⟨ofInteger (-1000000000)⟩).2 (by decide)
  have hcode : toInteger .NS ⟨ofInteger (-1000000000)⟩ .MS = some 18446744072709#64 := by
    decide +kernel
  rw [trunc_value_div, ← Option.some.inj (hcode.symm.trans hn)] at htrunc
  exact absurd htrunc (by decide +kernel)

end Time
end Ns3Noc
