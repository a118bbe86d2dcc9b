import Mathlib

/-!
# Bit permutations of the synthetic traffic patterns

`TrafficPattern` cuts a number to its low `size` bits, runs a loop over the bits in place and reads
the number back. Matrix transpose exchanges the two halves, reversal exchanges the bits at mirrored
positions, and complement flips every bit. The middle bit of an odd size stays with the transpose.
-/
namespace Ns3Noc.TrafficPattern

/-- The contents of a `std::bitset`, by position. -/
abbrev Bits := ℕ → Bool

/-- The bits of the string that `substr (32 - size)` leaves. -/
def lowBits (number size : ℕ) : Bits := fun k => decide (k < size) && number.testBit k

def toUlong (bits : Bits) : ℕ := Nat.ofBits fun k : Fin 32 => bits k

/-- Both bits are read before the first of them is set. -/
def exchange (bits : Bits) (i j : ℕ) : Bits :=
  fun k => if k = j then bits i else if k = i then bits j else bits k

def flip (bits : Bits) (i : ℕ) : Bits := fun k => if k = i then !bits k else bits k

def transposeLoop (size : ℕ) (bits : Bits) : ℕ → Bits
  | 0 => bits
  | i + 1 => exchange (transposeLoop size bits i) i (size / 2 + i)

def complementLoop (bits : Bits) : ℕ → Bits
  | 0 => bits
  | i + 1 => flip (complementLoop bits i) i

def reverseLoop (size : ℕ) (bits : Bits) : ℕ → Bits
  | 0 => bits
  | i + 1 => exchange (reverseLoop size bits i) i (size - i - 1)

/-- What the three functions share: the assertion on the size, the cut and the conversion. -/
def onBits (loop : Bits → Bits) (number size : ℕ) : Option ℕ :=
  if 1 ≤ size ∧ size ≤ 32 then some (toUlong (loop (lowBits number size))) else none

def matrixTransposeBits (number size : ℕ) : Option ℕ :=
  onBits (fun bits => transposeLoop size bits (size / 2)) number size

def complementBits (number size : ℕ) : Option ℕ :=
  onBits (fun bits => complementLoop bits size) number size

def reverseBits (number size : ℕ) : Option ℕ :=
  onBits (fun bits => reverseLoop size bits (size / 2)) number size

/-! ## What the loops do -/

theorem transposeLoop_apply (size : ℕ) (bits : Bits) {m : ℕ} (hm : m ≤ size / 2) (k : ℕ) :
    transposeLoop size bits m k =
      if k < m then bits (size / 2 + k)
      else if size / 2 ≤ k ∧ k < size / 2 + m then bits (k - size / 2) else bits k := by
  induction m generalizing k with
  | zero => simp [transposeLoop]
  | succ m ih =>
    have hm' : m ≤ size / 2 := by omega
    rw [transposeLoop, exchange]
    split_ifs with h₁ h₂ h₃ h₄ h₅ h₆ <;> rw [ih hm'] <;> split_ifs <;>
      first | rfl | omega | (congr 1; omega)

theorem complementLoop_apply (bits : Bits) (m k : ℕ) :
    complementLoop bits m k = if k < m then !bits k else bits k := by
  induction m with
  | zero => simp [complementLoop]
  | succ m ih =>
    rw [complementLoop, flip, ih]
    split_ifs <;> first | rfl | omega

theorem reverseLoop_apply (size : ℕ) (bits : Bits) {m : ℕ} (hm : m ≤ size / 2) (k : ℕ) :
    reverseLoop size bits m k =
      if k < m ∨ size - m ≤ k ∧ k < size then bits (size - 1 - k) else bits k := by
  induction m generalizing k with
  | zero => simp [reverseLoop]
  | succ m ih =>
    have hm' : m ≤ size / 2 := by omega
    rw [reverseLoop, exchange]
    split_ifs with h₁ h₂ h₃ h₄ <;> rw [ih hm'] <;> split_ifs <;>
      first | rfl | omega | (congr 1; omega)

/-- No bit is set from position `size` on. -/
def BelowSize (size : ℕ) (bits : Bits) : Prop := ∀ k, size ≤ k → bits k = false

/-- The loop stays within the size and undoes itself. -/
structure Involutive (size : ℕ) (loop : Bits → Bits) : Prop where
  belowSize : ∀ bits, BelowSize size bits → BelowSize size (loop bits)
  twice : ∀ bits, BelowSize size bits → loop (loop bits) = bits

theorem involutive_transposeLoop (size : ℕ) :
    Involutive size fun bits => transposeLoop size bits (size / 2) where
  belowSize bits hbits k hk := by
    rw [transposeLoop_apply size bits le_rfl, if_neg (by omega), if_neg (by omega)]
    exact hbits k hk
  twice bits _ := by
    funext k
    rw [transposeLoop_apply size _ le_rfl]
    split_ifs with h₁ h₂
    · rw [transposeLoop_apply size bits le_rfl, if_neg (by omega), if_pos (by omega),
        Nat.add_sub_cancel_left]
    · rw [transposeLoop_apply size bits le_rfl, if_pos (by omega), Nat.add_sub_of_le h₂.1]
    · rw [transposeLoop_apply size bits le_rfl, if_neg h₁, if_neg h₂]

theorem involutive_reverseLoop (size : ℕ) :
    Involutive size fun bits => reverseLoop size bits (size / 2) where
  belowSize bits hbits k hk := by
    rw [reverseLoop_apply size bits le_rfl, if_neg (by omega)]
    exact hbits k hk
  twice bits _ := by
    funext k
    rw [reverseLoop_apply size _ le_rfl]
    split_ifs with h
    · rw [reverseLoop_apply size bits le_rfl, if_pos (by omega)]
      congr 1
      omega
    · rw [reverseLoop_apply size bits le_rfl, if_neg h]

theorem involutive_complementLoop (size : ℕ) :
    Involutive size fun bits => complementLoop bits size where
  belowSize bits hbits k hk := by
    rw [complementLoop_apply, if_neg (by omega)]
    exact hbits k hk
  twice bits _ := by
    funext k
    rw [complementLoop_apply, complementLoop_apply]
    split_ifs with h
    · exact Bool.not_not _
    · rfl

/-! ## Numbers -/

theorem belowSize_lowBits (number size : ℕ) : BelowSize size (lowBits number size) := by
  intro k hk
  simp [lowBits, Nat.not_lt.mpr hk]

theorem testBit_toUlong {size : ℕ} (hsize : size ≤ 32) {bits : Bits} (hbits : BelowSize size bits)
    (k : ℕ) : (toUlong bits).testBit k = bits k := by
  rw [toUlong, Nat.testBit_ofBits]
  split_ifs with hk
  · rfl
  · exact (hbits k (by omega)).symm

theorem toUlong_lt {size : ℕ} (hsize : size ≤ 32) {bits : Bits} (hbits : BelowSize size bits) :
    toUlong bits < 2 ^ size := by
  apply Nat.lt_pow_two_of_testBit
  intro k hk
  rw [testBit_toUlong hsize hbits, hbits k hk]

theorem lowBits_toUlong {size : ℕ} (hsize : size ≤ 32) {bits : Bits}
    (hbits : BelowSize size bits) : lowBits (toUlong bits) size = bits := by
  funext k
  rw [lowBits, testBit_toUlong hsize hbits]
  by_cases hk : k < size
  · simp [hk]
  · simp [hbits k (Nat.not_lt.mp hk)]

theorem toUlong_lowBits {number size : ℕ} (hsize : size ≤ 32) (hnumber : number < 2 ^ size) :
    toUlong (lowBits number size) = number := by
  apply Nat.eq_of_testBit_eq
  intro k
  rw [testBit_toUlong hsize (belowSize_lowBits number size), lowBits]
  by_cases hk : k < size
  · simp [hk]
  · have hle := Nat.pow_le_pow_right Nat.two_pos (Nat.not_lt.mp hk)
    simp [Nat.testBit_lt_two_pow (hnumber.trans_le hle)]

/-- A loop that undoes itself gives a permutation of the numbers of its size. -/
theorem onBits_of_involutive {size : ℕ} {loop : Bits → Bits} (hloop : Involutive size loop)
    (hpos : 1 ≤ size) (hsize : size ≤ 32) (number : ℕ) :
    ∃ r, onBits loop number size = some r ∧ r < 2 ^ size ∧
      (number < 2 ^ size → onBits loop r size = some number) := by
  have hlow := belowSize_lowBits number size
  have hbits := hloop.belowSize _ hlow
  refine ⟨toUlong (loop (lowBits number size)), if_pos ⟨hpos, hsize⟩, toUlong_lt hsize hbits, ?_⟩
  intro hnumber
  rw [onBits, if_pos ⟨hpos, hsize⟩, lowBits_toUlong hsize hbits, hloop.twice _ hlow,
    toUlong_lowBits hsize hnumber]

theorem onBits_zero (loop : Bits → Bits) (number : ℕ) : onBits loop number 0 = none := rfl

/-- The patterns of `TrafficPatternEnum` that permute bits. -/
inductive BitPattern | bitMatrixTranspose | bitComplement | bitReverse
  deriving DecidableEq

namespace BitPattern

def apply : BitPattern → ℕ → ℕ → Option ℕ
  | bitMatrixTranspose => matrixTransposeBits
  | bitComplement => complementBits
  | bitReverse => reverseBits

theorem apply_spec (pattern : BitPattern) {size : ℕ} (hpos : 1 ≤ size) (hsize : size ≤ 32)
    (number : ℕ) :
    ∃ r, pattern.apply number size = some r ∧ r < 2 ^ size ∧
      (number < 2 ^ size → pattern.apply r size = some number) := by
  cases pattern with
  | bitMatrixTranspose => exact onBits_of_involutive (involutive_transposeLoop size) hpos hsize number
  | bitComplement => exact onBits_of_involutive (involutive_complementLoop size) hpos hsize number
  | bitReverse => exact onBits_of_involutive (involutive_reverseLoop size) hpos hsize number

/-- The size of a single position fails the assertion. -/
theorem apply_zero (pattern : BitPattern) (number : ℕ) : pattern.apply number 0 = none := by
  cases pattern <;> rfl

end BitPattern

/-- Reversal takes the lowest bit to the highest place. -/
theorem reverseBits_one {size : ℕ} (hpos : 1 ≤ size) (hsize : size ≤ 32) :
    reverseBits 1 size = some (2 ^ (size - 1)) := by
  rw [reverseBits, onBits, if_pos ⟨hpos, hsize⟩]
  congr 1
  apply Nat.eq_of_testBit_eq
  intro k
  have hbits := (involutive_reverseLoop size).belowSize _ (belowSize_lowBits 1 size)
  rw [testBit_toUlong hsize hbits, reverseLoop_apply size _ le_rfl, Nat.testBit_two_pow]
  split_ifs with h
  · rw [lowBits, Bool.eq_iff_iff, Bool.and_eq_true, Nat.testBit_one_eq_true_iff_self_eq_zero]
    simp only [decide_eq_true_eq]
    omega
  · rw [lowBits, Bool.eq_iff_iff, Bool.and_eq_true, Nat.testBit_one_eq_true_iff_self_eq_zero]
    simp only [decide_eq_true_eq]
    omega

theorem reverseBits_zero {size : ℕ} (hpos : 1 ≤ size) (hsize : size ≤ 32) :
    reverseBits 0 size = some 0 := by
  rw [reverseBits, onBits, if_pos ⟨hpos, hsize⟩]
  congr 1
  apply Nat.eq_of_testBit_eq
  intro k
  have hbits := (involutive_reverseLoop size).belowSize _ (belowSize_lowBits 0 size)
  rw [testBit_toUlong hsize hbits, reverseLoop_apply size _ le_rfl]
  simp [lowBits]

end Ns3Noc.TrafficPattern
