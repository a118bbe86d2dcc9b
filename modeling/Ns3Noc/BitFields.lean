import Mathlib.Data.Nat.Digits.Defs
import Mathlib.Tactic.Ring

/-!
# Bit fields of a number that is stored in words

A field is given by its offset and its width. The words are the digits of the number to the
base of two to the word width, the least one first.
-/
namespace Ns3Noc.BitFields

/-- The field of the given width at the given offset. -/
def field (x offset width : ℕ) : ℕ := x / 2 ^ offset % 2 ^ width

theorem field_lt (x offset width : ℕ) : field x offset width < 2 ^ width :=
  Nat.mod_lt _ (Nat.two_pow_pos _)

/-- A field of a field. -/
theorem field_field (x offset width : ℕ) {offset' width' : ℕ} (h : offset' + width' ≤ width) :
    field (field x offset width) offset' width' = field x (offset + offset') width' := by
  obtain ⟨k, rfl⟩ := Nat.exists_eq_add_of_le h
  unfold field
  rw [add_assoc, pow_add, Nat.mod_mul_right_div_self, pow_add, Nat.mod_mul_right_mod,
    Nat.div_div_eq_div_mul, pow_add]

/-- Two adjacent fields. -/
theorem field_add (x offset low high : ℕ) :
    field x offset (low + high) = field x offset low + 2 ^ low * field x (offset + low) high := by
  unfold field
  rw [pow_add, Nat.mod_mul, Nat.div_div_eq_div_mul, pow_add]

theorem shiftLeft_or {x y k : ℕ} (hy : y < 2 ^ k) : x <<< k ||| y = y + 2 ^ k * x := by
  rw [Nat.shiftLeft_eq, mul_comm, ← Nat.two_pow_add_eq_or_of_lt hy, add_comm]

theorem or_shiftLeft_mod {x y k w : ℕ} (hy : y < 2 ^ k) (hk : k ≤ w) :
    (x <<< k) % 2 ^ w ||| y = (y + 2 ^ k * x) % 2 ^ w := by
  obtain ⟨j, rfl⟩ := Nat.exists_eq_add_of_le hk
  rw [Nat.shiftLeft_eq, mul_comm, pow_add, Nat.mul_mod_mul_left,
    ← Nat.two_pow_add_eq_or_of_lt hy, Nat.mod_mul, Nat.add_mul_mod_self_left, Nat.mod_eq_of_lt hy,
    Nat.add_mul_div_left _ _ (Nat.two_pow_pos k), Nat.div_eq_of_lt hy, zero_add, add_comm]

/-- Shifting up to the end of a word and back down to `n` bits keeps the upper bits of the
lowest `r` bits. -/
theorem shiftLeft_mod_shiftRight {x r n w : ℕ} (hn : n ≤ r) (hr : r ≤ w) :
    ((x <<< (w - r)) % 2 ^ w) >>> (w - n) = field x (r - n) n := by
  obtain ⟨j, rfl⟩ := Nat.exists_eq_add_of_le hr
  obtain ⟨i, rfl⟩ := Nat.exists_eq_add_of_le hn
  have hj : n + i + j - (n + i) = j := by omega
  have hi : n + i + j - n = j + i := by omega
  have hwidth : n + i + j = j + (i + n) := by omega
  rw [hj, hi, Nat.add_sub_cancel_left, Nat.shiftLeft_eq, Nat.shiftRight_eq_div_pow, mul_comm, hwidth,
    pow_add, Nat.mul_mod_mul_left, pow_add 2 j i, Nat.mul_div_mul_left _ _ (Nat.two_pow_pos j),
    pow_add, Nat.mod_mul_right_div_self]
  rfl

/-- The same for a field of `n` bits that begins below the word: its upper `r` bits move to
their places. -/
theorem shiftLeft_mod_shiftRight_of_lt {x r n w : ℕ} (hn : r ≤ n) (hw : n ≤ w) :
    ((x <<< (w - r)) % 2 ^ w) >>> (w - r - (n - r)) = 2 ^ (n - r) * field x 0 r := by
  obtain ⟨j, rfl⟩ := Nat.exists_eq_add_of_le hw
  obtain ⟨i, rfl⟩ := Nat.exists_eq_add_of_le hn
  have hi : r + i + j - r = j + i := by omega
  have hj : j + i - (r + i - r) = j := by omega
  have hwidth : r + i + j = j + i + r := by omega
  rw [hi, hj, Nat.add_sub_cancel_left, Nat.shiftLeft_eq, Nat.shiftRight_eq_div_pow, mul_comm, hwidth,
    pow_add 2 (j + i) r, Nat.mul_mod_mul_left, pow_add 2 j i, mul_assoc,
    Nat.mul_div_cancel_left _ (Nat.two_pow_pos j)]
  simp [field]

theorem shiftRight_eq_field {x n w : ℕ} (hx : x < 2 ^ w) (hn : n ≤ w) :
    x >>> (w - n) = field x (w - n) n := by
  have hlt : x / 2 ^ (w - n) < 2 ^ n := by
    rw [Nat.div_lt_iff_lt_mul (Nat.two_pow_pos _), ← pow_add, Nat.add_sub_cancel' hn]
    exact hx
  rw [Nat.shiftRight_eq_div_pow, field, Nat.mod_eq_of_lt hlt]

/-- A word is a field of the number. -/
theorem getElem?_eq_field {w : ℕ} {words : List ℕ} (hwords : ∀ word ∈ words, word < 2 ^ w) {i : ℕ}
    (hi : i < words.length) : words[i]? = some (field (Nat.ofDigits (2 ^ w) words) (w * i) w) := by
  induction words generalizing i with
  | nil => exact absurd hi (Nat.not_lt_zero _)
  | cons word words ih =>
    have hword := hwords word List.mem_cons_self
    cases i with
    | zero =>
      simp only [List.getElem?_cons_zero, field, Nat.ofDigits_cons, mul_zero, pow_zero, Nat.div_one,
        Nat.add_mul_mod_self_left, Nat.mod_eq_of_lt hword]
    | succ i =>
      rw [List.getElem?_cons_succ, ih (fun x hx => hwords x (List.mem_cons_of_mem _ hx))
        (Nat.lt_of_succ_lt_succ hi)]
      simp only [field, Nat.ofDigits_cons]
      rw [Nat.mul_succ, Nat.add_comm (w * i) w, pow_add, ← Nat.div_div_eq_div_mul,
        Nat.add_mul_div_left _ _ (Nat.two_pow_pos w), Nat.div_eq_of_lt hword, Nat.zero_add]

end Ns3Noc.BitFields
