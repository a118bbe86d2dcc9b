import Mathlib

/-!
# Slices of a memory

A memory gives a value at every address. Its slices are read as lists, and lists are written over
it. `overlay` is the same write on a list.
-/
namespace Ns3Noc.ByteSlices

variable {α : Type*}

/-- The `n` values from address `a` on. -/
def slice (f : ℕ → α) (a n : ℕ) : List α := (List.range n).map (fun k => f (a + k))

/-- The memory with a list written from address `a` on. -/
def overwrite (f : ℕ → α) (a : ℕ) (bytes : List α) : ℕ → α :=
  fun k => if a ≤ k then (bytes[k - a]?).getD (f k) else f k

/-- The list with another list written from position `o` on. -/
def overlay (l : List α) (o : ℕ) (bytes : List α) : List α :=
  l.take o ++ bytes ++ l.drop (o + bytes.length)

@[simp] theorem length_slice (f : ℕ → α) (a n : ℕ) : (slice f a n).length = n := by
  simp [slice]

@[simp] theorem slice_zero (f : ℕ → α) (a : ℕ) : slice f a 0 = [] := rfl

theorem slice_congr {f g : ℕ → α} {a b n : ℕ} (h : ∀ k < n, f (a + k) = g (b + k)) :
    slice f a n = slice g b n :=
  List.map_congr_left (fun k hk => h k (List.mem_range.mp hk))

theorem eq_of_slice_eq {f g : ℕ → α} {a b n : ℕ} (h : slice f a n = slice g b n) {k : ℕ}
    (hk : k < n) : f (a + k) = g (b + k) := by
  have hget := congrArg (·[k]?) h
  simpa [slice, hk] using hget

theorem slice_add (f : ℕ → α) (a m n : ℕ) :
    slice f a (m + n) = slice f a m ++ slice f (a + m) n := by
  rw [slice, List.range_add, List.map_append, List.map_map]
  congr 1
  exact List.map_congr_left (fun k _ => congrArg f (by simp [Nat.add_assoc]))

theorem take_slice (f : ℕ → α) (a k n : ℕ) : (slice f a n).take k = slice f a (min k n) := by
  rw [slice, slice, ← List.map_take, List.take_range]

theorem drop_slice (f : ℕ → α) (a k n : ℕ) : (slice f a n).drop k = slice f (a + k) (n - k) := by
  rcases Nat.le_total k n with h | h
  · obtain ⟨m, rfl⟩ := Nat.exists_eq_add_of_le h
    rw [slice_add, List.drop_left' (length_slice f a k), Nat.add_sub_cancel_left]
  · rw [Nat.sub_eq_zero_of_le h, slice_zero, List.drop_eq_nil_of_le (by rwa [length_slice])]

theorem overwrite_of_lt {f : ℕ → α} {a k : ℕ} {bytes : List α} (h : k < a) :
    overwrite f a bytes k = f k :=
  if_neg (Nat.not_le.mpr h)

theorem overwrite_of_ge {f : ℕ → α} {a k : ℕ} {bytes : List α} (h : a + bytes.length ≤ k) :
    overwrite f a bytes k = f k := by
  rw [overwrite, if_pos (by omega), List.getElem?_eq_none (by omega), Option.getD_none]

theorem slice_overwrite_self (f : ℕ → α) (a : ℕ) (bytes : List α) :
    slice (overwrite f a bytes) a bytes.length = bytes := by
  refine List.ext_getElem (length_slice _ _ _) (fun k hk hk' => ?_)
  simp [slice, overwrite, hk']

/-- Writing what a slice holds copies the slice. -/
theorem slice_memcpy (f g : ℕ → α) (a b n : ℕ) :
    slice (overwrite f a (slice g b n)) a n = slice g b n := by
  have h := slice_overwrite_self f a (slice g b n)
  rwa [length_slice] at h

/-- A part of a copied slice. -/
theorem slice_memcpy_part (f g : ℕ → α) (a b : ℕ) {o k n : ℕ} (h : o + k ≤ n) :
    slice (overwrite f a (slice g b n)) (a + o) k = slice g (b + o) k := by
  refine slice_congr (fun t ht => ?_)
  rw [overwrite, if_pos (by omega), slice]
  simp only [List.getElem?_map]
  rw [List.getElem?_range (by omega), Option.map_some, Option.getD_some]
  congr 1
  omega

/-- A write outside of a slice does not show. -/
theorem slice_overwrite_of_disjoint {f : ℕ → α} {a b n : ℕ} {bytes : List α}
    (h : b + n ≤ a ∨ a + bytes.length ≤ b) : slice (overwrite f a bytes) b n = slice f b n := by
  refine slice_congr (fun k hk => ?_)
  rcases h with h | h
  · exact overwrite_of_lt (by omega)
  · exact overwrite_of_ge (by omega)

@[simp] theorem overwrite_nil (f : ℕ → α) (a : ℕ) : overwrite f a [] = f := by
  funext k
  simp [overwrite]

/-- Two writes one behind the other. -/
theorem overwrite_append (f : ℕ → α) (a : ℕ) (l l' : List α) :
    overwrite (overwrite f a l) (a + l.length) l' = overwrite f a (l ++ l') := by
  funext k
  by_cases hk : a + l.length ≤ k
  · have hl : l[k - a]? = none := List.getElem?_eq_none (by omega)
    have hr : (l ++ l')[k - a]? = l'[k - (a + l.length)]? := by
      rw [List.getElem?_append_right (by omega), Nat.sub_sub]
    simp only [overwrite, if_pos hk, if_pos (show a ≤ k by omega), hl, hr, Option.getD_none]
  · rw [overwrite_of_lt (by omega)]
    by_cases ha : a ≤ k
    · have hl : (l ++ l')[k - a]? = l[k - a]? := List.getElem?_append_left (by omega)
      simp only [overwrite, if_pos ha, hl]
    · rw [overwrite_of_lt (by omega), overwrite_of_lt (by omega)]

/-- A write inside a slice is the write on its list. -/
theorem slice_overwrite (f : ℕ → α) {a o n : ℕ} {bytes : List α} (h : o + bytes.length ≤ n) :
    slice (overwrite f (a + o) bytes) a n = overlay (slice f a n) o bytes := by
  obtain ⟨m, rfl⟩ := Nat.exists_eq_add_of_le h
  rw [slice_add, slice_add, overlay, take_slice, drop_slice, Nat.add_sub_cancel_left,
    Nat.min_eq_left (by omega), slice_overwrite_self,
    slice_overwrite_of_disjoint (Or.inl (Nat.le_refl _)),
    slice_overwrite_of_disjoint (Or.inr (by omega))]

theorem length_overlay {l : List α} {o : ℕ} {bytes : List α} (h : o + bytes.length ≤ l.length) :
    (overlay l o bytes).length = l.length := by
  simp only [overlay, List.length_append, List.length_take, List.length_drop]
  omega

theorem overlay_append_left {l r : List α} {o : ℕ} {bytes : List α}
    (h : o + bytes.length ≤ l.length) : overlay (l ++ r) o bytes = overlay l o bytes ++ r := by
  rw [overlay, overlay, List.take_append_of_le_length (by omega),
    List.drop_append_of_le_length h, List.append_assoc, List.append_assoc, List.append_assoc]

theorem overlay_append_right (l r : List α) (o : ℕ) (bytes : List α) :
    overlay (l ++ r) (l.length + o) bytes = l ++ overlay r o bytes := by
  rw [overlay, overlay, List.take_length_add_append, Nat.add_assoc, List.drop_length_add_append,
    List.append_assoc, List.append_assoc, List.append_assoc]

end Ns3Noc.ByteSlices
