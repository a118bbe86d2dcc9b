import Mathlib

/-!
# Mixed-radix coordinates of a flat index

An index below the product of a list of sizes stands for a point of a box, the first
size varying fastest. Moving along one axis by `c` is adding `c` strides, and leaves
the other coordinates alone as long as it stays on the same line.

The digits of a number for a list of radices, the fastest first, stand for the number again.
-/
namespace Ns3Noc.MixedRadixIndices

/-- The number of positions on axis `k`; one beyond the last axis. -/
def extent (size : List ℕ) (k : ℕ) : ℕ := size.getD k 1

/-- The number of points spanned by the axes below `k`. -/
def stride (size : List ℕ) (k : ℕ) : ℕ := (size.take k).prod

/-- The position of index `v` on axis `k`. -/
def coordinate (size : List ℕ) (k v : ℕ) : ℕ := v / stride size k % extent size k

variable {size : List ℕ}

@[simp] theorem stride_zero : stride size 0 = 1 := by simp [stride]

theorem stride_succ (k : ℕ) : stride size (k + 1) = stride size k * extent size k := by
  by_cases hk : k < size.length
  · rw [stride, stride, extent, List.prod_take_succ _ _ hk, List.getD_eq_getElem _ _ hk]
  · have hk' : size.length ≤ k := by omega
    rw [stride, stride, extent, List.take_of_length_le hk',
      List.take_of_length_le (Nat.le_succ_of_le hk'), List.getD_eq_default _ _ hk', Nat.mul_one]

theorem stride_length (size : List ℕ) : stride size size.length = size.prod := by simp [stride]

theorem extent_pos (hs : ∀ s ∈ size, 0 < s) (k : ℕ) : 0 < extent size k := by
  by_cases hk : k < size.length
  · simpa [extent, hk] using hs _ (List.getElem_mem hk)
  · simp [extent, Nat.le_of_not_lt hk]

theorem stride_pos (hs : ∀ s ∈ size, 0 < s) (k : ℕ) : 0 < stride size k := by
  induction k with
  | zero => simp
  | succ k ih => exact stride_succ k ▸ Nat.mul_pos ih (extent_pos hs k)

theorem stride_dvd_stride (size : List ℕ) {j k : ℕ} (h : j ≤ k) : stride size j ∣ stride size k := by
  induction k, h using Nat.le_induction with
  | base => exact dvd_rfl
  | succ k _ ih => exact ih.trans (Dvd.intro _ (stride_succ k).symm)

theorem stride_dvd_prod (size : List ℕ) {k : ℕ} (h : k ≤ size.length) : stride size k ∣ size.prod :=
  stride_length size ▸ stride_dvd_stride size h

theorem coordinate_lt (hs : ∀ s ∈ size, 0 < s) (k v : ℕ) :
    coordinate size k v < extent size k := Nat.mod_lt _ (extent_pos hs k)

/-- One more digit of the index. -/
theorem mod_stride_succ (size : List ℕ) (k v : ℕ) :
    v % stride size (k + 1) = v % stride size k + stride size k * coordinate size k v := by
  rw [stride_succ, Nat.mod_mul, coordinate]

theorem coordinate_mul_stride_le (k v : ℕ) :
    coordinate size k v * stride size k ≤ v := by
  have h := mod_stride_succ size k v
  have hle := Nat.mod_le v (stride size (k + 1))
  rw [Nat.mul_comm]
  omega

/-- Indices with the same coordinates are equal. -/
theorem eq_of_coordinates {v w : ℕ} (hv : v < size.prod) (hw : w < size.prod)
    (h : ∀ k < size.length, coordinate size k v = coordinate size k w) : v = w := by
  have hmod : ∀ k ≤ size.length, v % stride size k = w % stride size k := by
    intro k hk
    induction k with
    | zero => simp [Nat.mod_one]
    | succ k ih =>
      rw [mod_stride_succ, mod_stride_succ, ih (by omega), h k (by omega)]
  have hlast := hmod size.length le_rfl
  rwa [stride_length, Nat.mod_eq_of_lt hv, Nat.mod_eq_of_lt hw] at hlast

/-- The points before the last one on their line. -/
theorem mod_lt_sub_iff (hs : ∀ s ∈ size, 0 < s) (k v : ℕ) :
    v % stride size (k + 1) < stride size (k + 1) - stride size k ↔
      coordinate size k v + 1 < extent size k := by
  have hpos := stride_pos hs k
  have hlt := Nat.mod_lt v hpos
  rw [mod_stride_succ, stride_succ]
  constructor
  · intro h
    have h' : stride size k * (coordinate size k v + 1) < stride size k * extent size k := by
      rw [Nat.mul_add]; omega
    exact Nat.lt_of_mul_lt_mul_left h'
  · intro h
    have h' := Nat.mul_le_mul_left (stride size k) (show coordinate size k v + 2 ≤ _ from h)
    rw [Nat.mul_add] at h'
    omega

/-- The points at the start of their line. -/
theorem mod_lt_stride_iff (hs : ∀ s ∈ size, 0 < s) (k v : ℕ) :
    v % stride size (k + 1) < stride size k ↔ coordinate size k v = 0 := by
  have hpos := stride_pos hs k
  have hlt := Nat.mod_lt v hpos
  rw [mod_stride_succ]
  constructor
  · intro h
    by_contra hc
    have h' := Nat.le_mul_of_pos_right (stride size k) (Nat.pos_of_ne_zero hc)
    omega
  · intro h
    simpa [h] using hlt

/-- Adding `c` strides within a line does not change what lies above the line. -/
theorem add_div_stride_succ (hs : ∀ s ∈ size, 0 < s) {k c v : ℕ}
    (hc : coordinate size k v + c < extent size k) :
    (v + c * stride size k) / stride size (k + 1) = v / stride size (k + 1) := by
  have hpos := stride_pos hs (k + 1)
  have hdiv := Nat.div_add_mod v (stride size (k + 1))
  have hlt : v % stride size (k + 1) + c * stride size k < stride size (k + 1) := by
    have hmod := Nat.mod_lt v (stride_pos hs k)
    have h' := Nat.mul_le_mul_left (stride size k) (show coordinate size k v + c + 1 ≤ _ from hc)
    rw [mod_stride_succ, stride_succ]
    nlinarith
  rw [show v + c * stride size k = v % stride size (k + 1) + c * stride size k +
      stride size (k + 1) * (v / stride size (k + 1)) by omega,
    Nat.add_mul_div_left _ _ hpos, Nat.div_eq_of_lt hlt, Nat.zero_add]

/-- Moving by `c` along axis `k` adds `c` to that coordinate only. -/
theorem coordinate_add (hs : ∀ s ∈ size, 0 < s) {k c v : ℕ}
    (hc : coordinate size k v + c < extent size k) (j : ℕ) :
    coordinate size j (v + c * stride size k) =
      if j = k then coordinate size k v + c else coordinate size j v := by
  rcases Nat.lt_trichotomy j k with hjk | rfl | hjk
  · obtain ⟨m, hm⟩ := stride_dvd_stride size (show j + 1 ≤ k from hjk)
    rw [if_neg hjk.ne, coordinate, coordinate, hm, stride_succ,
      show v + c * (stride size j * extent size j * m) =
        v + stride size j * (extent size j * (c * m)) by ring,
      Nat.add_mul_div_left _ _ (stride_pos hs j), Nat.add_mul_mod_self_left]
  · rw [if_pos rfl, coordinate, Nat.mul_comm c, Nat.add_mul_div_left _ _ (stride_pos hs j)]
    simp only [coordinate] at hc ⊢
    rw [Nat.add_mod, Nat.mod_eq_of_lt (show c < extent size j by omega), Nat.mod_eq_of_lt hc]
  · obtain ⟨m, hm⟩ := stride_dvd_stride size (show k + 1 ≤ j from hjk)
    rw [if_neg hjk.ne', coordinate, coordinate, hm, ← Nat.div_div_eq_div_mul,
      ← Nat.div_div_eq_div_mul, add_div_stride_succ hs hc]

theorem add_lt_prod (hs : ∀ s ∈ size, 0 < s) {k c v : ℕ} (hk : k < size.length)
    (hv : v < size.prod) (hc : coordinate size k v + c < extent size k) :
    v + c * stride size k < size.prod := by
  obtain ⟨m, hm⟩ := stride_dvd_prod size (show k + 1 ≤ size.length from hk)
  have hpos := stride_pos hs (k + 1)
  rw [hm, Nat.mul_comm (stride size (k + 1)), ← Nat.div_lt_iff_lt_mul hpos] at hv ⊢
  rwa [add_div_stride_succ hs hc]

theorem coordinate_sub_self (hs : ∀ s ∈ size, 0 < s) {k c v : ℕ}
    (hc : c ≤ coordinate size k v) :
    coordinate size k (v - c * stride size k) + c = coordinate size k v := by
  have hpos := stride_pos hs k
  have he := extent_pos hs k
  have hlt := coordinate_lt hs k v
  have hdiv := Nat.div_add_mod (v / stride size k) (extent size k)
  have hsub : (v - c * stride size k) / stride size k = v / stride size k - c := by
    rw [Nat.mul_comm, Nat.sub_mul_div]
  simp only [coordinate] at hc hlt ⊢
  rw [hsub, show v / stride size k - c = (v / stride size k % extent size k - c) +
      extent size k * (v / stride size k / extent size k) by omega,
    Nat.add_mul_mod_self_left, Nat.mod_eq_of_lt (by omega)]
  omega

theorem sub_add_cancel {k c v : ℕ} (hc : c ≤ coordinate size k v) :
    v - c * stride size k + c * stride size k = v :=
  Nat.sub_add_cancel ((Nat.mul_le_mul_right _ hc).trans (coordinate_mul_stride_le k v))

/-- Moving back by `c` along axis `k` subtracts `c` from that coordinate only. -/
theorem coordinate_sub (hs : ∀ s ∈ size, 0 < s) {k c v : ℕ}
    (hc : c ≤ coordinate size k v) (j : ℕ) :
    coordinate size j (v - c * stride size k) =
      if j = k then coordinate size k v - c else coordinate size j v := by
  have hself := coordinate_sub_self hs hc
  split
  · next h => subst h; omega
  · next h =>
    have hback := coordinate_add hs (show coordinate size k (v - c * stride size k) + c < extent size k by
      rw [hself]; exact coordinate_lt hs k v) j
    rw [if_neg h, sub_add_cancel hc] at hback
    exact hback.symm

end Ns3Noc.MixedRadixIndices

namespace Ns3Noc.MixedRadixDigits

def digits : List ℕ → ℕ → List ℕ
  | [], _ => []
  | v :: vs, q => q % v :: digits vs (q / v)

def ofDigits : List ℕ → List ℕ → ℕ
  | v :: vs, d :: ds => d + v * ofDigits vs ds
  | _, _ => 0

@[simp] theorem digits_nil (q : ℕ) : digits [] q = [] := rfl

@[simp] theorem digits_cons (v : ℕ) (vs : List ℕ) (q : ℕ) :
    digits (v :: vs) q = q % v :: digits vs (q / v) := rfl

@[simp] theorem ofDigits_nil (ds : List ℕ) : ofDigits [] ds = 0 := by cases ds <;> rfl

@[simp] theorem ofDigits_cons (v d : ℕ) (vs ds : List ℕ) :
    ofDigits (v :: vs) (d :: ds) = d + v * ofDigits vs ds := rfl

theorem ofDigits_lt {vs ds : List ℕ} (h : List.Forall₂ (fun v d => d < v) vs ds) :
    ofDigits vs ds < vs.prod := by
  induction h with
  | nil => simp
  | @cons v d vs ds hd _ ih =>
    rw [ofDigits_cons, List.prod_cons]
    calc d + v * ofDigits vs ds < v + v * ofDigits vs ds := by omega
      _ = v * (ofDigits vs ds + 1) := by ring
      _ ≤ v * vs.prod := Nat.mul_le_mul_left v ih

/-- Digits within their radices are the digits of the number they stand for. -/
theorem digits_ofDigits {vs ds : List ℕ} (h : List.Forall₂ (fun v d => d < v) vs ds) :
    digits vs (ofDigits vs ds) = ds := by
  induction h with
  | nil => rfl
  | @cons v d vs ds hd _ ih =>
    have hpos : 0 < v := by omega
    rw [ofDigits_cons, digits_cons, Nat.add_mul_mod_self_left, Nat.mod_eq_of_lt hd,
      Nat.add_mul_div_left _ _ hpos, Nat.div_eq_of_lt hd, Nat.zero_add, ih]

theorem ofDigits_digits (vs : List ℕ) {q : ℕ} (hq : q < vs.prod) : ofDigits vs (digits vs q) = q := by
  induction vs generalizing q with
  | nil => simp at hq; simp [hq]
  | cons v vs ih =>
    rw [List.prod_cons] at hq
    rw [digits_cons, ofDigits_cons, ih (Nat.div_lt_of_lt_mul hq), Nat.mod_add_div]

theorem digits_lt {vs : List ℕ} (hpos : ∀ v ∈ vs, 0 < v) (q : ℕ) :
    List.Forall₂ (fun v d => d < v) vs (digits vs q) := by
  induction vs generalizing q with
  | nil => exact .nil
  | cons v vs ih =>
    exact .cons (Nat.mod_lt q (hpos v List.mem_cons_self))
      (ih (fun w hw => hpos w (List.mem_cons_of_mem v hw)) (q / v))

theorem digits_zero (vs : List ℕ) : digits vs 0 = vs.map fun _ => 0 := by
  induction vs with
  | nil => rfl
  | cons v vs ih => simpa using ih

/-- The digits of a multiple of all radices together. -/
theorem digits_append_prod (us vs : List ℕ) (hpos : ∀ u ∈ us, 0 < u) (q : ℕ) :
    digits (us ++ vs) (us.prod * q) = (us.map fun _ => 0) ++ digits vs q := by
  induction us with
  | nil => simp
  | cons u us ih =>
    have hu := hpos u List.mem_cons_self
    rw [List.cons_append, digits_cons, List.prod_cons, Nat.mul_assoc, Nat.mul_mod_right,
      Nat.mul_div_cancel_left _ hu, ih fun w hw => hpos w (List.mem_cons_of_mem u hw)]
    rfl

/-- Leading zeros multiply by the radices they stand at. -/
theorem ofDigits_zeros_append (us vs ds : List ℕ) :
    ofDigits (us ++ vs) ((us.map fun _ => 0) ++ ds) = us.prod * ofDigits vs ds := by
  induction us with
  | nil => simp
  | cons u us ih =>
    rw [List.cons_append, List.map_cons, List.cons_append, ofDigits_cons, ih, List.prod_cons]
    ring

end Ns3Noc.MixedRadixDigits
