import Mathlib.Data.List.Basic
import Mathlib.Tactic.Ring

/-!
# Nested counting loops and searches over their output

A loop in strides of `b` around a loop over `b` offsets visits a flat index range in
order, so a fold over both loops is a fold over the range.
-/
namespace Ns3Noc.BlockedLoops

/-- The values of the counter in `for (i = 0; i < stop; i = i + step)`. -/
def strided (stop step : ℕ) : List ℕ := (List.range ((stop + step - 1) / step)).map (· * step)

theorem strided_mul (q : ℕ) {b : ℕ} (hb : 0 < b) :
    strided (q * b) b = (List.range q).map (· * b) := by
  have hq : (q * b + b - 1) / b = q := by
    rw [show q * b + b - 1 = b - 1 + q * b by omega, Nat.add_mul_div_right _ _ hb,
      Nat.div_eq_of_lt (by omega), Nat.zero_add]
  rw [strided, hq]

/-- Nested loops with `c` inner iterations are one loop over a flat counter. -/
theorem foldl_strided_range {σ : Type*} (f : σ → ℕ → ℕ → σ) (q : ℕ) {b c : ℕ} (hb : 0 < b)
    (hc : 0 < c) (s : σ) :
    (strided (q * b) b).foldl (fun s i => (List.range c).foldl (fun s j => f s i j) s) s =
      (List.range (q * c)).foldl (fun s t => f s (t / c * b) (t % c)) s := by
  rw [strided_mul q hb, List.foldl_map]
  induction q with
  | zero => simp
  | succ q ih =>
    have hblock : (q + 1) * c = q * c + c := by ring
    rw [List.range_succ, List.foldl_append, ih, hblock, List.range_add, List.foldl_append,
      List.foldl_cons, List.foldl_nil, List.foldl_map]
    refine List.foldl_ext _ _ _ ?_
    intro s j hj
    have hj' := List.mem_range.mp hj
    rw [Nat.mul_comm q c, Nat.mul_add_div hc, Nat.div_eq_of_lt hj', Nat.mul_add_mod,
      Nat.mod_eq_of_lt hj', Nat.add_zero]

/-- The nested loops visit every index below `q * b` once, in order. -/
theorem foldl_strided {σ : Type*} (f : σ → ℕ → ℕ → σ) (q : ℕ) {b : ℕ} (hb : 0 < b) (s : σ) :
    (strided (q * b) b).foldl (fun s i => (List.range b).foldl (fun s j => f s i j) s) s =
      (List.range (q * b)).foldl (fun s v => f s (v - v % b) (v % b)) s := by
  rw [foldl_strided_range f q hb hb]
  refine List.foldl_ext _ _ _ ?_
  intro s v _
  rw [Nat.div_mul_self_eq_mod_sub_self]

/-- A fold over the image of the state, where the elements of the list allow it. -/
theorem foldl_hom_mem {σ τ ι : Type*} (f : σ → τ) {g : σ → ι → σ} {g' : τ → ι → τ} {l : List ι}
    (H : ∀ s, ∀ i ∈ l, g' (f s) i = f (g s i)) (s : σ) : l.foldl g' (f s) = f (l.foldl g s) := by
  induction l generalizing s with
  | nil => rfl
  | cons i l ih =>
    rw [List.foldl_cons, List.foldl_cons, H s i List.mem_cons_self]
    exact ih (fun s j hj => H s j (List.mem_cons_of_mem i hj)) (g s i)

/-- The indices below `n` with a property, given as a sorted list. -/
theorem filter_range_eq {n : ℕ} {p : ℕ → Bool} {l : List ℕ} (hl : l.Pairwise (· < ·))
    (hp : ∀ t, t ∈ l ↔ t < n ∧ p t = true) : (List.range n).filter p = l := by
  refine List.Perm.eq_of_pairwise ?_ (List.pairwise_lt_range.filter p) hl ?_
  · intro a b _ _ hab hba
    exact absurd hab hba.asymm
  · apply (List.perm_ext_iff_of_nodup (List.nodup_range.filter p) (hl.imp (fun h => h.ne))).mpr
    intro t
    simp [hp]

/-- Where every piece passes or fails the filter as a whole, the filter picks pieces. -/
theorem filter_flatMap_range {α : Type*} {n : ℕ} {f : ℕ → List α} {p : α → Bool} {q : ℕ → Bool}
    (h : ∀ t < n, ∀ a ∈ f t, p a = q t) :
    ((List.range n).flatMap f).filter p = ((List.range n).filter q).flatMap f := by
  induction n with
  | zero => rfl
  | succ n ih =>
    have hlast : (f n).filter p = if q n then f n else [] := by
      split
      · next hq => exact List.filter_eq_self.mpr (fun a ha => (h n (by omega) a ha).trans hq)
      · next hq =>
        apply List.filter_eq_nil_iff.mpr
        intro a ha
        rwa [h n (by omega) a ha]
    rw [List.range_succ, List.flatMap_append, List.filter_append, List.filter_append,
      ih (fun t ht => h t (by omega)), List.flatMap_append]
    by_cases hq : q n = true <;> simp [hlast, hq]

/-- A search finds the only element with the property. -/
theorem find?_of_unique {α : Type*} {p : α → Bool} {l : List α} {a : α} (ha : a ∈ l)
    (hp : p a = true) (hu : ∀ x ∈ l, p x = true → x = a) : l.find? p = some a := by
  cases h : l.find? p with
  | none => exact absurd hp (List.find?_eq_none.mp h a ha)
  | some x => rw [hu x (List.mem_of_find?_eq_some h) (List.find?_some h)]

end Ns3Noc.BlockedLoops
