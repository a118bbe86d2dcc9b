import Mathlib

/-!
# Binary heaps on indices from one

The children of `i` are `2 * i` and `2 * i + 1`. An element that may be too small climbs and an
element that may be too large sinks; every move exchanges it with a neighbour. The order off the
moving element is the invariant of either loop.
-/
namespace Ns3Noc.HeapOrder

variable {α κ : Type*} [LinearOrder κ] (key : α → κ)

/-- No element below `size` is less than its parent. -/
def Ordered (a : ℕ → α) (size : ℕ) : Prop :=
  ∀ i, 1 < i → i < size → key (a (i / 2)) ≤ key (a i)

def exchange (a : ℕ → α) (i j : ℕ) : ℕ → α := fun k => a (Equiv.swap i j k)

variable {key} {a : ℕ → α} {size x c : ℕ}

@[simp] theorem exchange_left (i j : ℕ) : exchange a i j i = a j := by simp [exchange]

@[simp] theorem exchange_right (i j : ℕ) : exchange a i j j = a i := by simp [exchange]

theorem exchange_of_ne {i j k : ℕ} (hi : k ≠ i) (hj : k ≠ j) : exchange a i j k = a k := by
  rw [exchange, Equiv.swap_apply_of_ne_of_ne hi hj]

theorem Ordered.mono {m : ℕ} (h : Ordered key a size) (hm : m ≤ size) : Ordered key a m :=
  fun i h1 hi => h i h1 (by omega)

/-- The root of an ordered heap is least. -/
theorem Ordered.root_le (h : Ordered key a size) {i : ℕ} (h1 : 1 ≤ i) (hi : i < size) :
    key (a 1) ≤ key (a i) := by
  induction i using Nat.strongRecOn with
  | _ i ih =>
    by_cases hroot : i = 1
    · rw [hroot]
    · exact (ih (i / 2) (by omega) (by omega) (by omega)).trans (h i (by omega) hi)

variable (key a size x) in
/-- Order off a climbing element: its children come after its parent. -/
structure UpOrder : Prop where
  off : ∀ i, 1 < i → i < size → i ≠ x → key (a (i / 2)) ≤ key (a i)
  grand : ∀ i, 1 < x → i / 2 = x → i < size → key (a (x / 2)) ≤ key (a i)

theorem UpOrder.stop (h : UpOrder key a size x) (hx : 1 < x → key (a (x / 2)) ≤ key (a x)) :
    Ordered key a size := by
  intro i h1 hi
  by_cases hix : i = x
  · exact hix ▸ hx (hix ▸ h1)
  · exact h.off i h1 hi hix

/-- The element climbs. -/
theorem UpOrder.move (h : UpOrder key a size x) (hx : 1 < x) (hsize : x < size)
    (hlt : key (a x) < key (a (x / 2))) : UpOrder key (exchange a x (x / 2)) size (x / 2) := by
  -- the old parent is in order with its own parent, so it may stand below any of its relatives
  have hparent : 1 < x / 2 → key (a (x / 2 / 2)) ≤ key (a (x / 2)) :=
    fun hp => h.off (x / 2) hp (by omega) (by omega)
  constructor
  · intro i h1 hi hne
    by_cases hix : i = x
    · rw [hix, exchange_right, exchange_left]
      exact hlt.le
    · rw [exchange_of_ne hix hne]
      by_cases hpx : i / 2 = x
      · rw [hpx, exchange_left]
        exact h.grand i hx hpx hi
      · have hi' := h.off i h1 hi hix
        by_cases hpp : i / 2 = x / 2
        · rw [hpp, exchange_right]
          exact hlt.le.trans (hpp ▸ hi')
        · rw [exchange_of_ne hpx hpp]
          exact hi'
  · intro i hp hip hi
    rw [exchange_of_ne (by omega) (by omega)]
    by_cases hix : i = x
    · rw [hix, exchange_left]
      exact hparent hp
    · rw [exchange_of_ne hix (by omega)]
      exact (hparent hp).trans (hip ▸ h.off i (by omega) hi hix)

/-- A new last element may climb. -/
theorem Ordered.upOrder (h : Ordered key a x) : UpOrder key a (x + 1) x :=
  ⟨fun i h1 hi hne => h i h1 (by omega), fun i hx hix hi => by omega⟩

variable (key a size x) in
/-- Order off a sinking element: its children come after its parent. -/
structure DownOrder : Prop where
  off : ∀ i, 1 < i → i < size → i / 2 ≠ x → key (a (i / 2)) ≤ key (a i)
  grand : ∀ i, 1 < x → i / 2 = x → i < size → key (a (x / 2)) ≤ key (a i)

theorem DownOrder.stop (h : DownOrder key a size x)
    (hx : ∀ i, 1 < i → i < size → i / 2 = x → key (a x) ≤ key (a i)) : Ordered key a size := by
  intro i h1 hi
  by_cases hix : i / 2 = x
  · rw [hix]
    exact hx i h1 hi hix
  · exact h.off i h1 hi hix

/-- The element sinks below its least child. -/
theorem DownOrder.move (h : DownOrder key a size x) (h1 : 1 ≤ x) (hc : c / 2 = x)
    (hsize : c < size) (hle : key (a c) ≤ key (a x))
    (hleast : ∀ i, i / 2 = x → i < size → key (a c) ≤ key (a i)) :
    DownOrder key (exchange a x c) size c := by
  constructor
  · intro i hi1 hi hne
    by_cases hpx : i / 2 = x
    · rw [hpx, exchange_left]
      by_cases hic : i = c
      · rw [hic, exchange_right]
        exact hle
      · rw [exchange_of_ne (by omega) hic]
        exact hleast i hpx hi
    · rw [exchange_of_ne hpx hne]
      by_cases hix : i = x
      · rw [hix, exchange_left]
        exact h.grand c (hix ▸ hi1) hc hsize
      · rw [exchange_of_ne hix (by omega)]
        exact h.off i hi1 hi hpx
  · intro i hc1 hic hi
    rw [hc, exchange_left, exchange_of_ne (by omega) (by omega)]
    exact hic ▸ h.off i (by omega) hi (by omega)

/-- An element that comes after its parent may sink from an inner place. -/
theorem Ordered.downOrder {b : ℕ → α} (h : Ordered key a size)
    (hb : ∀ i < size, i ≠ x → b i = a i)
    (hx : 1 < x → x < size → key (a (x / 2)) ≤ key (b x)) : DownOrder key b size x := by
  constructor
  · intro i hi1 hi hne
    rw [hb _ (by omega) hne]
    by_cases hix : i = x
    · rw [hix]
      exact hx (hix ▸ hi1) (hix ▸ hi)
    · rw [hb i hi hix]
      exact h i hi1 hi
  · intro i hx1 hix hi
    rw [hb _ (by omega) (by omega), hb i hi (by omega)]
    exact (h x hx1 (by omega)).trans (hix ▸ h i (by omega) hi)

/-- Below a descendant of an ordered heap nothing gets smaller: an element that is less than the
parent of its place is less than every child of that place. -/
theorem Ordered.lt_child (h : Ordered key a size) {v : κ} (hx : 1 < x)
    (hv : v < key (a (x / 2))) {i : ℕ} (hix : i / 2 = x) (hi : i < size) : v < key (a i) :=
  hv.trans_le ((h x hx (by omega)).trans (hix ▸ h i (by omega) hi))

end Ns3Noc.HeapOrder
