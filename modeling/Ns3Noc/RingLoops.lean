import Mathlib

/-!
# Loops around a ring

A loop over the positions of a ring that stops only where its counter equals the last position.
The body may fail. The loop gets fuel, one unit for each round of the body.
-/
namespace Ns3Noc.RingLoops

variable {σ : Type*}

/-- `for (; i != last; i = (i + 1) % n) body (i); body (i);` -/
def ringLoop (n : ℕ) (body : ℕ → σ → Option σ) (last : ℕ) : ℕ → ℕ → σ → Option σ
  | 0, _, _ => none
  | fuel + 1, i, s =>
    if i = last then body i s
    else (body i s).bind (ringLoop n body last fuel ((i + 1) % n))

/-- The number of positions from `i` on to `j`. -/
def ringDistance (n i j : ℕ) : ℕ := if i ≤ j then j - i else j + n - i

/-- `len` positions from `i` on. -/
def ringArc (n i len : ℕ) : List ℕ := (List.range len).map fun k => (i + k) % n

variable {n i j last len fuel : ℕ} {body : ℕ → σ → Option σ} {s s' : σ}

theorem ringArc_succ (hi : i < n) :
    ringArc n i (len + 1) = i :: ringArc n ((i + 1) % n) len := by
  rw [ringArc, List.range_succ_eq_map, List.map_cons, List.map_map, Nat.add_zero,
    Nat.mod_eq_of_lt hi]
  congr 1
  apply List.map_congr_left
  intro k _
  rw [Function.comp_apply, Nat.mod_add_mod]
  congr 1
  omega

theorem ringDistance_lt (hi : i < n) (hj : j < n) : ringDistance n i j < n := by
  rw [ringDistance]
  split <;> omega

theorem succ_mod (hi : i < n) : (i + 1) % n = if i + 1 = n then 0 else i + 1 := by
  split
  · next h => rw [h, Nat.mod_self]
  · exact Nat.mod_eq_of_lt (by omega)

/-- A round towards another position brings the counter one closer to it. -/
theorem ringDistance_succ (hi : i < n) (hj : j < n) (hij : i ≠ j) :
    ringDistance n ((i + 1) % n) j + 1 = ringDistance n i j := by
  rw [succ_mod hi, ringDistance, ringDistance]
  split <;> split <;> split <;> omega

theorem mem_ringArc (hi : i < n) (hj : j < n) (hlen : len ≤ n) :
    j ∈ ringArc n i len ↔ ringDistance n i j < len := by
  induction len generalizing i with
  | zero => simp [ringArc]
  | succ len ih =>
    have hpos : 0 < n := by omega
    rw [ringArc_succ hi, List.mem_cons, ih (Nat.mod_lt _ hpos) (by omega)]
    by_cases hij : i = j
    · subst hij
      simp [ringDistance]
    · have hsucc := ringDistance_succ hi hj hij
      constructor
      · intro h
        rcases h with h | h
        · exact absurd h.symm hij
        · omega
      · intro h
        exact .inr (by omega)

theorem lt_of_mem_ringArc (hi : i < n) (h : j ∈ ringArc n i len) : j < n := by
  obtain ⟨k, -, rfl⟩ := List.mem_map.mp h
  exact Nat.mod_lt _ (by omega)

/-- With fuel for all positions up to the last one, the loop is a fold over them. -/
theorem ringLoop_eq_foldlM (hi : i < n) (hlast : last < n) (hfuel : ringDistance n i last < fuel) :
    ringLoop n body last fuel i s =
      (ringArc n i (ringDistance n i last + 1)).foldlM (fun s i => body i s) s := by
  induction fuel generalizing i s with
  | zero => omega
  | succ fuel ih =>
    rw [ringLoop, ringArc_succ hi, List.foldlM_cons]
    split
    · next h =>
      subst h
      simp [ringDistance, ringArc]
    · next h =>
      have hsucc := ringDistance_succ hi hlast h
      have hmod := Nat.mod_lt (i + 1) (show 0 < n by omega)
      rw [← hsucc]
      apply congrArg
      funext t
      exact ih hmod (by omega)

/-- A counter that stays on the ring never meets an end that is not on it. -/
theorem ringLoop_eq_none (hi : i < n) (hlast : n ≤ last) (fuel : ℕ) :
    ringLoop n body last fuel i s = none := by
  induction fuel generalizing i s with
  | zero => rfl
  | succ fuel ih =>
    rw [ringLoop, if_neg (by omega)]
    cases hbody : body i s with
    | none => rfl
    | some t => exact ih (Nat.mod_lt _ (by omega))

/-- The loop ends with fuel for the whole ring if it ends with any fuel. -/
theorem ringLoop_complete (hi : i < n) (h : ringLoop n body last fuel i s = some s') :
    ringLoop n body last n i s = some s' := by
  by_cases hlast : last < n
  · rw [ringLoop_eq_foldlM hi hlast (ringDistance_lt hi hlast)]
    induction fuel generalizing i s with
    | zero => cases h
    | succ fuel ih =>
      rw [ringArc_succ hi, List.foldlM_cons]
      rw [ringLoop] at h
      split at h
      · next heq =>
        subst heq
        simpa [ringDistance, ringArc] using h
      · next hne =>
        obtain ⟨t, ht, h⟩ := Option.bind_eq_some_iff.mp h
        have hnext := ih (Nat.mod_lt _ (by omega)) h
        rw [ringDistance_succ hi hlast hne] at hnext
        rw [ht]
        exact hnext
  · rw [ringLoop_eq_none hi (by omega)] at h
    cases h

/-- A body that never fails and changes one position each. -/
theorem foldlM_update {α : Type*} (f : ℕ → α) (l : List ℕ) (b : ℕ → α) :
    l.foldlM (fun b i => some (Function.update b i (f i))) b =
      some (fun j => if j ∈ l then f j else b j) := by
  induction l generalizing b with
  | nil => simp
  | cons i l ih =>
    rw [List.foldlM_cons, Option.bind_eq_bind, Option.bind_some, ih]
    congr 1
    funext j
    by_cases hj : j ∈ l
    · simp [hj]
    · by_cases hij : j = i
      · simp [hij]
      · simp [hj, hij]

end Ns3Noc.RingLoops
