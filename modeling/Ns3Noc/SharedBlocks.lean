import Mathlib

/-!
# Reference counts

Holders point at blocks, and every block counts its holders. A holder that is gone points nowhere.
-/
namespace Ns3Noc.SharedBlocks

section Numbered
variable {α : Type*} {l : List (Option α)} {i j : ℕ}

/-- A member of a numbered family after another one came or went. -/
theorem join_set (a : Option α) (hi : i < l.length) :
    (l.set i a)[j]?.join = if j = i then a else l[j]?.join := by
  by_cases h : j = i
  · subst h
    simp [hi]
  · rw [List.getElem?_set_ne (Ne.symm h), if_neg h]

theorem join_append (a : Option α) :
    (l ++ [a])[j]?.join = if j = l.length then a else l[j]?.join := by
  rcases Nat.lt_trichotomy j l.length with h | rfl | h
  · rw [List.getElem?_append_left h, if_neg (Nat.ne_of_lt h)]
  · simp
  · rw [if_neg (Nat.ne_of_gt h), List.getElem?_eq_none (by simp; omega),
      List.getElem?_eq_none (by omega)]

theorem lt_length_of_join {a : α} (h : l[i]?.join = some a) : i < l.length := by
  by_contra hge
  rw [List.getElem?_eq_none (Nat.not_lt.mp hge)] at h
  cases h

theorem getElem?_of_join {a : α} (h : l[i]?.join = some a) : l[i]? = some (some a) := by
  cases hl : l[i]? with
  | none => rw [hl] at h; cases h
  | some o => rw [hl] at h; exact congrArg some h

end Numbered

/-- Every block counts the holders that point at it. -/
def Counted (count : ℕ → ℕ) (refs : List (Option ℕ)) : Prop :=
  ∀ p, count p = refs.count (some p)

namespace Counted
variable {count count' : ℕ → ℕ} {refs : List (Option ℕ)} {i j p : ℕ}

theorem nil : Counted (fun _ => 0) [] := fun _ => rfl

theorem pos (h : Counted count refs) (hi : refs[i]? = some (some p)) : 0 < count p := by
  rw [h p]
  exact List.count_pos_iff.mpr (List.mem_of_getElem? hi)

/-- Another holder comes or an old one points elsewhere. -/
theorem set (h : Counted count refs) (count' : ℕ → ℕ) (new : Option ℕ) {old : Option ℕ}
    (hi : refs[i]? = some old) (hc : ∀ p, count' p + (if old = some p then 1 else 0) =
      count p + (if new = some p then 1 else 0)) : Counted count' (refs.set i new) := by
  intro p
  obtain ⟨hlt, hold⟩ := List.getElem?_eq_some_iff.mp hi
  have hcount := List.count_set (a := new) (b := some p) hlt
  rw [hold] at hcount
  have hp := hc p
  have hpos : old = some p → 0 < count p := fun heq => h.pos (hi.trans (congrArg some heq))
  rw [hcount, ← h p]
  simp only [beq_iff_eq]
  by_cases h1 : old = some p
  · have hone := hpos h1
    rw [if_pos h1] at hp ⊢
    omega
  · rw [if_neg h1] at hp ⊢
    omega

theorem append (h : Counted count refs) {new : Option ℕ}
    (hc : ∀ p, count' p = count p + (if new = some p then 1 else 0)) :
    Counted count' (refs ++ [new]) := by
  intro p
  rw [List.count_append, ← h p, hc p, List.count_singleton]
  simp only [beq_iff_eq]

/-- A block with one holder has no other. -/
theorem unique (h : Counted count refs) (hone : count p = 1) (hi : refs[i]? = some (some p))
    (hj : refs[j]? = some (some p)) : i = j := by
  by_contra hne
  have hset := h.set (Function.update count p 0) none hi (fun q => by
      by_cases hq : q = p
      · subst hq
        simp [hone]
      · simp [hq, Ne.symm hq])
  have hj' : (refs.set i none)[j]? = some (some p) := by rw [List.getElem?_set_ne hne, hj]
  have hpos := hset.pos hj'
  rw [Function.update_self] at hpos
  exact Nat.lt_irrefl 0 hpos

end Counted

end Ns3Noc.SharedBlocks
