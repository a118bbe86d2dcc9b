import Mathlib

/-!
# A scan for the best elements of a list

The scan keeps the elements with the best value seen so far and starts from a floor: an
element below the floor is never kept.
-/
namespace Ns3Noc.BestOf

variable {α β : Type*} [LinearOrder β]

/-- One step of the scan: the kept elements and the best value. -/
def keepBest (f : α → β) (kept : List α × β) (a : α) : List α × β :=
  if kept.2 < f a then ([a], f a)
  else if f a = kept.2 then (a :: kept.1, kept.2) else kept

/-- The elements of the list with the best value that is at least `floor`. -/
def bestOf (f : α → β) (floor : β) (l : List α) : List α := (l.foldl (keepBest f) ([], floor)).1

/-- What is kept, relative to the elements scanned so far. -/
structure Kept (f : α → β) (floor : β) (l : List α) (kept : List α × β) : Prop where
  mem_iff : ∀ a, a ∈ kept.1 ↔ a ∈ l ∧ f a = kept.2
  floor_le : floor ≤ kept.2
  upper : ∀ a ∈ l, f a ≤ kept.2
  attained : kept.2 = floor ∨ ∃ a ∈ l, f a = kept.2

theorem Kept.step {f : α → β} {floor : β} {l : List α} {kept : List α × β}
    (h : Kept f floor l kept) (a : α) : Kept f floor (l ++ [a]) (keepBest f kept a) := by
  obtain ⟨hmem, hfloor, hupper, hattained⟩ := h
  unfold keepBest
  split
  · next hlt =>
    constructor
    · intro b
      simp only [List.mem_singleton, List.mem_append]
      constructor
      · rintro rfl
        exact ⟨.inr rfl, rfl⟩
      · rintro ⟨hb | hb, heq⟩
        · exact absurd (heq ▸ hupper b hb) hlt.not_ge
        · exact hb
    · exact hfloor.trans hlt.le
    · intro b hb
      rcases List.mem_append.mp hb with hb | hb
      · exact (hupper b hb).trans hlt.le
      · exact (congrArg f (List.mem_singleton.mp hb)).le
    · exact .inr ⟨a, by simp, rfl⟩
  · next hle =>
    rw [not_lt] at hle
    have hupper' : ∀ b ∈ l ++ [a], f b ≤ kept.2 := by
      intro b hb
      rcases List.mem_append.mp hb with hb | hb
      · exact hupper b hb
      · exact (congrArg f (List.mem_singleton.mp hb)).le.trans hle
    have hattained' : kept.2 = floor ∨ ∃ b ∈ l ++ [a], f b = kept.2 := by
      rcases hattained with h | ⟨b, hb, h⟩
      · exact .inl h
      · exact .inr ⟨b, List.mem_append_left _ hb, h⟩
    split
    · next heq =>
      refine ⟨?_, hfloor, hupper', hattained'⟩
      intro b
      simp only [List.mem_cons, hmem, List.mem_append, List.not_mem_nil, or_false]
      constructor
      · rintro (rfl | ⟨hb, h⟩)
        · exact ⟨.inr rfl, heq⟩
        · exact ⟨.inl hb, h⟩
      · rintro ⟨hb | hb, h⟩
        · exact .inr ⟨hb, h⟩
        · exact .inl hb
    · next hne =>
      refine ⟨?_, hfloor, hupper', hattained'⟩
      intro b
      rw [hmem, List.mem_append, List.mem_singleton]
      constructor
      · rintro ⟨hb, h⟩
        exact ⟨.inl hb, h⟩
      · rintro ⟨hb | rfl, h⟩
        · exact ⟨hb, h⟩
        · exact absurd h hne

theorem kept_bestOf (f : α → β) (floor : β) (l : List α) :
    Kept f floor l (l.foldl (keepBest f) ([], floor)) := by
  induction l using List.reverseRecOn with
  | nil => exact ⟨by simp, le_rfl, by simp, .inl rfl⟩
  | append_singleton l a ih =>
    rw [List.foldl_append]
    exact ih.step a

theorem mem_bestOf {f : α → β} {floor : β} {l : List α} {a : α} :
    a ∈ bestOf f floor l ↔ a ∈ l ∧ floor ≤ f a ∧ ∀ b ∈ l, f b ≤ f a := by
  obtain ⟨hmem, hfloor, hupper, hattained⟩ := kept_bestOf f floor l
  rw [bestOf, hmem]
  constructor
  · rintro ⟨ha, heq⟩
    exact ⟨ha, heq ▸ hfloor, fun b hb => heq ▸ hupper b hb⟩
  · rintro ⟨ha, hle, hbest⟩
    refine ⟨ha, le_antisymm (hupper a ha) ?_⟩
    rcases hattained with h | ⟨b, hb, h⟩
    · exact h.le.trans hle
    · exact h.ge.trans (hbest b hb)

/-- Nothing is kept exactly when every element is below the floor. -/
theorem bestOf_eq_nil {f : α → β} {floor : β} {l : List α} :
    bestOf f floor l = [] ↔ ∀ a ∈ l, f a < floor := by
  obtain ⟨hmem, hfloor, hupper, hattained⟩ := kept_bestOf f floor l
  rw [bestOf, List.eq_nil_iff_forall_not_mem]
  constructor
  · intro hnone
    have hbest : (l.foldl (keepBest f) ([], floor)).2 = floor := by
      rcases hattained with h | ⟨b, hb, h⟩
      · exact h
      · exact absurd ((hmem b).mpr ⟨hb, h⟩) (hnone b)
    intro a ha
    refine lt_of_le_of_ne (hbest ▸ hupper a ha) ?_
    intro heq
    exact hnone a ((hmem a).mpr ⟨ha, heq.trans hbest.symm⟩)
  · intro hlt a ha
    obtain ⟨hal, heq⟩ := (hmem a).mp ha
    exact absurd (hlt a hal) (heq ▸ hfloor).not_gt

end Ns3Noc.BestOf
