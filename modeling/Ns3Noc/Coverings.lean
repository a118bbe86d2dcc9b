import Mathlib

/-!
# Coverings

A record says that a provider reaches a target. Choosing a provider takes away all records of the
targets that it reaches. Whatever is chosen in whatever order, the targets whose records are gone
are reached by what was chosen.
-/
namespace Ns3Noc.Coverings

variable {ρ α β : Type*} (provider : ρ → α) (target : ρ → β)

/-- Every record is left, or its target is reached by a chosen provider. -/
structure Covers (all left : List ρ) (chosen : Finset α) : Prop where
  subset : ∀ r ∈ left, r ∈ all
  covered : ∀ r ∈ all, r ∈ left ∨ ∃ q ∈ all, target q = target r ∧ provider q ∈ chosen

/-- The records of targets that `a` does not reach. -/
def uncovered [DecidableEq α] [DecidableEq β] (a : α) (left : List ρ) : List ρ :=
  left.filter (fun r => target r ∉ (left.filter (fun q => provider q = a)).map target)

variable {provider target} {all left left' : List ρ} {chosen chosen' : Finset α} {a : α}

theorem Covers.start (all : List ρ) : Covers provider target all all ∅ :=
  ⟨fun _ hr => hr, fun _ hr => Or.inl hr⟩

/-- More is chosen, and records go only where what is chosen reaches their targets. -/
theorem Covers.next (h : Covers provider target all left chosen)
    (hsub : ∀ r ∈ left', r ∈ left) (hchosen : chosen ⊆ chosen')
    (hgone : ∀ r ∈ left, r ∉ left' →
      ∃ q ∈ left, target q = target r ∧ provider q ∈ chosen') :
    Covers provider target all left' chosen' where
  subset r hr := h.subset r (hsub r hr)
  covered r hr := by
    rcases h.covered r hr with hleft | ⟨q, hq, heq, hprovider⟩
    · by_cases hstays : r ∈ left'
      · exact Or.inl hstays
      · obtain ⟨q, hq, heq, hprovider⟩ := hgone r hleft hstays
        exact Or.inr ⟨q, h.subset q hq, heq, hprovider⟩
    · exact Or.inr ⟨q, hq, heq, hchosen hprovider⟩

section Choice
variable [DecidableEq α] [DecidableEq β]

theorem mem_uncovered {r : ρ} : r ∈ uncovered provider target a left ↔
    r ∈ left ∧ ∀ q ∈ left, provider q = a → target q ≠ target r := by
  rw [uncovered, List.mem_filter, decide_eq_true_eq, List.mem_map]
  constructor
  · intro ⟨hr, hnot⟩
    exact ⟨hr, fun q hq hp heq =>
      hnot ⟨q, List.mem_filter.mpr ⟨hq, decide_eq_true hp⟩, heq⟩⟩
  · intro ⟨hr, hall⟩
    refine ⟨hr, fun ⟨q, hq, heq⟩ => ?_⟩
    obtain ⟨hq, hp⟩ := List.mem_filter.mp hq
    exact hall q hq (of_decide_eq_true hp) heq

theorem Covers.choose (h : Covers provider target all left chosen) (a : α) :
    Covers provider target all (uncovered provider target a left) (insert a chosen) := by
  refine h.next (fun r hr => (mem_uncovered.mp hr).1) (Finset.subset_insert a chosen) ?_
  intro r hr hgone
  rw [mem_uncovered] at hgone
  by_contra hnone
  refine hgone ⟨hr, fun q hq hp heq => hnone ⟨q, hq, heq, ?_⟩⟩
  rw [hp]
  exact Finset.mem_insert_self a chosen

/-- A provider that reaches something takes a record away. -/
theorem length_uncovered_lt {r : ρ} (hr : r ∈ left) (ha : provider r = a) :
    (uncovered provider target a left).length < left.length := by
  refine List.length_filter_lt_length_iff_exists.mpr ⟨r, hr, ?_⟩
  rw [decide_eq_true_eq, not_not]
  exact List.mem_map.mpr ⟨r, List.mem_filter.mpr ⟨hr, decide_eq_true ha⟩, rfl⟩

end Choice

end Ns3Noc.Coverings
