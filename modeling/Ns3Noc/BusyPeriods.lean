import Mathlib

/-!
# Busy periods and idle slots

A medium is busy for periods of several kinds. A slot is clear when it starts no earlier than some
wait after each period, or ends before the period starts.
-/
namespace Ns3Noc.BusyPeriods

variable {κ α : Type*}

structure Period (κ α : Type*) where
  kind : κ
  start : α
  stop : α
  deriving DecidableEq, Repr

/-- The periods of these kinds end now. -/
def cut [DecidableEq κ] [LinearOrder α] (kinds : List κ) (now : α) (periods : List (Period κ α)) :
    List (Period κ α) :=
  periods.map fun p => if p.kind ∈ kinds then { p with stop := min p.stop now } else p

@[simp] theorem cut_nil [DecidableEq κ] [LinearOrder α] (now : α) (periods : List (Period κ α)) :
    cut [] now periods = periods := by
  simp [cut]

theorem exists_of_mem_cut [DecidableEq κ] [LinearOrder α] {kinds : List κ} {now : α}
    {periods : List (Period κ α)} {p : Period κ α} (hp : p ∈ cut kinds now periods) :
    ∃ q ∈ periods, q.kind = p.kind ∧ q.start = p.start ∧ p.stop ≤ q.stop ∧
      (p.kind ∈ kinds → p.stop ≤ now) := by
  obtain ⟨q, hq, rfl⟩ := List.mem_map.mp hp
  refine ⟨q, hq, ?_⟩
  by_cases hk : q.kind ∈ kinds
  · simp [hk]
  · simp [hk]

section Slots

variable [CommRing α] [LinearOrder α] [IsStrictOrderedRing α]

def Clear (wait slot : α) (periods : List (Period κ α)) (s : α) : Prop :=
  ∀ p ∈ periods, p.stop + wait ≤ s ∨ s + slot ≤ p.start

/-- Disjoint clear slots between two times, in their order. -/
structure ClearSlots (wait slot : α) (periods : List (Period κ α)) (a b : α) (slots : List α) :
    Prop where
  clear : ∀ s ∈ slots, Clear wait slot periods s
  within : ∀ s ∈ slots, a ≤ s ∧ s + slot ≤ b
  spaced : slots.Pairwise fun s t => s + slot ≤ t

namespace ClearSlots

variable {wait slot a b : α} {periods : List (Period κ α)} {slots : List α}

omit [IsStrictOrderedRing α] in
theorem nil : ClearSlots wait slot periods a b [] := ⟨by simp, by simp, .nil⟩

omit [IsStrictOrderedRing α] in
theorem mono (h : ClearSlots wait slot periods a b slots) {c : α} (hbc : b ≤ c) :
    ClearSlots wait slot periods a c slots :=
  ⟨h.clear, fun s hs => ⟨(h.within s hs).1, (h.within s hs).2.trans hbc⟩, h.spaced⟩

/-- Periods may be cut and may start later. -/
theorem of_later (h : ClearSlots wait slot periods a b slots) {periods' : List (Period κ α)}
    (hlater : ∀ p ∈ periods', b ≤ p.start ∨
      ∃ q ∈ periods, q.start = p.start ∧ p.stop ≤ q.stop) :
    ClearSlots wait slot periods' a b slots := by
  refine ⟨fun s hs p hp => ?_, h.within, h.spaced⟩
  cases hlater p hp with
  | inl hp => exact .inr ((h.within s hs).2.trans hp)
  | inr hq =>
    obtain ⟨q, hq, hstart, hstop⟩ := hq
    cases h.clear s hs q hq with
    | inl h => exact .inl (by linarith)
    | inr h => exact .inr (hstart ▸ h)

/-- Consecutive slots that start after the wait. -/
theorem append_range (h : ClearSlots wait slot periods a b slots) {c : α} (hbc : b ≤ c)
    (hab : a ≤ b) (hslot : 0 ≤ slot) (hwait : ∀ p ∈ periods, p.stop + wait ≤ c) (n : ℕ) :
    ClearSlots wait slot periods a (c + n * slot)
      (slots ++ (List.range n).map fun k : ℕ => c + k * slot) := by
  have hle : ∀ k : ℕ, c ≤ c + k * slot := fun k =>
    le_add_of_nonneg_right (mul_nonneg (Nat.cast_nonneg k) hslot)
  have hnext : ∀ {j k : ℕ}, j < k → c + j * slot + slot ≤ c + k * slot := fun {j k} hjk => by
    have : ((j + 1 : ℕ) : α) * slot ≤ k * slot :=
      mul_le_mul_of_nonneg_right (Nat.cast_le.mpr hjk) hslot
    push_cast at this
    linarith
  refine ⟨fun s hs => ?_, fun s hs => ?_, ?_⟩
  · rcases List.mem_append.mp hs with hs | hs
    · exact h.clear s hs
    · obtain ⟨k, -, rfl⟩ := List.mem_map.mp hs
      exact fun p hp => .inl ((hwait p hp).trans (hle k))
  · rcases List.mem_append.mp hs with hs | hs
    · exact ⟨(h.within s hs).1, (h.within s hs).2.trans (hbc.trans (hle n))⟩
    · obtain ⟨k, hk, rfl⟩ := List.mem_map.mp hs
      exact ⟨(hab.trans hbc).trans (hle k), hnext (List.mem_range.mp hk)⟩
  · refine List.pairwise_append.mpr ⟨h.spaced, ?_, fun s hs t ht => ?_⟩
    · exact List.pairwise_map.mpr (List.pairwise_lt_range.imp hnext)
    · obtain ⟨k, -, rfl⟩ := List.mem_map.mp ht
      exact (h.within s hs).2.trans (hbc.trans (hle k))

end ClearSlots

end Slots

end Ns3Noc.BusyPeriods
