import Ns3Noc.ObjectAggregates

/-!
# Sorted arrays of aggregated objects

Moving one object up keeps the others in their order, so an array stays sorted by the access counts when
a count grows and when arrays are merged.
-/
namespace Ns3Noc

variable {ω : Type} {count : ω → UInt32}

/-- Non-increasing access counts -/
def SortedBy (count : ω → UInt32) (array : List ω) : Prop :=
  array.Pairwise fun a b => count b ≤ count a

theorem swap_eq (before : List ω) (y x : ω) (after : List ω) :
    ((before ++ y :: x :: after).set before.length x).set (before.length + 1) y =
      before ++ x :: y :: after := by
  cases before with
  | nil => rfl
  | cons z before => simp

/-- The object passes those before it with a smaller count. -/
theorem updateSortedArray_eq (count : ω → UInt32) (before : List ω) (x : ω) (after : List ω) :
    ∃ higher lower, before = higher ++ lower ∧ (∀ y ∈ lower, count y < count x) ∧
      (∀ y, higher.getLast? = some y → count x ≤ count y) ∧
      updateSortedArray count (before ++ x :: after) before.length =
        higher ++ x :: (lower ++ after) := by
  induction before using List.reverseRecOn generalizing after with
  | nil => exact ⟨[], [], rfl, by simp, by simp, rfl⟩
  | append_singleton before y ih =>
    have hprevious : (before ++ [y] ++ x :: after)[before.length]? = some y := by simp
    have hcurrent : (before ++ [y] ++ x :: after)[before.length + 1]? = some x := by simp
    rw [List.length_append, List.length_singleton, updateSortedArray, hprevious, hcurrent]
    by_cases hlt : count x > count y
    · obtain ⟨higher, lower, rfl, hlower, hhigher, heq⟩ := ih (y :: after)
      have hswap : ((higher ++ lower ++ [y] ++ x :: after).set (higher ++ lower).length x).set
          ((higher ++ lower).length + 1) y = higher ++ lower ++ x :: y :: after := by
        rw [List.append_assoc _ [y], List.singleton_append]
        exact swap_eq _ _ _ _
      refine ⟨higher, lower ++ [y], by simp, ?_, hhigher, ?_⟩
      · intro z hz
        rcases List.mem_append.mp hz with hz | hz
        · exact hlower z hz
        · rw [List.mem_singleton.mp hz]
          exact hlt
      · simp only [if_pos hlt, hswap, heq]
        simp
    · refine ⟨before ++ [y], [], by simp, by simp, ?_, by simp [hlt]⟩
      intro z hz
      obtain rfl : y = z := by simpa using hz
      exact UInt32.not_lt.mp hlt

theorem updateSortedArray_perm (count : ω → UInt32) (before : List ω) (x : ω) (after : List ω) :
    (updateSortedArray count (before ++ x :: after) before.length).Perm (before ++ x :: after) := by
  obtain ⟨higher, lower, rfl, -, -, heq⟩ := updateSortedArray_eq count before x after
  rw [heq, List.append_assoc]
  exact List.Perm.append_left _ List.perm_middle.symm

theorem SortedBy.le_of_getLast {array : List ω} (h : SortedBy count array) {n : UInt32}
    (hlast : ∀ y, array.getLast? = some y → n ≤ count y) : ∀ y ∈ array, n ≤ count y := by
  intro y hy
  induction array using List.reverseRecOn with
  | nil => cases hy
  | append_singleton array z _ =>
    have hz : n ≤ count z := hlast z (by simp)
    rcases List.mem_append.mp hy with hy | hy
    · exact UInt32.le_trans hz ((List.pairwise_append.mp h).2.2 y hy z (List.mem_singleton_self z))
    · rw [List.mem_singleton.mp hy]
      exact hz

/-- A sorted array stays sorted where the moved object has no smaller count than those after it. -/
theorem SortedBy.updateSortedArray {before : List ω} {x : ω} {after : List ω}
    (h : SortedBy count (before ++ after)) (hx : ∀ y ∈ after, count y ≤ count x) :
    SortedBy count (Ns3Noc.updateSortedArray count (before ++ x :: after) before.length) := by
  obtain ⟨higher, lower, rfl, hlower, hhigher, heq⟩ := updateSortedArray_eq count before x after
  rw [List.append_assoc] at h
  have hpairs := List.pairwise_append.mp h
  have hhighest := SortedBy.le_of_getLast hpairs.1 hhigher
  rw [heq]
  refine List.pairwise_append.mpr ⟨hpairs.1, List.pairwise_cons.mpr ⟨fun y hy => ?_, hpairs.2.1⟩, ?_⟩
  · rcases List.mem_append.mp hy with hy | hy
    · exact UInt32.le_of_lt (hlower y hy)
    · exact hx y hy
  · intro y hy z hz
    rcases List.mem_cons.mp hz with rfl | hz
    · exact hhighest y hy
    · exact hpairs.2.2 y hy z hz

theorem SortedBy.congr {count' : ω → UInt32} {array : List ω} (h : SortedBy count array)
    (heq : ∀ x ∈ array, count' x = count x) : SortedBy count' array := by
  refine List.Pairwise.imp_of_mem (fun {a b} ha hb hle => ?_) h
  rw [heq a ha, heq b hb]
  exact hle

/-- A count grows by one, and its object moves up. -/
theorem SortedBy.access [DecidableEq ω] {array : List ω} (h : SortedBy count array)
    (hnodup : array.Nodup) {i : ℕ} {x : ω} (hx : array[i]? = some x)
    (hlt : (count x).toNat + 1 < 2 ^ 32) :
    SortedBy (Function.update count x (count x + 1))
      (Ns3Noc.updateSortedArray (Function.update count x (count x + 1)) array i) := by
  obtain ⟨hi, rfl⟩ := List.getElem?_eq_some_iff.mp hx
  have hsplit : array = array.take i ++ array[i] :: array.drop (i + 1) := by
    rw [List.cons_getElem_drop_succ, List.take_append_drop]
  have hlength : (array.take i).length = i := by simp [hi.le]
  rw [hsplit, List.nodup_middle, List.nodup_cons] at hnodup
  have hpairs : SortedBy count (array.take i ++ array[i] :: array.drop (i + 1)) := hsplit ▸ h
  have hrest : SortedBy (Function.update count array[i] (count array[i] + 1))
      (array.take i ++ array.drop (i + 1)) := by
    refine SortedBy.congr (hpairs.sublist (List.Sublist.append_left (List.sublist_cons_self _ _) _)) ?_
    intro y hy
    exact Function.update_of_ne (fun heq : y = array[i] => hnodup.1 (heq ▸ hy)) _ _
  have hafter : ∀ y ∈ array.drop (i + 1),
      Function.update count array[i] (count array[i] + 1) y ≤
        Function.update count array[i] (count array[i] + 1) array[i] := by
    intro y hy
    have hne : y ≠ array[i] := fun heq => hnodup.1 (heq ▸ List.mem_append_right _ hy)
    have hle := (List.pairwise_cons.mp (List.pairwise_append.mp hpairs).2.1).1 y hy
    rw [Function.update_of_ne hne, Function.update_self, UInt32.le_iff_toNat_le, UInt32.toNat_add,
      UInt32.toNat_one, Nat.mod_eq_of_lt hlt]
    rw [UInt32.le_iff_toNat_le] at hle
    exact hle.trans (Nat.le_succ _)
  have hmoved := hrest.updateSortedArray hafter
  rw [hlength, ← hsplit] at hmoved
  exact hmoved

end Ns3Noc
