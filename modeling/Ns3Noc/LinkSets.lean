import Mathlib.Data.List.Nodup
import Ns3Noc.OlsrState

/-!
# Addresses in the link and neighbour sets

Updates and insertions keep the addresses of a set or add one, and erasures take one away.
-/
namespace Ns3Noc.Olsr

section Keys
variable {κ : Type*} [DecidableEq κ] {l : List κ} {a b : κ}

/-- The keys after a tuple with key `a` was updated or added. -/
def addKey (l : List κ) (a : κ) : List κ := if a ∈ l then l else l ++ [a]

theorem mem_addKey : b ∈ addKey l a ↔ b ∈ l ∨ b = a := by
  rw [addKey]
  split
  · rename_i h
    exact ⟨Or.inl, fun hb => hb.elim id (fun heq => heq ▸ h)⟩
  · simp

theorem nodup_addKey (h : l.Nodup) : (addKey l a).Nodup := by
  rw [addKey]
  split
  · exact h
  · rename_i hnew
    rw [List.nodup_append]
    refine ⟨h, List.nodup_singleton a, fun x hx y hy => ?_⟩
    rw [List.mem_singleton.mp hy]
    exact fun heq => hnew (heq ▸ hx)

theorem addKey_of_mem (h : a ∈ l) : addKey l a = l := if_pos h

theorem addKey_addKey : addKey (addKey l a) a = addKey l a :=
  addKey_of_mem (mem_addKey.mpr (Or.inr rfl))

end Keys

namespace NeighborSet
variable {neighborSet : NeighborSet} {a : Ipv4Address}

/-- The addresses of the tuples. -/
def addrs (neighborSet : NeighborSet) : List Ipv4Address := neighborSet.map (·.neighborMainAddr)

theorem findNeighborTuple_eq_none : neighborSet.findNeighborTuple a = none ↔ a ∉ neighborSet.addrs := by
  rw [findNeighborTuple, List.find?_eq_none, addrs, List.mem_map]
  constructor
  · intro h ⟨nb, hnb, heq⟩
    exact h nb hnb (decide_eq_true heq)
  · intro h nb hnb heq
    exact h ⟨nb, hnb, of_decide_eq_true heq⟩

theorem addrs_insertNeighborTuple (neighborSet : NeighborSet) (tuple : NeighborTuple) :
    (neighborSet.insertNeighborTuple tuple).addrs =
      addKey neighborSet.addrs tuple.neighborMainAddr := by
  induction neighborSet with
  | nil => rfl
  | cons it rest ih =>
    rw [insertNeighborTuple]
    by_cases h : it.neighborMainAddr = tuple.neighborMainAddr
    · rw [if_pos h, addKey_of_mem]
      · simp [addrs, h]
      · simp [addrs, h]
    · rw [if_neg h]
      simp only [addrs, List.map_cons] at ih ⊢
      rw [ih, addKey, addKey]
      simp only [List.mem_cons, Ne.symm h, false_or]
      split
      · rfl
      · rfl

theorem addrs_modifyNeighborTuple {f : NeighborTuple → NeighborTuple}
    (hf : ∀ nb, (f nb).neighborMainAddr = nb.neighborMainAddr) (neighborSet : NeighborSet) :
    (neighborSet.modifyNeighborTuple f a).addrs = neighborSet.addrs := by
  induction neighborSet with
  | nil => rfl
  | cons it rest ih =>
    rw [modifyNeighborTuple]
    split
    · simp [addrs, hf]
    · simpa [addrs] using ih

/-- Where no two tuples share an address, the erasure takes all tuples of the address away. -/
theorem eraseNeighborTuple_eq (h : neighborSet.addrs.Nodup) :
    neighborSet.eraseNeighborTuple a = neighborSet.filter (fun nb => nb.neighborMainAddr ≠ a) := by
  induction neighborSet with
  | nil => rfl
  | cons it rest ih =>
    obtain ⟨hit, hrest⟩ := List.nodup_cons.mp h
    rw [eraseNeighborTuple, List.eraseP_cons]
    by_cases heq : it.neighborMainAddr = a
    · rw [decide_eq_true heq, cond_true, List.filter_cons_of_neg (by simpa using heq), eq_comm,
        List.filter_eq_self]
      intro nb hnb
      refine decide_eq_true (fun hnba => hit ?_)
      show it.neighborMainAddr ∈ _
      rw [heq, ← hnba]
      exact List.mem_map_of_mem hnb
    · rw [decide_eq_false heq, cond_false, List.filter_cons_of_pos (by simpa using heq)]
      exact congrArg (it :: ·) (ih hrest)

theorem mem_addrs_erase (h : neighborSet.addrs.Nodup) {b : Ipv4Address} :
    b ∈ (neighborSet.eraseNeighborTuple a).addrs ↔ b ∈ neighborSet.addrs ∧ b ≠ a := by
  rw [eraseNeighborTuple_eq h, addrs, addrs, List.mem_map, List.mem_map]
  constructor
  · rintro ⟨nb, hnb, rfl⟩
    obtain ⟨hnb, hne⟩ := List.mem_filter.mp hnb
    exact ⟨⟨nb, hnb, rfl⟩, of_decide_eq_true hne⟩
  · rintro ⟨⟨nb, hnb, rfl⟩, hne⟩
    exact ⟨nb, List.mem_filter.mpr ⟨hnb, decide_eq_true hne⟩, rfl⟩

theorem length_filter_addr (h : neighborSet.addrs.Nodup) (ha : a ∈ neighborSet.addrs) :
    (neighborSet.filter (fun nb => nb.neighborMainAddr = a)).length = 1 := by
  rw [← List.countP_eq_length_filter, ← List.count_eq_one_of_mem h ha, addrs, List.count,
    List.countP_map]
  congr 1

theorem nodup_erase (h : neighborSet.addrs.Nodup) :
    (neighborSet.eraseNeighborTuple a).addrs.Nodup :=
  h.sublist (List.Sublist.map _ List.eraseP_sublist)

end NeighborSet

namespace LinkSet
variable {linkSet before after : LinkSet} {tuple : LinkTuple} {a : Ipv4Address}

def addrs (linkSet : LinkSet) : List Ipv4Address := linkSet.map (·.neighborIfaceAddr)

theorem addrs_modifyLinkTuple {f : LinkTuple → LinkTuple}
    (hf : ∀ link, link.neighborIfaceAddr = a → (f link).neighborIfaceAddr = a)
    (linkSet : LinkSet) : (linkSet.modifyLinkTuple f a).addrs = linkSet.addrs := by
  induction linkSet with
  | nil => rfl
  | cons it rest ih =>
    rw [modifyLinkTuple]
    split
    · rename_i h
      simp [addrs, hf it h, h]
    · simpa [addrs] using ih

theorem findLinkTuple_eq_none : linkSet.findLinkTuple a = none ↔ a ∉ linkSet.addrs := by
  rw [findLinkTuple, List.find?_eq_none, addrs, List.mem_map]
  constructor
  · intro h ⟨link, hlink, heq⟩
    exact h link hlink (decide_eq_true heq)
  · intro h link hlink heq
    exact h ⟨link, hlink, of_decide_eq_true heq⟩

/-- A link tuple that was found, with the tuples before and after it. -/
theorem split_of_find (h : linkSet.findLinkTuple a = some tuple) :
    ∃ before after, linkSet = before ++ tuple :: after ∧ tuple.neighborIfaceAddr = a ∧
      a ∉ LinkSet.addrs before := by
  obtain ⟨htuple, before, after, heq, hbefore⟩ := List.find?_eq_some_iff_append.mp h
  refine ⟨before, after, heq, of_decide_eq_true htuple, fun hmem => ?_⟩
  obtain ⟨link, hlink, haddr⟩ := List.mem_map.mp hmem
  have := hbefore link hlink
  simp [haddr] at this

theorem findIdx_split (hbefore : a ∉ LinkSet.addrs before) (htuple : tuple.neighborIfaceAddr = a) :
    (before ++ tuple :: after).findIdx (fun it => it.neighborIfaceAddr = a) = before.length := by
  induction before with
  | nil => simp [List.findIdx_cons, htuple]
  | cons it rest ih =>
    simp only [addrs, List.map_cons, List.mem_cons, not_or] at hbefore ih ⊢
    rw [List.cons_append, List.findIdx_cons, decide_eq_false (Ne.symm hbefore.1), ih hbefore.2]
    rfl

theorem erase_split (hbefore : tuple.neighborIfaceAddr ∉ LinkSet.addrs before) :
    LinkSet.eraseLinkTuple (before ++ tuple :: after) tuple = before ++ after := by
  induction before with
  | nil => simp [eraseLinkTuple, same]
  | cons it rest ih =>
    simp only [addrs, List.map_cons, List.mem_cons, not_or] at hbefore ih
    have hne : same it tuple = false := by
      simp only [same, decide_eq_false_iff_not, not_and]
      exact fun _ heq => hbefore.1 heq.symm
    rw [List.cons_append, eraseLinkTuple, List.eraseP_cons, hne, cond_false]
    exact congrArg (it :: ·) (ih hbefore.2)

/-- Where no two tuples share an address, the rest is the tuples of other addresses. -/
theorem filter_split (h : (LinkSet.addrs (before ++ tuple :: after)).Nodup) :
    (before ++ tuple :: after).filter
      (fun link => link.neighborIfaceAddr ≠ tuple.neighborIfaceAddr) = before ++ after := by
  rw [addrs, List.map_append, List.map_cons, List.nodup_middle, List.nodup_cons, List.mem_append] at h
  have hother : ∀ links : LinkSet, tuple.neighborIfaceAddr ∉ links.map (·.neighborIfaceAddr) →
      links.filter (fun link => link.neighborIfaceAddr ≠ tuple.neighborIfaceAddr) = links := by
    intro links hlinks
    rw [List.filter_eq_self]
    exact fun link hlink => decide_eq_true (fun heq => hlinks (heq ▸ List.mem_map_of_mem hlink))
  rw [List.filter_append, List.filter_cons_of_neg (by simp), hother _ (fun hb => h.1 (Or.inl hb)),
    hother _ (fun ha => h.1 (Or.inr ha))]

end LinkSet

end Ns3Noc.Olsr
