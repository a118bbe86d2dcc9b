import Mathlib
import Ns3Noc.Coverings
import Ns3Noc.OlsrState

/-!
# MPR computation

`MprComputation` chooses multipoint relays among the symmetric neighbours in four phases that share
one working set of 2-hop tuples. The last phase is a loop, which gives `none` where its rounds run
out of fuel.
-/
namespace Ns3Noc.Olsr
open Coverings

/-- `CoverTwoHopNeighbors` -/
def coverTwoHopNeighbors (neighborMainAddr : Ipv4Address) (N2 : TwoHopNeighborSet) :
    TwoHopNeighborSet :=
  let toRemove := (N2.filter (fun twoHopNeigh =>
    twoHopNeigh.neighborMainAddr = neighborMainAddr)).map (·.twoHopNeighborAddr)
  N2.filter (fun twoHopNeigh => !toRemove.contains twoHopNeigh.twoHopNeighborAddr)

/-- The part of the state that `MprComputation` reads. -/
structure MprInput where
  mainAddress : Ipv4Address
  neighborSet : NeighborSet
  twoHopNeighborSet : TwoHopNeighborSet

namespace MprInput

variable (state : MprInput)

/-- The neighbour of the 2-hop tuple is looked up, not that of `tuple`. -/
def degree (tuple : NeighborTuple) : ℕ :=
  (state.twoHopNeighborSet.filter (fun nb2hop_tuple =>
    nb2hop_tuple.neighborMainAddr = tuple.neighborMainAddr ∧
      state.neighborSet.findNeighborTuple nb2hop_tuple.neighborMainAddr = none)).length

def N : NeighborSet := state.neighborSet.filter (fun neighbor => neighbor.status = .sym)

/-- The first neighbour with the address decides. -/
def reachedWillingly (twoHopNeigh : TwoHopNeighborTuple) : Bool :=
  match state.N.find? (fun neigh => neigh.neighborMainAddr = twoHopNeigh.neighborMainAddr) with
  | some neigh => neigh.willingness ≠ OLSR_WILL_NEVER
  | none => false

def N2 : TwoHopNeighborSet :=
  state.twoHopNeighborSet.filter (fun twoHopNeigh =>
    twoHopNeigh.twoHopNeighborAddr ≠ state.mainAddress ∧ state.reachedWillingly twoHopNeigh ∧
      ∀ neigh ∈ state.N, neigh.neighborMainAddr ≠ twoHopNeigh.twoHopNeighborAddr)

/-- 1. The neighbours that are always willing. -/
def alwaysWilling (mpr : MprSet × TwoHopNeighborSet) (neighbor : NeighborTuple) :
    MprSet × TwoHopNeighborSet :=
  if neighbor.willingness = OLSR_WILL_ALWAYS then
    (insert neighbor.neighborMainAddr mpr.1, coverTwoHopNeighbors neighbor.neighborMainAddr mpr.2)
  else mpr

def onlyOne (N2 : TwoHopNeighborSet) (twoHopNeigh : TwoHopNeighborTuple) : Bool :=
  N2.all (fun otherTwoHopNeigh =>
    ¬(otherTwoHopNeigh.twoHopNeighborAddr = twoHopNeigh.twoHopNeighborAddr ∧
      otherTwoHopNeigh.neighborMainAddr ≠ twoHopNeigh.neighborMainAddr))

/-- 3. The neighbours that are the only ones to reach a 2-hop neighbour, with all that they reach. -/
def onlyProviders (N2 : TwoHopNeighborSet) (mpr : MprSet × List Ipv4Address)
    (twoHopNeigh : TwoHopNeighborTuple) : MprSet × List Ipv4Address :=
  if onlyOne N2 twoHopNeigh then
    (insert twoHopNeigh.neighborMainAddr mpr.1,
      mpr.2 ++ (N2.filter (fun otherTwoHopNeigh =>
        otherTwoHopNeigh.neighborMainAddr = twoHopNeigh.neighborMainAddr)).map
          (·.twoHopNeighborAddr))
  else mpr

def reachability (N2 : TwoHopNeighborSet) (nb_tuple : NeighborTuple) : ℕ :=
  (N2.filter (fun nb2hop_tuple =>
    nb_tuple.neighborMainAddr = nb2hop_tuple.neighborMainAddr)).length

/-- The comparison of a neighbour with reachability `r` to the best one so far. -/
def better (r : ℕ) (max : Option (NeighborTuple × ℕ)) (nb_tuple : NeighborTuple) :
    Option (NeighborTuple × ℕ) :=
  match max with
  | none => some (nb_tuple, r)
  | some (max, max_r) =>
    if nb_tuple.willingness > max.willingness then some (nb_tuple, r)
    else if nb_tuple.willingness = max.willingness then
      if r > max_r then some (nb_tuple, r)
      else if r = max_r then
        if state.degree nb_tuple > state.degree max then some (nb_tuple, r) else some (max, max_r)
      else some (max, max_r)
    else some (max, max_r)

/-- 4.1 and 4.2. The neighbours are met by increasing reachability. -/
def selectMpr (N2 : TwoHopNeighborSet) : Option (NeighborTuple × ℕ) :=
  let rs := ((state.N.map (reachability N2)).dedup).insertionSort (· ≤ ·)
  rs.foldl (fun max r =>
    if r = 0 then max
    else (state.N.filter (fun nb_tuple => reachability N2 nb_tuple = r)).foldl (state.better r) max)
    none

/-- 4. The loop. A round that selects nobody changes nothing. -/
def coverRemaining : ℕ → MprSet → TwoHopNeighborSet → Option MprSet
  | _, mprSet, [] => some mprSet
  | 0, _, _ :: _ => none
  | fuel + 1, mprSet, N2 =>
    match state.selectMpr N2 with
    | some (max, _) =>
      coverRemaining fuel (insert max.neighborMainAddr mprSet)
        (coverTwoHopNeighbors max.neighborMainAddr N2)
    | none => coverRemaining fuel mprSet N2

def mprComputation (fuel : ℕ) : Option MprSet :=
  let (mprSet, N2) := state.N.foldl alwaysWilling (∅, state.N2)
  let (mprSet, coveredTwoHopNeighbors) := N2.foldl (onlyProviders N2) (mprSet, [])
  let N2 := N2.filter (fun twoHopNeigh =>
    !coveredTwoHopNeighbors.contains twoHopNeigh.twoHopNeighborAddr)
  state.coverRemaining fuel mprSet N2

variable {state : MprInput} {N2 : TwoHopNeighborSet} {mprSet : MprSet} {a : Ipv4Address}

/-- What is chosen are addresses of symmetric neighbours. -/
def Relays (state : MprInput) (mprSet : MprSet) : Prop :=
  ∀ a ∈ mprSet, ∃ nb ∈ state.N, nb.neighborMainAddr = a

/-- The 2-hop tuples are those of symmetric neighbours. -/
def Listed (state : MprInput) (N2 : TwoHopNeighborSet) : Prop :=
  ∀ t ∈ N2, ∃ nb ∈ state.N, nb.neighborMainAddr = t.neighborMainAddr

theorem Relays.insert (h : Relays state mprSet) (ha : ∃ nb ∈ state.N, nb.neighborMainAddr = a) :
    Relays state (insert a mprSet) := by
  intro x hx
  rcases Finset.mem_insert.mp hx with rfl | hx
  · exact ha
  · exact h x hx

theorem listed_N2 (state : MprInput) : Listed state state.N2 := by
  intro t ht
  have hwilling := (of_decide_eq_true (List.mem_filter.mp ht).2).2.1
  rw [reachedWillingly] at hwilling
  split at hwilling
  · rename_i nb hnb
    have haddr := List.find?_some hnb
    exact ⟨nb, List.mem_of_find?_eq_some hnb, of_decide_eq_true haddr⟩
  · cases hwilling

/-- The invariant of all phases. -/
structure Progress (state : MprInput) (mprSet : MprSet) (N2 : TwoHopNeighborSet) : Prop where
  relays : Relays state mprSet
  covers : Covers TwoHopNeighborTuple.neighborMainAddr TwoHopNeighborTuple.twoHopNeighborAddr
    state.N2 N2 mprSet
  length : N2.length ≤ state.twoHopNeighborSet.length

theorem Progress.listed (h : Progress state mprSet N2) : Listed state N2 :=
  fun t ht => listed_N2 state t (h.covers.subset t ht)

theorem coverTwoHopNeighbors_eq (a : Ipv4Address) (N2 : TwoHopNeighborSet) :
    coverTwoHopNeighbors a N2 =
      uncovered TwoHopNeighborTuple.neighborMainAddr TwoHopNeighborTuple.twoHopNeighborAddr a N2 := by
  rw [coverTwoHopNeighbors, uncovered]
  apply List.filter_congr
  intro t _
  rw [List.contains_eq_mem, decide_not]

theorem Progress.choose (h : Progress state mprSet N2)
    (ha : ∃ nb ∈ state.N, nb.neighborMainAddr = a) :
    Progress state (insert a mprSet) (coverTwoHopNeighbors a N2) :=
  ⟨h.relays.insert ha, coverTwoHopNeighbors_eq a N2 ▸ h.covers.choose a,
    (List.length_filter_le _ _).trans h.length⟩

theorem progress_start (state : MprInput) : Progress state ∅ state.N2 :=
  ⟨fun _ ha => absurd ha (Finset.notMem_empty _), Covers.start state.N2, List.length_filter_le _ _⟩

theorem Progress.alwaysWilling {l : List NeighborTuple} (mpr : MprSet × TwoHopNeighborSet)
    (h : Progress state mpr.1 mpr.2) (hl : ∀ nb ∈ l, nb ∈ state.N) :
    Progress state (l.foldl MprInput.alwaysWilling mpr).1 (l.foldl MprInput.alwaysWilling mpr).2 := by
  induction l generalizing mpr with
  | nil => exact h
  | cons nb l ih =>
    rw [List.foldl_cons]
    refine ih _ ?_ (fun nb' hnb' => hl nb' (List.mem_cons_of_mem _ hnb'))
    rw [MprInput.alwaysWilling]
    split
    · exact h.choose ⟨nb, hl nb List.mem_cons_self, rfl⟩
    · exact h

/-- What the third phase has noted: the 2-hop neighbours that its choices reach. -/
structure Noted (state : MprInput) (N2 : TwoHopNeighborSet) (mprSet : MprSet)
    (mpr : MprSet × List Ipv4Address) : Prop where
  relays : Relays state mpr.1
  subset : mprSet ⊆ mpr.1
  covered : ∀ a ∈ mpr.2, ∃ t ∈ N2, t.twoHopNeighborAddr = a ∧ t.neighborMainAddr ∈ mpr.1

theorem Noted.onlyProviders {l : List TwoHopNeighborTuple} {mpr : MprSet × List Ipv4Address}
    (h : Noted state N2 mprSet mpr) (hN2 : Listed state N2) (hl : ∀ t ∈ l, t ∈ N2) :
    Noted state N2 mprSet (l.foldl (MprInput.onlyProviders N2) mpr) := by
  induction l generalizing mpr with
  | nil => exact h
  | cons t l ih =>
    rw [List.foldl_cons]
    refine ih ?_ (fun t' ht' => hl t' (List.mem_cons_of_mem _ ht'))
    rw [MprInput.onlyProviders]
    split
    · refine ⟨h.relays.insert (hN2 t (hl t List.mem_cons_self)),
        h.subset.trans (Finset.subset_insert _ _), fun a ha => ?_⟩
      rcases List.mem_append.mp ha with ha | ha
      · obtain ⟨q, hq, heq, hmem⟩ := h.covered a ha
        exact ⟨q, hq, heq, Finset.mem_insert_of_mem hmem⟩
      · obtain ⟨q, hq, heq⟩ := List.mem_map.mp ha
        obtain ⟨hq, hprovider⟩ := List.mem_filter.mp hq
        refine ⟨q, hq, heq, ?_⟩
        rw [of_decide_eq_true hprovider]
        exact Finset.mem_insert_self _ _
    · exact h

theorem Progress.onlyProviders (h : Progress state mprSet N2) :
    Progress state (N2.foldl (MprInput.onlyProviders N2) (mprSet, [])).1
      (N2.filter (fun t => !(N2.foldl (MprInput.onlyProviders N2) (mprSet, [])).2.contains
        t.twoHopNeighborAddr)) := by
  have hnoted : Noted state N2 mprSet (N2.foldl (MprInput.onlyProviders N2) (mprSet, [])) :=
    Noted.onlyProviders ⟨h.relays, Finset.Subset.refl _, fun _ ha => absurd ha List.not_mem_nil⟩
      h.listed (fun _ ht => ht)
  refine ⟨hnoted.relays, h.covers.next (fun t ht => (List.mem_filter.mp ht).1) hnoted.subset ?_,
    (List.length_filter_le _ _).trans h.length⟩
  intro t ht hgone
  rw [List.mem_filter, Bool.not_eq_true', not_and, Bool.not_eq_false,
    List.contains_iff_mem] at hgone
  exact hnoted.covered _ (hgone ht)

/-- Some neighbour that still reaches something is the best so far. -/
def Useful (state : MprInput) (N2 : TwoHopNeighborSet) (max : Option (NeighborTuple × ℕ)) : Prop :=
  ∀ nb r, max = some (nb, r) → nb ∈ state.N ∧ 0 < reachability N2 nb

theorem better_cases (state : MprInput) (r : ℕ) (max : Option (NeighborTuple × ℕ))
    (nb : NeighborTuple) : state.better r max nb = some (nb, r) ∨
      state.better r max nb = max ∧ max.isSome := by
  cases max with
  | none => exact Or.inl rfl
  | some best =>
    obtain ⟨max, max_r⟩ := best
    dsimp only [better]
    repeat' split
    all_goals first | exact Or.inl rfl | exact Or.inr ⟨rfl, rfl⟩

theorem Useful.better {r : ℕ} {max : Option (NeighborTuple × ℕ)} (h : Useful state N2 max)
    {l : List NeighborTuple} (hl : ∀ nb ∈ l, nb ∈ state.N ∧ 0 < reachability N2 nb) :
    Useful state N2 (l.foldl (state.better r) max) := by
  induction l generalizing max with
  | nil => exact h
  | cons nb l ih =>
    rw [List.foldl_cons]
    refine ih ?_ (fun nb' hnb' => hl nb' (List.mem_cons_of_mem _ hnb'))
    rcases better_cases state r max nb with heq | ⟨heq, -⟩
    · rw [heq]
      intro nb' r' hsome
      cases hsome
      exact hl nb List.mem_cons_self
    · rw [heq]
      exact h

theorem isSome_better {r : ℕ} {max : Option (NeighborTuple × ℕ)} {l : List NeighborTuple}
    (h : max.isSome ∨ l ≠ []) : (l.foldl (state.better r) max).isSome := by
  induction l generalizing max with
  | nil => exact h.resolve_right (fun hne => hne rfl)
  | cons nb l ih =>
    rw [List.foldl_cons]
    refine ih (Or.inl ?_)
    rcases better_cases state r max nb with heq | ⟨heq, hsome⟩
    · rw [heq]
      rfl
    · rw [heq]
      exact hsome

/-- All neighbours with reachability `r`, unless that is zero. -/
def bestOfReachability (state : MprInput) (N2 : TwoHopNeighborSet)
    (max : Option (NeighborTuple × ℕ)) (r : ℕ) : Option (NeighborTuple × ℕ) :=
  if r = 0 then max
  else (state.N.filter (fun nb_tuple => reachability N2 nb_tuple = r)).foldl (state.better r) max

theorem Useful.bestOfReachability {max : Option (NeighborTuple × ℕ)} (h : Useful state N2 max)
    (rs : List ℕ) : Useful state N2 (rs.foldl (MprInput.bestOfReachability state N2) max) := by
  induction rs generalizing max with
  | nil => exact h
  | cons r rs ih =>
    rw [List.foldl_cons]
    refine ih ?_
    rw [MprInput.bestOfReachability]
    split
    · exact h
    · rename_i hr
      refine h.better (fun nb hnb => ?_)
      obtain ⟨hN, heq⟩ := List.mem_filter.mp hnb
      rw [decide_eq_true_eq] at heq
      exact ⟨hN, heq ▸ Nat.pos_of_ne_zero hr⟩

theorem isSome_bestOfReachability {max : Option (NeighborTuple × ℕ)} {rs : List ℕ}
    (h : max.isSome ∨ ∃ r ∈ rs, r ≠ 0 ∧ ∃ nb ∈ state.N, reachability N2 nb = r) :
    (rs.foldl (MprInput.bestOfReachability state N2) max).isSome := by
  induction rs generalizing max with
  | nil => exact h.resolve_right (fun ⟨r, hr, _⟩ => absurd hr List.not_mem_nil)
  | cons r rs ih =>
    rw [List.foldl_cons]
    refine ih ?_
    rw [MprInput.bestOfReachability]
    rcases h with hsome | ⟨r', hr', hpos, nb, hnb, heq⟩
    · split
      · exact Or.inl hsome
      · exact Or.inl (isSome_better (Or.inl hsome))
    · rcases List.mem_cons.mp hr' with rfl | hr'
      · rw [if_neg hpos]
        exact Or.inl (isSome_better (Or.inr (List.ne_nil_of_mem
          (List.mem_filter.mpr ⟨hnb, decide_eq_true heq⟩))))
      · exact Or.inr ⟨r', hr', hpos, nb, hnb, heq⟩

/-- While 2-hop tuples of symmetric neighbours are left, a neighbour of one of them is selected. -/
theorem selectMpr_spec (hN2 : Listed state N2) (hne : N2 ≠ []) :
    ∃ nb r, state.selectMpr N2 = some (nb, r) ∧ nb ∈ state.N ∧
      ∃ t ∈ N2, t.neighborMainAddr = nb.neighborMainAddr := by
  obtain ⟨t, ht⟩ := List.exists_mem_of_ne_nil N2 hne
  obtain ⟨nb, hnb, heq⟩ := hN2 t ht
  have hreach : reachability N2 nb ≠ 0 := by
    refine Nat.pos_iff_ne_zero.mp (List.length_pos_of_mem (a := t) ?_)
    exact List.mem_filter.mpr ⟨ht, decide_eq_true heq⟩
  have hselect : state.selectMpr N2 = ((state.N.map (reachability N2)).dedup.insertionSort
      (· ≤ ·)).foldl (bestOfReachability state N2) none := rfl
  have hsome : (state.selectMpr N2).isSome := by
    rw [hselect]
    refine isSome_bestOfReachability (Or.inr ⟨_, ?_, hreach, nb, hnb, rfl⟩)
    rw [List.mem_insertionSort, List.mem_dedup]
    exact List.mem_map_of_mem hnb
  obtain ⟨⟨max, r⟩, hmax⟩ := Option.isSome_iff_exists.mp hsome
  have huseful : Useful state N2 (state.selectMpr N2) := by
    rw [hselect]
    exact Useful.bestOfReachability (fun _ _ hnone => by cases hnone) _
  obtain ⟨hN, hpos⟩ := huseful max r hmax
  obtain ⟨q, hq⟩ := List.exists_mem_of_length_pos hpos
  obtain ⟨hq, hprovider⟩ := List.mem_filter.mp hq
  exact ⟨max, r, hmax, hN, q, hq, (of_decide_eq_true hprovider).symm⟩

/-- The loop ends within as many rounds as there are 2-hop tuples left, with none of them left. -/
theorem Progress.coverRemaining (h : Progress state mprSet N2) :
    ∃ mprSet', (∀ fuel, N2.length ≤ fuel → state.coverRemaining fuel mprSet N2 = some mprSet') ∧
      Progress state mprSet' [] := by
  induction hn : N2.length using Nat.strongRecOn generalizing mprSet N2 with
  | ind n ih =>
    by_cases hne : N2 = []
    · subst hne
      exact ⟨mprSet, fun fuel _ => by rw [MprInput.coverRemaining], h⟩
    · obtain ⟨nb, r, hselect, hN, t, ht, heq⟩ := selectMpr_spec h.listed hne
      have hlt : (coverTwoHopNeighbors nb.neighborMainAddr N2).length < N2.length :=
        coverTwoHopNeighbors_eq nb.neighborMainAddr N2 ▸ length_uncovered_lt ht heq
      obtain ⟨mprSet', hloop, hprogress⟩ := ih _ (hn ▸ hlt) (h.choose ⟨nb, hN, rfl⟩) rfl
      refine ⟨mprSet', fun fuel hfuel => ?_, hprogress⟩
      cases fuel with
      | zero => exact absurd (List.length_eq_zero_iff.mp (by omega)) hne
      | succ fuel =>
        rw [MprInput.coverRemaining, hselect]
        · exact hloop fuel (by omega)
        · exact hne

/-- MPR computation ends, its relays are symmetric neighbours, and every 2-hop neighbour that a
willing symmetric neighbour lists is listed by a relay. -/
theorem mprComputation_covers (state : MprInput) :
    ∃ mprSet, (∀ fuel, state.twoHopNeighborSet.length ≤ fuel →
        state.mprComputation fuel = some mprSet) ∧
      (∀ a ∈ mprSet, (state.neighborSet.findSymNeighborTuple a).isSome) ∧
      ∀ t ∈ state.twoHopNeighborSet, t.twoHopNeighborAddr ≠ state.mainAddress →
        state.neighborSet.findSymNeighborTuple t.twoHopNeighborAddr = none →
        (∃ nb, state.neighborSet.findSymNeighborTuple t.neighborMainAddr = some nb ∧
          nb.willingness ≠ OLSR_WILL_NEVER) →
        ∃ q ∈ state.twoHopNeighborSet, q.twoHopNeighborAddr = t.twoHopNeighborAddr ∧
          q.neighborMainAddr ∈ mprSet := by
  have hfind (a : Ipv4Address) : state.N.find? (fun neigh => neigh.neighborMainAddr = a) =
      state.neighborSet.findSymNeighborTuple a := by
    rw [N, List.find?_filter, NeighborSet.findSymNeighborTuple]
    congr 1
    funext nb
    simp [and_comm]
  have hfirst := (progress_start state).alwaysWilling (∅, state.N2) (fun _ hnb => hnb)
  have hthird := hfirst.onlyProviders
  obtain ⟨mprSet, hloop, hprogress⟩ := hthird.coverRemaining
  refine ⟨mprSet, fun fuel hfuel => hloop fuel (hthird.length.trans hfuel), fun a ha => ?_, ?_⟩
  · obtain ⟨nb, hnb, heq⟩ := hprogress.relays a ha
    rw [← hfind a, List.find?_isSome]
    exact ⟨nb, hnb, decide_eq_true heq⟩
  · intro t ht hself hnotSym ⟨nb, hnb, hwilling⟩
    have hN2 : t ∈ state.N2 := by
      refine List.mem_filter.mpr ⟨ht, decide_eq_true ⟨hself, ?_, fun neigh hneigh heq => ?_⟩⟩
      · rw [reachedWillingly, hfind, hnb]
        exact decide_eq_true hwilling
      · rw [← hfind, List.find?_eq_none] at hnotSym
        exact hnotSym neigh hneigh (decide_eq_true heq)
    rcases hprogress.covers.covered t hN2 with hleft | ⟨q, hq, heq, hmem⟩
    · exact absurd hleft List.not_mem_nil
    · exact ⟨q, (List.mem_filter.mp hq).1, heq, hmem⟩

end MprInput

end Ns3Noc.Olsr
