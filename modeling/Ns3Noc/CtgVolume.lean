import Mathlib.Algebra.BigOperators.Fin
import Mathlib.Algebra.Order.BigOperators.Group.Finset
import Ns3Noc.CtgSending

/-!
# The volume that a node injects

`SendFlit` events for one iteration, one after another, send every volume of the local task
list, except the volumes for the own node. The payload for each destination covers its volume
and exceeds it by less than a flit.
-/
namespace Ns3Noc

/-- The payload bits injected in an iteration for tasks on the node `v`. -/
def CtgState.injectedBits (s : CtgState) (i v : ℕ) : ℕ :=
  ((s.flitInjectedTrace.filter (fun f => f.ctgIteration = i ∧ f.destinationNodeId = v)).map
    InjectedFlit.payload).sum * 8

namespace NocCtgApplication
open CtgState
variable {a : NocCtgApplication} {s s' : CtgState}

/-- The volumes that `SendFlit` can handle: positive ones that fit into the counters. -/
def Sendable (a : NocCtgApplication) : Prop :=
  a.headerSize ≤ a.flitSize ∧
    ∀ d ∈ a.localTaskList, 0 < d.data ∧ d.data + (a.flitSize * 8 : ℕ) ≤ 2 ^ 32

/-- `SendFlit` has left every destination on another node behind. -/
def AllSent (a : NocCtgApplication) (i : ℕ) (s : CtgState) : Prop :=
  ∀ j d, a.localTaskList[j]? = some d → a.nodeId ≠ d.receivingNodeId →
    j < (s.iteration i).currentDestinationIndex

/-- The payload falls short of the volume of the current destination. -/
def Counting (d : DependentTaskData) (flits : List InjectedFlit) (index bytes : ℕ) : Prop :=
  (flits = [] → index = 0) ∧ sentBytes flits = bytes ∧ (bytes * 8 : ℕ) < d.data

def Covered (a : NocCtgApplication) (d : DependentTaskData) (flits : List InjectedFlit) : Prop :=
  d.data ≤ (sentBytes flits * 8 : ℕ) ∧ (sentBytes flits * 8 : ℕ) < d.data + (a.flitSize * 8 : ℕ)

theorem counting_nil {d : DependentTaskData} (hd : 0 < d.data) : Counting d [] 0 0 :=
  ⟨fun _ => rfl, rfl, by simpa using hd⟩

theorem Counting.eq_zero {d : DependentTaskData} {index bytes : ℕ}
    (h : Counting d [] index bytes) : index = 0 ∧ bytes = 0 :=
  ⟨h.1 rfl, h.2.1.symm⟩

theorem Counting.lt {d : DependentTaskData} {flits : List InjectedFlit} {index bytes : ℕ}
    (h : Counting d flits index bytes) (hfit : d.data + (a.flitSize * 8 : ℕ) ≤ 2 ^ 32) :
    (bytes + a.flitSize) * 8 < 2 ^ 32 := by
  have hlt : (((bytes + a.flitSize) * 8 : ℕ) : ℚ) < (2 ^ 32 : ℕ) := by
    have := h.2.2
    push_cast at *
    linarith
  exact_mod_cast hlt

theorem Counting.continues {i : ℕ} {d : DependentTaskData}
    (h : Counting d (s.flitsFor i (s.iteration i).currentDestinationIndex)
      (s.iteration i).currentFlitIndex (s.iteration i).totalTaskBytes)
    (hfit : d.data + (a.flitSize * 8 : ℕ) ≤ 2 ^ 32) :
    a.Continues Counting a.Covered s i d := by
  have hle : ((a.createFlit s i d).payload : ℚ) ≤ a.flitSize := by
    exact_mod_cast payload_createFlit_le s i d
  have hsent : sentBytes (s.flitsFor i (s.iteration i).currentDestinationIndex ++
      [a.createFlit s i d]) = (s.iteration i).totalTaskBytes + (a.createFlit s i d).payload := by
    rw [sentBytes, List.map_append, List.sum_append, ← sentBytes, h.2.1]
    simp
  refine ⟨h.lt hfit, ?_⟩
  split
  · next hdone =>
    refine ⟨by rwa [hsent], ?_⟩
    rw [hsent]
    have := h.2.2
    push_cast at *
    linarith
  · next hmore => exact ⟨by simp, hsent, not_le.mp hmore⟩

/-- What holds in every reachable state of an application that can send its volumes. -/
structure Counted (a : NocCtgApplication) (s : CtgState) : Prop where
  sending : a.Sending Counting a.Covered s
  addressed : ∀ f ∈ s.flitInjectedTrace, ∃ d, a.localTaskList[f.destinationIndex]? = some d ∧
    d.receivingNodeId = f.destinationNodeId ∧ a.nodeId ≠ d.receivingNodeId
  numberOfFlits_pos : 0 < s.numberOfFlits
  two_le_numberOfFlits : a.flitSize = a.headerSize → 2 ≤ s.numberOfFlits

/-- Without room for payload in a head flit, a volume needs a second flit. -/
theorem upperValue_bounds {data : ℚ} (hdata : 0 < data)
    (hfit : data + (a.flitSize * 8 : ℕ) ≤ 2 ^ 32) :
    0 < a.upperValue data ∧ (a.flitSize = a.headerSize → 2 ≤ a.upperValue data) := by
  have hsize : (0 : ℚ) < a.flitSize := by exact_mod_cast a.flitSize_pos
  have hpos : 0 < ⌈data / 8 / a.flitSize⌉₊ := Nat.ceil_pos.mpr (by positivity)
  have hlast : ((⌈data / 8 / a.flitSize⌉₊ : ℚ) - 1) * a.flitSize < data / 8 := by
    have := Nat.ceil_lt_add_one (show 0 ≤ data / 8 / a.flitSize by positivity)
    rw [← lt_div_iff₀ hsize]
    linarith
  unfold upperValue
  dsimp only
  generalize ⌈data / 8 / a.flitSize⌉₊ = u at hpos hlast ⊢
  refine ⟨by split <;> omega, ?_⟩
  intro heq
  have hroom : ((u - 1 : ℤ) * a.flitSize + a.flitSize - a.headerSize) % 2 ^ 64 =
      (u - 1 : ℤ) * a.flitSize := by
    rw [← heq, add_sub_cancel_right]
    have hlt : (((u - 1 : ℤ) * a.flitSize : ℤ) : ℚ) < (2 ^ 64 : ℤ) := by
      push_cast
      push_cast at hfit
      linarith
    apply Int.emod_eq_of_lt
    · have : (0 : ℤ) ≤ u - 1 := by omega
      positivity
    · exact_mod_cast hlt
  rw [hroom, if_pos (by push_cast; exact hlast)]
  omega

theorem Counted.keeps (h : a.Counted s) (hs : KeepsInjection s s') : a.Counted s' := by
  refine ⟨h.sending.keeps hs, ?_, ?_, ?_⟩
  · rw [hs.flitInjectedTrace]
    exact h.addressed
  · rw [hs.numberOfFlits]
    exact h.numberOfFlits_pos
  · rw [hs.numberOfFlits]
    exact h.two_le_numberOfFlits

theorem Counted.sendFlit (h : a.Counted s) (ha : a.Sendable) {now i : ℕ}
    (hs : a.sendFlit s now i = some s') : a.Counted s' := by
  have hsending : a.Sending Counting a.Covered s' := by
    refine h.sending.sendFlit (fun d hd => counting_nil (ha.2 d hd).1)
      (fun _ _ _ h => h.eq_zero) hs ?_
    intro d hd hnode
    exact Counting.continues (h.sending.current i d hd) (ha.2 d (List.mem_of_getElem? hd)).2
  obtain ⟨d, hd, hcases⟩ := sendFlit_eq_some hs
  obtain ⟨hpos, hfit⟩ := ha.2 d (List.mem_of_getElem? hd)
  obtain ⟨hu, hu'⟩ := upperValue_bounds hpos hfit
  have hsame : s'.numberOfFlits = min s.numberOfFlits (a.upperValue d.data) ∧
      ∀ f ∈ s'.flitInjectedTrace, f ∈ s.flitInjectedTrace ∨
        a.localTaskList[f.destinationIndex]? = some d ∧
          d.receivingNodeId = f.destinationNodeId ∧ a.nodeId ≠ d.receivingNodeId := by
    rcases hcases with ⟨-, hkeeps | hkeeps⟩ | ⟨hnode, hkeeps⟩
    · exact ⟨hkeeps.numberOfFlits, fun f hf => .inl (hkeeps.flitInjectedTrace ▸ hf)⟩
    · exact ⟨hkeeps.numberOfFlits, fun f hf => .inl (hkeeps.flitInjectedTrace ▸ hf)⟩
    · refine ⟨hkeeps.numberOfFlits, ?_⟩
      intro f hf
      rw [hkeeps.flitInjectedTrace] at hf
      rcases List.mem_append.mp hf with hf | hf
      · exact .inl hf
      · rw [List.mem_singleton] at hf
        subst hf
        exact .inr ⟨by rw [destinationIndex_createFlit]; exact hd, rfl, hnode⟩
  refine ⟨hsending, ?_, ?_, ?_⟩
  · intro f hf
    rcases hsame.2 f hf with hf | hf
    · exact h.addressed f hf
    · exact ⟨d, hf⟩
  · rw [hsame.1]
    exact lt_min h.numberOfFlits_pos hu
  · rw [hsame.1]
    exact fun heq => le_min (h.two_le_numberOfFlits heq) (hu' heq)

theorem Counted.step (h : a.Counted s) (ha : a.Sendable) {l : CtgStep}
    (hs : a.step s l = some s') : a.Counted s' := by
  rcases step_cases hs with hkeeps | ⟨now, n, i, -, -, hs⟩
  · exact h.keeps hkeeps
  · have herase : KeepsInjection s { s with pending := s.pending.eraseIdx n } :=
      ⟨rfl, rfl, fun _ => rfl, fun _ => rfl, fun _ => rfl⟩
    exact (h.keeps herase).sendFlit ha hs

theorem counted_startApplication (ha : a.Sendable) (now : ℕ) :
    a.Counted (a.startApplication now) := by
  have htwo := a.two_le_numberOfFlits
  have hkeeps := keepsInjection_startApplication a now
  refine ⟨sending_startApplication a (fun d hd => counting_nil (ha.2 d hd).1) now, ?_, ?_, ?_⟩
  · rw [hkeeps.flitInjectedTrace]
    simp
  · rw [hkeeps.numberOfFlits]
    exact Nat.lt_of_lt_of_le Nat.zero_lt_two htwo
  · rw [hkeeps.numberOfFlits]
    exact fun _ => htwo

/-- How much of an iteration is left: destinations first, then bytes, then an open packet. -/
def remaining (a : NocCtgApplication) (i : ℕ) (s : CtgState) : ℕ :=
  (a.localTaskList.length - (s.iteration i).currentDestinationIndex) * (2 * 2 ^ 32 + 2) +
    2 * (2 ^ 32 - (s.iteration i).totalTaskBytes) +
    if (s.iteration i).currentFlitIndex = 0 then 1 else 0

theorem remaining_keeps (hs : KeepsInjection s s') (i : ℕ) :
    a.remaining i s' = a.remaining i s := by
  rw [remaining, hs.currentDestinationIndex, hs.totalTaskBytes, hs.currentFlitIndex, remaining]

/-- A flit without payload opens a packet of more than one flit. -/
theorem remaining_injectFlit {i : ℕ} {d : DependentTaskData}
    (hlt : (s.iteration i).currentDestinationIndex < a.localTaskList.length)
    (hheader : a.headerSize ≤ a.flitSize)
    (htwo : a.flitSize = a.headerSize → 2 ≤ s.numberOfFlits)
    (h32 : ((s.iteration i).totalTaskBytes + a.flitSize) * 8 < 2 ^ 32) :
    a.remaining i (a.injectFlit s i d) < a.remaining i s := by
  have hcounters := counters_injectFlit (a := a) (d := d) h32
  have hle := payload_createFlit_le (a := a) s i d
  have hpayload : 0 < (a.createFlit s i d).payload ∨
      (s.iteration i).currentFlitIndex = 0 ∧ 2 ≤ s.numberOfFlits := by
    by_cases hindex : (s.iteration i).currentFlitIndex = 0
    · by_cases heq : a.flitSize = a.headerSize
      · exact .inr ⟨hindex, htwo heq⟩
      · have : (a.createFlit s i d).payload = a.flitSize - a.headerSize := by
          simp [createFlit, nextFlit, openPacket, hindex]
        omega
    · have : (a.createFlit s i d).payload = a.flitSize := by
        simp only [createFlit, nextFlit, openPacket, if_neg hindex]
        split <;> rfl
      have := a.flitSize_pos
      omega
  unfold remaining
  split at hcounters
  · obtain ⟨hindex, hdestination, hbytes⟩ := hcounters
    rw [hindex, hdestination, hbytes]
    obtain ⟨k, hk⟩ : ∃ k, a.localTaskList.length - (s.iteration i).currentDestinationIndex = k + 1 :=
      ⟨_, (Nat.succ_pred_eq_of_pos (by omega)).symm⟩
    rw [← Nat.sub_sub, hk]
    have : (k + 1) * (2 * 2 ^ 32 + 2) = k * (2 * 2 ^ 32 + 2) + (2 * 2 ^ 32 + 2) :=
      Nat.succ_mul _ _
    rw [this]
    split <;> omega
  · obtain ⟨hindex, hdestination, hbytes⟩ := hcounters
    rw [hindex, hdestination, hbytes]
    rcases hpayload with hpayload | ⟨hzero, hmany⟩
    · split <;> split <;> omega
    · rw [if_neg (by omega : ¬(s.iteration i).currentFlitIndex + 1 = s.numberOfFlits),
        if_neg (Nat.succ_ne_zero _), if_pos hzero]
      omega

/-- `SendFlit` never fails on sendable volumes, and it makes progress until all is sent. -/
theorem Counted.sendFlit_some (h : a.Counted s) (ha : a.Sendable) (now : ℕ) {i : ℕ}
    (hopen : ¬a.AllSent i s) :
    ∃ s', a.sendFlit s now i = some s' ∧ a.remaining i s' < a.remaining i s := by
  simp only [AllSent, not_forall, not_lt] at hopen
  obtain ⟨j, e, he, hnode, hj⟩ := hopen
  have hlt : (s.iteration i).currentDestinationIndex < a.localTaskList.length :=
    Nat.lt_of_le_of_lt hj (List.getElem?_eq_some_iff.mp he).1
  obtain ⟨d, hd⟩ : ∃ d, a.localTaskList[(s.iteration i).currentDestinationIndex]? = some d :=
    ⟨_, List.getElem?_eq_getElem hlt⟩
  obtain ⟨hpos, hfit⟩ := ha.2 d (List.mem_of_getElem? hd)
  obtain ⟨hu, hu'⟩ := upperValue_bounds hpos hfit
  have hflits : 0 < min s.numberOfFlits (a.upperValue d.data) :=
    lt_min h.numberOfFlits_pos hu
  simp only [NocCtgApplication.sendFlit, hd, Option.bind_eq_bind, Option.bind_some]
  rw [if_neg hflits.ne']
  by_cases hown : a.nodeId = d.receivingNodeId
  · have hnext : (s.iteration i).currentDestinationIndex + 1 < a.localTaskList.length := by
      have hne : j ≠ (s.iteration i).currentDestinationIndex := by
        rintro rfl
        rw [hd] at he
        cases he
        exact hnode hown
      have := (List.getElem?_eq_some_iff.mp he).1
      omega
    rw [if_pos hown, if_pos hnext]
    refine ⟨_, rfl, ?_⟩
    rw [remaining_keeps (keepsInjection_scheduleNextTx _ now i)]
    simp only [remaining, setIteration, Function.update_self]
    obtain ⟨k, hk⟩ : ∃ k, a.localTaskList.length - (s.iteration i).currentDestinationIndex = k + 1 :=
      ⟨_, (Nat.succ_pred_eq_of_pos (by omega)).symm⟩
    rw [← Nat.sub_sub, hk]
    have : (k + 1) * (2 * 2 ^ 32 + 2) = k * (2 * 2 ^ 32 + 2) + (2 * 2 ^ 32 + 2) :=
      Nat.succ_mul _ _
    rw [this]
    simp
  · have hless := remaining_injectFlit (a := a) (i := i) (d := d)
      (s := { s with numberOfFlits := min s.numberOfFlits (a.upperValue d.data) }) hlt ha.1
      (fun heq => le_min (h.two_le_numberOfFlits heq) (hu' heq))
      ((h.sending.current i d hd).lt hfit)
    rw [if_neg hown, if_neg (fun h => absurd ha.1 (not_le.mpr h.2))]
    split
    · refine ⟨_, rfl, ?_⟩
      rw [remaining_keeps (keepsInjection_scheduleNextTx _ now i)]
      exact hless
    · exact ⟨_, rfl, hless⟩

/-- Finitely many `SendFlit` events send the whole iteration. -/
theorem Counted.allSent (h : a.Counted s) (ha : a.Sendable) (now i : ℕ) :
    ∃ n s', PartialRuns.walk (fun s => a.sendFlit s now i) n s = some s' ∧ a.AllSent i s' := by
  induction hr : a.remaining i s using Nat.strong_induction_on generalizing s with
  | _ m ih =>
    by_cases hsent : a.AllSent i s
    · exact ⟨0, s, rfl, hsent⟩
    · obtain ⟨t, ht, hless⟩ := h.sendFlit_some ha now hsent
      obtain ⟨n, s', hwalk, hs'⟩ := ih _ (hr ▸ hless) (h.sendFlit ha ht) rfl
      exact ⟨n + 1, s', by rw [PartialRuns.walk_succ, ht]; exact hwalk, hs'⟩

theorem Counted.walk (h : a.Counted s) (ha : a.Sendable) {now i n : ℕ}
    (hwalk : PartialRuns.walk (fun s => a.sendFlit s now i) n s = some s') : a.Counted s' := by
  induction n generalizing s with
  | zero => exact Option.some.inj hwalk ▸ h
  | succ n ih =>
    obtain ⟨t, ht, hwalk⟩ := Option.bind_eq_some_iff.mp hwalk
    exact ih (h.sendFlit ha ht) hwalk

/-- The injected bits, destination by destination. -/
theorem Counted.injectedBits_eq (h : a.Counted s) (i v : ℕ) :
    s.injectedBits i v = ∑ j : Fin a.localTaskList.length,
      if a.localTaskList[j.1].receivingNodeId = v then sentBytes (s.flitsFor i j) * 8 else 0 := by
  have haddressed := h.addressed
  simp only [CtgState.injectedBits, flitsFor, sentBytes]
  generalize s.flitInjectedTrace = trace at haddressed ⊢
  induction trace with
  | nil => simp
  | cons f flits ih =>
    obtain ⟨d, hd, hnode, -⟩ := haddressed f (List.mem_cons_self ..)
    obtain ⟨hlt, rfl⟩ := List.getElem?_eq_some_iff.mp hd
    -- the first flit counts for its own destination only
    have hsplit : ∀ j : Fin a.localTaskList.length,
        (if a.localTaskList[j.1].receivingNodeId = v then
          (((f :: flits).filter (fun f => f.ctgIteration = i ∧ f.destinationIndex = j.1)).map
            InjectedFlit.payload).sum * 8 else 0) =
        (if a.localTaskList[j.1].receivingNodeId = v then
          ((flits.filter (fun f => f.ctgIteration = i ∧ f.destinationIndex = j.1)).map
            InjectedFlit.payload).sum * 8 else 0) +
        if (⟨f.destinationIndex, hlt⟩ : Fin _) = j then
          (if f.ctgIteration = i ∧ f.destinationNodeId = v then f.payload * 8 else 0) else 0 := by
      intro j
      by_cases hj : (⟨f.destinationIndex, hlt⟩ : Fin _) = j
      · subst hj
        by_cases hv : f.destinationNodeId = v <;> by_cases hi : f.ctgIteration = i <;>
          simp [hnode, hv, hi, Nat.add_mul, Nat.add_comm]
      · have hne : f.destinationIndex ≠ j := fun h => hj (Fin.ext h)
        simp [hj, hne]
    rw [Finset.sum_congr rfl (fun j _ => hsplit j), Finset.sum_add_distrib, Finset.sum_ite_eq,
      ← ih (fun g hg => haddressed g (List.mem_cons_of_mem _ hg)), if_pos (Finset.mem_univ _)]
    by_cases hf : f.ctgIteration = i ∧ f.destinationNodeId = v
    · simp [hf, Nat.add_mul, Nat.add_comm]
    · simp [hf]

/-- The volumes of the local task list for tasks on another node `v`. -/
def volumeTo (a : NocCtgApplication) (v : ℕ) : ℚ :=
  (a.localTaskList.map (fun d =>
    if d.receivingNodeId = v ∧ a.nodeId ≠ d.receivingNodeId then d.data else 0)).sum

/-- A node that has sent an iteration has sent at least its volumes for other nodes. -/
theorem Counted.volumeTo_le (h : a.Counted s) {i : ℕ} (hsent : a.AllSent i s) (v : ℕ) :
    a.volumeTo v ≤ s.injectedBits i v := by
  rw [volumeTo, ← Fin.sum_univ_fun_getElem, h.injectedBits_eq]
  push_cast
  apply Finset.sum_le_sum
  intro j _
  by_cases hv : a.localTaskList[j.1].receivingNodeId = v
  · by_cases hnode : a.nodeId = a.localTaskList[j.1].receivingNodeId
    · rw [if_neg (fun h => h.2 hnode), if_pos hv]
      positivity
    · have hget : a.localTaskList[j.1]? = some a.localTaskList[j.1] :=
        List.getElem?_eq_getElem j.2
      have hcovered := (h.sending.done i j _ (hsent j _ hget hnode) hget hnode).1
      rw [if_pos ⟨hv, hnode⟩, if_pos hv]
      push_cast at hcovered
      exact hcovered
  · rw [if_neg (fun h => hv h.1), if_neg hv]

/-- Nothing is sent to the own node. -/
theorem Counted.flitsFor_own (h : a.Counted s) (i : ℕ) {j : ℕ} {d : DependentTaskData}
    (hd : a.localTaskList[j]? = some d) (hnode : a.nodeId = d.receivingNodeId) :
    s.flitsFor i j = [] := by
  simp only [flitsFor, List.filter_eq_nil_iff, decide_eq_true_eq]
  rintro f hf ⟨-, rfl⟩
  obtain ⟨d', hd', -, hne⟩ := h.addressed f hf
  rw [hd] at hd'
  cases hd'
  exact hne hnode

/-- It exceeds them by less than a flit for each destination. -/
theorem Counted.injectedBits_le (h : a.Counted s) {i : ℕ} (hsent : a.AllSent i s) (v : ℕ) :
    (s.injectedBits i v : ℚ) ≤ (a.localTaskList.map (fun d : DependentTaskData =>
      if d.receivingNodeId = v ∧ a.nodeId ≠ d.receivingNodeId then d.data + (a.flitSize * 8 : ℚ)
      else 0)).sum := by
  rw [← Fin.sum_univ_fun_getElem, h.injectedBits_eq]
  push_cast
  apply Finset.sum_le_sum
  intro j _
  have hget : a.localTaskList[j.1]? = some a.localTaskList[j.1] := List.getElem?_eq_getElem j.2
  by_cases hv : a.localTaskList[j.1].receivingNodeId = v
  · by_cases hnode : a.nodeId = a.localTaskList[j.1].receivingNodeId
    · rw [if_pos hv, if_neg (fun h => h.2 hnode), h.flitsFor_own i hget hnode]
      simp [sentBytes]
    · have hcovered := (h.sending.done i j _ (hsent j _ hget hnode) hget hnode).2
      rw [if_pos hv, if_pos ⟨hv, hnode⟩]
      push_cast at hcovered
      exact hcovered.le
  · rw [if_neg hv, if_neg (fun h => hv h.1)]

end NocCtgApplication
end Ns3Noc
