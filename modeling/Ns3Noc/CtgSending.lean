import Ns3Noc.NocCtgApplication

/-!
# How SendFlit goes through the destinations

Every iteration walks through the local task list on its own. An invariant of the flits for
each destination is given by what holds while the destination is current and what holds when
`SendFlit` has left it; the walk itself is argued about only here.
-/
namespace Ns3Noc

/-- The iteration that a `SendFlit` event sends for. -/
def CtgAction.sendIteration : CtgAction → Option ℕ
  | .sendFlit i => some i
  | .startSending _ | .processFlit _ => none

namespace CtgState

/-- The flits injected for one destination in one iteration. -/
def flitsFor (s : CtgState) (i d : ℕ) : List InjectedFlit :=
  s.flitInjectedTrace.filter (fun f => f.ctgIteration = i ∧ f.destinationIndex = d)

@[simp] theorem flitsFor_setIteration (s : CtgState) (i : ℕ) (entry : CtgIteration) (i' d : ℕ) :
    (s.setIteration i entry).flitsFor i' d = s.flitsFor i' d := rfl

/-- Nothing that `SendFlit` goes by has changed. -/
structure KeepsInjection (s s' : CtgState) : Prop where
  numberOfFlits : s'.numberOfFlits = s.numberOfFlits
  flitInjectedTrace : s'.flitInjectedTrace = s.flitInjectedTrace
  currentFlitIndex : ∀ i, (s'.iteration i).currentFlitIndex = (s.iteration i).currentFlitIndex
  currentDestinationIndex : ∀ i,
    (s'.iteration i).currentDestinationIndex = (s.iteration i).currentDestinationIndex
  totalTaskBytes : ∀ i, (s'.iteration i).totalTaskBytes = (s.iteration i).totalTaskBytes

theorem KeepsInjection.refl (s : CtgState) : KeepsInjection s s :=
  ⟨rfl, rfl, fun _ => rfl, fun _ => rfl, fun _ => rfl⟩

theorem KeepsInjection.trans {s t u : CtgState} (h : KeepsInjection s t)
    (h' : KeepsInjection t u) : KeepsInjection s u :=
  ⟨h'.numberOfFlits.trans h.numberOfFlits, h'.flitInjectedTrace.trans h.flitInjectedTrace,
    fun i => (h'.currentFlitIndex i).trans (h.currentFlitIndex i),
    fun i => (h'.currentDestinationIndex i).trans (h.currentDestinationIndex i),
    fun i => (h'.totalTaskBytes i).trans (h.totalTaskBytes i)⟩

/-- An entry may be rewritten as long as its counters stay. -/
theorem KeepsInjection.setIteration (s : CtgState) (i : ℕ) (entry : CtgIteration)
    (hindex : entry.currentFlitIndex = (s.iteration i).currentFlitIndex)
    (hdestination : entry.currentDestinationIndex = (s.iteration i).currentDestinationIndex)
    (hbytes : entry.totalTaskBytes = (s.iteration i).totalTaskBytes) :
    KeepsInjection s (s.setIteration i entry) := by
  refine ⟨rfl, rfl, ?_, ?_, ?_⟩ <;> intro j <;>
    simp only [CtgState.setIteration, Function.update_apply] <;> split
  · next h => exact h ▸ hindex
  · rfl
  · next h => exact h ▸ hdestination
  · rfl
  · next h => exact h ▸ hbytes
  · rfl

end CtgState

namespace NocCtgApplication
open CtgState
variable {a : NocCtgApplication} {s s' : CtgState}

theorem keepsInjection_scheduleNextTx (s : CtgState) (now i : ℕ) :
    KeepsInjection s (a.scheduleNextTx s now i) := by
  unfold scheduleNextTx
  split
  · have hset := KeepsInjection.setIteration s i
      { s.iteration i with sendEvent := some s.scheduled.length } rfl rfl rfl
    exact hset.trans ⟨rfl, rfl, fun _ => rfl, fun _ => rfl, fun _ => rfl⟩
  · unfold stopApplication
    induction a.iterations with
    | zero => exact KeepsInjection.refl s
    | succ m ih =>
      rw [List.range_succ, List.foldl_append]
      exact ih.trans ⟨rfl, rfl, fun _ => rfl, fun _ => rfl, fun _ => rfl⟩

theorem keepsInjection_scheduleStartEvent (s : CtgState) (now i : ℕ) :
    KeepsInjection s (a.scheduleStartEvent s now i) := by
  unfold scheduleStartEvent
  split
  · have hset := KeepsInjection.setIteration s i { s.iteration i with
      injectionStarted := true
      startEvent := some s.scheduled.length } rfl rfl rfl
    exact hset.trans ⟨rfl, rfl, fun _ => rfl, fun _ => rfl, fun _ => rfl⟩
  · exact KeepsInjection.refl s

theorem keepsInjection_flitReceivedCallback {now : ℕ} {flit : ReceivedFlit}
    (h : a.flitReceivedCallback s now flit = some s') : KeepsInjection s s' := by
  have hdata : ∀ receivedData trace, KeepsInjection s
      { s with receivedData := receivedData, flitReceivedTrace := trace } :=
    fun _ _ => ⟨rfl, rfl, fun _ => rfl, fun _ => rfl, fun _ => rfl⟩
  have harrived : ∀ t i, KeepsInjection t (a.dataArrived t now i) := by
    intro t i
    unfold dataArrived
    split
    · exact ⟨rfl, rfl, fun _ => rfl, fun _ => rfl, fun _ => rfl⟩
    · split
      · exact keepsInjection_scheduleStartEvent t now i
      · exact KeepsInjection.refl t
  unfold flitReceivedCallback at h
  split at h
  · dsimp only at h
    split at h <;> cases h
    · exact ((hdata _ _).trans (harrived _ _)).trans
        ⟨rfl, rfl, fun _ => rfl, fun _ => rfl, fun _ => rfl⟩
    · exact hdata _ _
  · cases h

/-- What `SendFlit` has done: it skips a destination on the own node, or injects one flit. -/
theorem sendFlit_eq_some {now i : ℕ} (h : a.sendFlit s now i = some s') :
    ∃ d, a.localTaskList[(s.iteration i).currentDestinationIndex]? = some d ∧
      ((a.nodeId = d.receivingNodeId ∧ (KeepsInjection
          { s with numberOfFlits := min s.numberOfFlits (a.upperValue d.data) } s' ∨
        KeepsInjection ({ s with numberOfFlits := min s.numberOfFlits (a.upperValue d.data) }.setIteration
          i { s.iteration i with
            currentDestinationIndex := (s.iteration i).currentDestinationIndex + 1 }) s')) ∨
      (a.nodeId ≠ d.receivingNodeId ∧ KeepsInjection (a.injectFlit
        { s with numberOfFlits := min s.numberOfFlits (a.upperValue d.data) } i d) s')) := by
  simp only [sendFlit, Option.bind_eq_bind, Option.bind_eq_some_iff] at h
  obtain ⟨d, hd, h⟩ := h
  refine ⟨d, hd, ?_⟩
  split at h
  · cases h
  split at h
  · next hnode =>
    refine .inl ⟨hnode, ?_⟩
    split at h <;> cases h
    · exact .inr (keepsInjection_scheduleNextTx _ now i)
    · exact .inl (KeepsInjection.refl _)
  · next hnode =>
    refine .inr ⟨hnode, ?_⟩
    split at h
    · cases h
    split at h <;> cases h
    · exact keepsInjection_scheduleNextTx _ now i
    · exact KeepsInjection.refl _

/-- The payload of some flits, in bytes. -/
def sentBytes (flits : List InjectedFlit) : ℕ := (flits.map InjectedFlit.payload).sum

theorem covers_iff {bytes : ℕ} (data : ℚ) (h : bytes * 8 < 2 ^ 32) :
    covers bytes data ↔ data ≤ (bytes * 8 : ℕ) := by
  rw [covers, Nat.mod_eq_of_lt h]

theorem destinationIndex_createFlit (s : CtgState) (i : ℕ) (d : DependentTaskData) :
    (a.createFlit s i d).destinationIndex = (s.iteration i).currentDestinationIndex := by
  simp only [createFlit, openPacket]
  split <;> rfl

theorem flitsFor_injectFlit (s : CtgState) (i : ℕ) (d : DependentTaskData) (i' j : ℕ) :
    (a.injectFlit s i d).flitsFor i' j = s.flitsFor i' j ++
      if i = i' ∧ (s.iteration i).currentDestinationIndex = j then [a.createFlit s i d] else [] := by
  have hi : (a.createFlit s i d).ctgIteration = i := rfl
  have hj := destinationIndex_createFlit (a := a) s i d
  simp only [flitsFor, injectFlit, setIteration, List.filter_append, List.filter_singleton, hi, hj]
  by_cases h : i = i' <;> by_cases h' : (s.iteration i).currentDestinationIndex = j <;>
    simp [h, h']

theorem iteration_injectFlit (s : CtgState) (i : ℕ) (d : DependentTaskData) :
    ((a.injectFlit s i d).iteration i) =
      countFlit s.numberOfFlits (openPacket s i) d.data (a.createFlit s i d).payload := by
  simp [injectFlit, setIteration]

theorem iteration_injectFlit_of_ne (s : CtgState) {i j : ℕ} (hj : j ≠ i) (d : DependentTaskData) :
    (a.injectFlit s i d).iteration j = s.iteration j := by
  simp [injectFlit, setIteration, hj]

theorem payload_createFlit_le (s : CtgState) (i : ℕ) (d : DependentTaskData) :
    (a.createFlit s i d).payload ≤ a.flitSize := by
  simp only [createFlit, nextFlit]
  split
  · exact Nat.sub_le _ _
  · split <;> exact le_rfl

/-- The counters after the new flit. -/
theorem counters_injectFlit {i : ℕ} {d : DependentTaskData}
    (h32 : ((s.iteration i).totalTaskBytes + a.flitSize) * 8 < 2 ^ 32) :
    if d.data ≤ (((s.iteration i).totalTaskBytes + (a.createFlit s i d).payload) * 8 : ℕ) then
      ((a.injectFlit s i d).iteration i).currentFlitIndex = 0 ∧
      ((a.injectFlit s i d).iteration i).currentDestinationIndex =
        (s.iteration i).currentDestinationIndex + 1 ∧
      ((a.injectFlit s i d).iteration i).totalTaskBytes = 0
    else
      ((a.injectFlit s i d).iteration i).currentFlitIndex =
        (if (s.iteration i).currentFlitIndex + 1 = s.numberOfFlits then 0
          else (s.iteration i).currentFlitIndex + 1) ∧
      ((a.injectFlit s i d).iteration i).currentDestinationIndex =
        (s.iteration i).currentDestinationIndex ∧
      ((a.injectFlit s i d).iteration i).totalTaskBytes =
        (s.iteration i).totalTaskBytes + (a.createFlit s i d).payload := by
  have hle := payload_createFlit_le (a := a) s i d
  have hindex : (openPacket s i).currentFlitIndex = (s.iteration i).currentFlitIndex := by
    rw [openPacket]
    split <;> rfl
  have hdestination : (openPacket s i).currentDestinationIndex =
      (s.iteration i).currentDestinationIndex := by
    rw [openPacket]
    split <;> rfl
  have hbytes : (openPacket s i).totalTaskBytes = (s.iteration i).totalTaskBytes := by
    rw [openPacket]
    split <;> rfl
  have hadd : add32 (s.iteration i).totalTaskBytes (a.createFlit s i d).payload =
      (s.iteration i).totalTaskBytes + (a.createFlit s i d).payload :=
    Nat.mod_eq_of_lt (by omega)
  have hcovers := covers_iff d.data (show
    ((s.iteration i).totalTaskBytes + (a.createFlit s i d).payload) * 8 < 2 ^ 32 by omega)
  simp only [iteration_injectFlit, countFlit, hindex, hdestination, hbytes, hadd, hcovers]
  split
  · exact ⟨rfl, rfl, rfl⟩
  · exact ⟨rfl, rfl, rfl⟩

/-- `Cur` holds of the flits and counters for the current destination of every iteration, and
`Done` of the flits for the destinations on other nodes before it. -/
structure Sending (a : NocCtgApplication)
    (Cur : DependentTaskData → List InjectedFlit → ℕ → ℕ → Prop)
    (Done : DependentTaskData → List InjectedFlit → Prop) (s : CtgState) : Prop where
  untouched : ∀ i j, (s.iteration i).currentDestinationIndex < j → s.flitsFor i j = []
  own : ∀ i j d, a.localTaskList[j]? = some d → a.nodeId = d.receivingNodeId →
    s.flitsFor i j = []
  current : ∀ i d, a.localTaskList[(s.iteration i).currentDestinationIndex]? = some d →
    Cur d (s.flitsFor i (s.iteration i).currentDestinationIndex)
      (s.iteration i).currentFlitIndex (s.iteration i).totalTaskBytes
  done : ∀ i j d, j < (s.iteration i).currentDestinationIndex →
    a.localTaskList[j]? = some d → a.nodeId ≠ d.receivingNodeId → Done d (s.flitsFor i j)

/-- The next flit for the destination leads from `Cur` to `Done` when it covers the volume, and
to `Cur` again when it does not; no counter wraps around. -/
def Continues (a : NocCtgApplication)
    (Cur : DependentTaskData → List InjectedFlit → ℕ → ℕ → Prop)
    (Done : DependentTaskData → List InjectedFlit → Prop) (s : CtgState) (i : ℕ)
    (d : DependentTaskData) : Prop :=
  let flits := s.flitsFor i (s.iteration i).currentDestinationIndex ++ [a.createFlit s i d]
  let bytes := (s.iteration i).totalTaskBytes + (a.createFlit s i d).payload
  ((s.iteration i).totalTaskBytes + a.flitSize) * 8 < 2 ^ 32 ∧
    if d.data ≤ (bytes * 8 : ℕ) then Done d flits
    else Cur d flits (if (s.iteration i).currentFlitIndex + 1 = s.numberOfFlits then 0
      else (s.iteration i).currentFlitIndex + 1) bytes

section Sending
variable {Cur : DependentTaskData → List InjectedFlit → ℕ → ℕ → Prop}
  {Done : DependentTaskData → List InjectedFlit → Prop}

theorem Sending.keeps (h : a.Sending Cur Done s) (hs : KeepsInjection s s') :
    a.Sending Cur Done s' := by
  have hflits : ∀ i j, s'.flitsFor i j = s.flitsFor i j := by
    intro i j
    rw [flitsFor, hs.flitInjectedTrace, flitsFor]
  constructor
  · intro i j hj
    rw [hs.currentDestinationIndex] at hj
    rw [hflits]
    exact h.untouched i j hj
  · intro i j d hd hnode
    rw [hflits]
    exact h.own i j d hd hnode
  · intro i d hd
    rw [hs.currentDestinationIndex] at hd ⊢
    rw [hflits, hs.currentFlitIndex, hs.totalTaskBytes]
    exact h.current i d hd
  · intro i j d hj hd hnode
    rw [hs.currentDestinationIndex] at hj
    rw [hflits]
    exact h.done i j d hj hd hnode

/-- Only iteration `i` has moved: either on at the same destination or to the next one. -/
theorem Sending.move (h : a.Sending Cur Done s) {i : ℕ}
    (hother : ∀ i', i' ≠ i → s'.iteration i' = s.iteration i')
    (hflits : ∀ i' j, ¬(i = i' ∧ (s.iteration i).currentDestinationIndex = j) →
      s'.flitsFor i' j = s.flitsFor i' j)
    (hown : ∀ d, a.localTaskList[(s.iteration i).currentDestinationIndex]? = some d →
      a.nodeId = d.receivingNodeId →
        s'.flitsFor i (s.iteration i).currentDestinationIndex = [])
    (hle : (s.iteration i).currentDestinationIndex ≤ (s'.iteration i).currentDestinationIndex ∧
      (s'.iteration i).currentDestinationIndex ≤ (s.iteration i).currentDestinationIndex + 1)
    (hcurrent : ∀ d, a.localTaskList[(s'.iteration i).currentDestinationIndex]? = some d →
      Cur d (s'.flitsFor i (s'.iteration i).currentDestinationIndex)
        (s'.iteration i).currentFlitIndex (s'.iteration i).totalTaskBytes)
    (hdone : (s.iteration i).currentDestinationIndex < (s'.iteration i).currentDestinationIndex →
      ∀ d, a.localTaskList[(s.iteration i).currentDestinationIndex]? = some d →
        a.nodeId ≠ d.receivingNodeId →
          Done d (s'.flitsFor i (s.iteration i).currentDestinationIndex)) :
    a.Sending Cur Done s' := by
  have hne : ∀ i', i' ≠ i → ∀ j, ¬(i = i' ∧ (s.iteration i).currentDestinationIndex = j) :=
    fun i' hi j hij => hi hij.1.symm
  constructor
  · intro i' j hj
    by_cases hi : i' = i
    · subst hi
      rw [hflits i' j (by omega)]
      exact h.untouched i' j (by omega)
    · rw [hother i' hi] at hj
      rw [hflits i' j (hne i' hi j)]
      exact h.untouched i' j hj
  · intro i' j d hd hnode
    by_cases hij : i = i' ∧ (s.iteration i).currentDestinationIndex = j
    · obtain ⟨rfl, rfl⟩ := hij
      exact hown d hd hnode
    · rw [hflits i' j hij]
      exact h.own i' j d hd hnode
  · intro i' d hd
    by_cases hi : i' = i
    · subst hi
      exact hcurrent d hd
    · rw [hother i' hi] at hd ⊢
      rw [hflits i' _ (hne i' hi _)]
      exact h.current i' d hd
  · intro i' j d hj hd hnode
    by_cases hi : i' = i
    · subst hi
      by_cases hjc : (s.iteration i').currentDestinationIndex = j
      · subst hjc
        exact hdone hj d hd hnode
      · rw [hflits i' j (fun h => hjc h.2)]
        exact h.done i' j d (by omega) hd hnode
    · rw [hother i' hi] at hj
      rw [hflits i' j (hne i' hi j)]
      exact h.done i' j d hj hd hnode

theorem Sending.injectFlit (h : a.Sending Cur Done s)
    (hstart : ∀ d ∈ a.localTaskList, Cur d [] 0 0) {i : ℕ} {d : DependentTaskData}
    (hd : a.localTaskList[(s.iteration i).currentDestinationIndex]? = some d)
    (hnode : a.nodeId ≠ d.receivingNodeId) (hnext : a.Continues Cur Done s i d) :
    a.Sending Cur Done (a.injectFlit s i d) := by
  obtain ⟨h32, hnext⟩ := hnext
  have hcounters := counters_injectFlit (a := a) (d := d) h32
  have hother : ∀ i' j, ¬(i = i' ∧ (s.iteration i).currentDestinationIndex = j) →
      (a.injectFlit s i d).flitsFor i' j = s.flitsFor i' j := by
    intro i' j hne
    rw [flitsFor_injectFlit, if_neg hne, List.append_nil]
  have hthis : (a.injectFlit s i d).flitsFor i (s.iteration i).currentDestinationIndex =
      s.flitsFor i (s.iteration i).currentDestinationIndex ++ [a.createFlit s i d] := by
    rw [flitsFor_injectFlit, if_pos ⟨rfl, rfl⟩]
  have hown : ∀ d', a.localTaskList[(s.iteration i).currentDestinationIndex]? = some d' →
      a.nodeId = d'.receivingNodeId →
        (a.injectFlit s i d).flitsFor i (s.iteration i).currentDestinationIndex = [] := by
    intro d' hd' hnode'
    rw [hd] at hd'
    cases hd'
    exact absurd hnode' hnode
  split at hcounters
  · next hdone =>
    obtain ⟨hindex, hdestination, hbytes⟩ := hcounters
    rw [if_pos hdone] at hnext
    refine h.move (fun i' hi => iteration_injectFlit_of_ne s hi d) hother hown (by omega) ?_ ?_
    · intro d' hd'
      rw [hindex, hbytes, hdestination, hother i _ (by omega),
        h.untouched i _ (Nat.lt_succ_self _)]
      exact hstart d' (List.mem_of_getElem? hd')
    · intro _ d' hd' _
      rw [hd] at hd'
      cases hd'
      rw [hthis]
      exact hnext
  · next hmore =>
    obtain ⟨hindex, hdestination, hbytes⟩ := hcounters
    rw [if_neg hmore] at hnext
    refine h.move (fun i' hi => iteration_injectFlit_of_ne s hi d) hother hown (by omega) ?_
      (by omega)
    intro d' hd'
    rw [hdestination, hd] at hd'
    cases hd'
    rw [hindex, hbytes, hdestination, hthis]
    exact hnext

/-- A destination on the own node is skipped without a flit. -/
theorem Sending.skip (h : a.Sending Cur Done s) (hstart : ∀ d ∈ a.localTaskList, Cur d [] 0 0)
    (hempty : ∀ d index bytes, Cur d [] index bytes → index = 0 ∧ bytes = 0) {i : ℕ}
    {d : DependentTaskData} (hd : a.localTaskList[(s.iteration i).currentDestinationIndex]? = some d)
    (hnode : a.nodeId = d.receivingNodeId) :
    a.Sending Cur Done (s.setIteration i { s.iteration i with
      currentDestinationIndex := (s.iteration i).currentDestinationIndex + 1 }) := by
  have hcurrent := h.current i d hd
  rw [h.own i _ d hd hnode] at hcurrent
  obtain ⟨hindex, hbytes⟩ := hempty d _ _ hcurrent
  have hthis : (s.setIteration i { s.iteration i with
      currentDestinationIndex := (s.iteration i).currentDestinationIndex + 1 }).iteration i =
        { s.iteration i with
          currentDestinationIndex := (s.iteration i).currentDestinationIndex + 1 } :=
    Function.update_self _ _ _
  refine h.move (fun i' hi => Function.update_of_ne hi _ _) (fun _ _ _ => rfl)
    (fun d' hd' hnode' => h.own i _ d' hd' hnode') (by rw [hthis]; dsimp only; omega) ?_ ?_
  · intro d' hd'
    rw [hthis] at hd' ⊢
    dsimp only at hd' ⊢
    rw [flitsFor_setIteration, h.untouched i _ (Nat.lt_succ_self _), hindex, hbytes]
    exact hstart d' (List.mem_of_getElem? hd')
  · intro _ d' hd' hnode'
    rw [hd] at hd'
    cases hd'
    exact absurd hnode hnode'

theorem Sending.sendFlit (h : a.Sending Cur Done s)
    (hstart : ∀ d ∈ a.localTaskList, Cur d [] 0 0)
    (hempty : ∀ d index bytes, Cur d [] index bytes → index = 0 ∧ bytes = 0)
    {now i : ℕ} (hs : a.sendFlit s now i = some s')
    (hnext : ∀ d, a.localTaskList[(s.iteration i).currentDestinationIndex]? = some d →
      a.nodeId ≠ d.receivingNodeId → a.Continues Cur Done
        { s with numberOfFlits := min s.numberOfFlits (a.upperValue d.data) } i d) :
    a.Sending Cur Done s' := by
  obtain ⟨d, hd, hcases⟩ := sendFlit_eq_some hs
  have hlower : a.Sending Cur Done
      { s with numberOfFlits := min s.numberOfFlits (a.upperValue d.data) } :=
    ⟨h.untouched, h.own, h.current, h.done⟩
  rcases hcases with ⟨hnode, hkeeps | hkeeps⟩ | ⟨hnode, hkeeps⟩
  · exact hlower.keeps hkeeps
  · exact (hlower.skip hstart hempty hd hnode).keeps hkeeps
  · exact (hlower.injectFlit hstart hd hnode (hnext d hd hnode)).keeps hkeeps

/-- Between two `SendFlit` events nothing changes for the flits. -/
theorem step_cases {l : CtgStep} (hs : a.step s l = some s') : KeepsInjection s s' ∨
    ∃ now n i, l = .fire now n ∧ (s.pending[n]?.bind (fun e => e.2.sendIteration)) = some i ∧
      a.sendFlit { s with pending := s.pending.eraseIdx n } now i = some s' := by
  cases l with
  | flitReceived now flit => exact .inl (keepsInjection_flitReceivedCallback hs)
  | fire now n =>
    simp only [NocCtgApplication.step, fire, Option.bind_eq_bind, Option.bind_eq_some_iff] at hs
    obtain ⟨e, he, hs⟩ := hs
    have herase : KeepsInjection s { s with pending := s.pending.eraseIdx n } :=
      ⟨rfl, rfl, fun _ => rfl, fun _ => rfl, fun _ => rfl⟩
    obtain ⟨id, action⟩ := e
    cases action with
    | startSending i =>
      cases hs
      exact .inl (herase.trans (keepsInjection_scheduleNextTx _ now i))
    | sendFlit i => exact .inr ⟨now, n, i, rfl, by rw [he]; rfl, hs⟩
    | processFlit i =>
      cases hs
      exact .inl herase

theorem Sending.step (h : a.Sending Cur Done s) (hstart : ∀ d ∈ a.localTaskList, Cur d [] 0 0)
    (hempty : ∀ d index bytes, Cur d [] index bytes → index = 0 ∧ bytes = 0) {l : CtgStep}
    (hs : a.step s l = some s')
    (hnext : ∀ now n i d, l = .fire now n →
      (s.pending[n]?.bind (fun e => e.2.sendIteration)) = some i →
      a.localTaskList[(s.iteration i).currentDestinationIndex]? = some d →
      a.nodeId ≠ d.receivingNodeId → a.Continues Cur Done
        { s with numberOfFlits := min s.numberOfFlits (a.upperValue d.data) } i d) :
    a.Sending Cur Done s' := by
  rcases step_cases hs with hkeeps | ⟨now, n, i, rfl, hpending, hs⟩
  · exact h.keeps hkeeps
  · have herase : a.Sending Cur Done { s with pending := s.pending.eraseIdx n } :=
      ⟨h.untouched, h.own, h.current, h.done⟩
    exact herase.sendFlit hstart hempty hs (fun d hd hnode => hnext now n i d rfl hpending hd hnode)

theorem keepsInjection_startApplication (a : NocCtgApplication) (now : ℕ) :
    KeepsInjection { numberOfFlits := a.numberOfFlits } (a.startApplication now) := by
  unfold startApplication
  induction a.iterations with
  | zero => exact KeepsInjection.refl _
  | succ m ih =>
    rw [List.range_succ, List.foldl_append]
    have hset := KeepsInjection.setIteration _ m {} (ih.currentFlitIndex m).symm
      (ih.currentDestinationIndex m).symm (ih.totalTaskBytes m).symm
    refine (ih.trans hset).trans (KeepsInjection.trans ?_
      (keepsInjection_scheduleStartEvent (cancelEvents _ m) now m))
    exact ⟨rfl, rfl, fun _ => rfl, fun _ => rfl, fun _ => rfl⟩

theorem sending_startApplication (a : NocCtgApplication)
    (hstart : ∀ d ∈ a.localTaskList, Cur d [] 0 0) (now : ℕ) :
    a.Sending Cur Done (a.startApplication now) := by
  refine Sending.keeps ?_ (keepsInjection_startApplication a now)
  exact ⟨fun _ _ _ => rfl, fun _ _ _ _ _ => rfl,
    fun _ d hd => hstart d (List.mem_of_getElem? hd),
    fun _ _ _ hj => absurd hj (Nat.not_lt_zero _)⟩

end Sending

end NocCtgApplication
end Ns3Noc
