import Ns3Noc.NocCtgApplication

/-!
# The iterations of a task graph at a receiving node

A node starts the iterations in order: `FlitReceivedCallback` looks at the data of the current
iteration and moves on by at most one iteration for each flit. Between two flits any scheduled
event may run.
-/
namespace Ns3Noc

namespace CtgState

/-- How often the start of an iteration was scheduled, or the processing of its data. -/
def startCount (s : CtgState) (i : ℕ) : ℕ :=
  s.scheduled.countP (fun e => e.action = .startSending i ∨ e.action = .processFlit i)

/-- Whatever happened between the states belongs to the injection of one iteration. -/
structure InjectsFor (i : ℕ) (s s' : CtgState) : Prop where
  currentIteration : s'.currentIteration = s.currentIteration
  receivedData : s'.receivedData = s.receivedData
  flitReceivedTrace : s'.flitReceivedTrace = s.flitReceivedTrace
  destinations : ∀ j, j ≠ i →
    (s'.iteration j).currentDestinationIndex = (s.iteration j).currentDestinationIndex
  scheduled : ∃ events, s'.scheduled = s.scheduled ++ events ∧
    ∀ e ∈ events, e.action = .sendFlit i
  pending : ∀ e ∈ s'.pending, e ∈ s.pending ∨ e.2 = .sendFlit i

/-- The start of one iteration, or the processing of its data, was scheduled and nothing else
happened. -/
structure SchedulesStart (i : ℕ) (s s' : CtgState) : Prop where
  currentIteration : s'.currentIteration = s.currentIteration
  receivedData : s'.receivedData = s.receivedData
  flitReceivedTrace : s'.flitReceivedTrace = s.flitReceivedTrace
  destinations : ∀ j,
    (s'.iteration j).currentDestinationIndex = (s.iteration j).currentDestinationIndex
  scheduled : ∃ event, s'.scheduled = s.scheduled ++ [event] ∧
    (event.action = .startSending i ∨ event.action = .processFlit i) ∧
    s'.pending = s.pending ++ [(s.scheduled.length, event.action)]

theorem InjectsFor.refl (i : ℕ) (s : CtgState) : InjectsFor i s s :=
  ⟨rfl, rfl, rfl, fun _ _ => rfl, ⟨[], by simp, by simp⟩, fun _ he => .inl he⟩

theorem InjectsFor.trans {i : ℕ} {s t u : CtgState} (h : InjectsFor i s t)
    (h' : InjectsFor i t u) : InjectsFor i s u := by
  obtain ⟨events, hevents, hsend⟩ := h.scheduled
  obtain ⟨events', hevents', hsend'⟩ := h'.scheduled
  refine ⟨h'.currentIteration.trans h.currentIteration, h'.receivedData.trans h.receivedData,
    h'.flitReceivedTrace.trans h.flitReceivedTrace,
    fun j hj => (h'.destinations j hj).trans (h.destinations j hj),
    ⟨events ++ events', ?_, ?_⟩, ?_⟩
  · rw [hevents', hevents, List.append_assoc]
  · intro e he
    exact (List.mem_append.mp he).elim (hsend e) (hsend' e)
  · intro e he
    rcases h'.pending e he with he | he
    · exact h.pending e he
    · exact .inr he

theorem InjectsFor.startCount {i : ℕ} {s s' : CtgState} (h : InjectsFor i s s') (j : ℕ) :
    s'.startCount j = s.startCount j := by
  obtain ⟨events, hevents, hsend⟩ := h.scheduled
  have hzero : events.countP
      (fun e => decide (e.action = .startSending j ∨ e.action = .processFlit j)) = 0 := by
    rw [List.countP_eq_zero]
    intro e he
    simp [hsend e he]
  rw [CtgState.startCount, hevents, List.countP_append, hzero, Nat.add_zero, CtgState.startCount]

theorem SchedulesStart.startCount {i : ℕ} {s s' : CtgState} (h : SchedulesStart i s s') (j : ℕ) :
    s'.startCount j = s.startCount j + if j = i then 1 else 0 := by
  obtain ⟨event, hevent, haction, -⟩ := h.scheduled
  rw [CtgState.startCount, hevent, List.countP_append, ← CtgState.startCount,
    List.countP_singleton]
  congr 1
  by_cases hj : j = i
  · subst hj
    simp [haction]
  · have hne : i ≠ j := fun h => hj h.symm
    rcases haction with haction | haction <;> simp [haction, hj, hne]

theorem InjectsFor.setIteration (i : ℕ) (s : CtgState) (entry : CtgIteration) :
    InjectsFor i s (s.setIteration i entry) := by
  refine ⟨rfl, rfl, rfl, ?_, ⟨[], by simp [CtgState.setIteration], by simp⟩,
    fun _ he => .inl he⟩
  intro j hj
  simp only [CtgState.setIteration, Function.update_of_ne hj]

theorem InjectsFor.schedule (i : ℕ) (s : CtgState) (time : ℕ) :
    InjectsFor i s (s.schedule time (.sendFlit i)) := by
  refine ⟨rfl, rfl, rfl, fun _ _ => rfl, ⟨[⟨time, .sendFlit i⟩], rfl, by simp⟩, ?_⟩
  intro e he
  rcases List.mem_append.mp he with he | he
  · exact .inl he
  · rw [List.mem_singleton] at he
    exact .inr (he ▸ rfl)

theorem InjectsFor.cancelEvents (i j : ℕ) (s : CtgState) : InjectsFor i s (s.cancelEvents j) :=
  ⟨rfl, rfl, rfl, fun _ _ => rfl, ⟨[], by simp [CtgState.cancelEvents], by simp⟩,
    fun _ he => .inl (List.mem_of_mem_filter he)⟩

end CtgState

namespace NocCtgApplication
open CtgState
variable {a : NocCtgApplication} {s s' : CtgState}

theorem injectsFor_scheduleNextTx (s : CtgState) (now i : ℕ) :
    InjectsFor i s (a.scheduleNextTx s now i) := by
  unfold scheduleNextTx
  split
  · exact (InjectsFor.setIteration i s _).trans (InjectsFor.schedule i _ _)
  · unfold stopApplication
    induction a.iterations with
    | zero => exact InjectsFor.refl i s
    | succ m ih =>
      rw [List.range_succ, List.foldl_append]
      exact ih.trans (InjectsFor.cancelEvents i m _)

theorem injectsFor_sendFlit {now i : ℕ} (h : a.sendFlit s now i = some s') :
    InjectsFor i s s' := by
  have htrace : ∀ (numberOfFlits : ℕ) (flits : List InjectedFlit), InjectsFor i s
      { s with numberOfFlits := numberOfFlits, flitInjectedTrace := flits } := by
    intro numberOfFlits flits
    exact ⟨rfl, rfl, rfl, fun _ _ => rfl, ⟨[], by simp, by simp⟩, fun _ he => .inl he⟩
  simp only [sendFlit, Option.bind_eq_bind, Option.bind_eq_some_iff] at h
  obtain ⟨d, -, h⟩ := h
  split at h
  · cases h
  split at h
  · split at h <;> cases h
    · exact ((htrace _ s.flitInjectedTrace).trans (InjectsFor.setIteration i _ _)).trans
        (injectsFor_scheduleNextTx _ now i)
    · exact htrace _ s.flitInjectedTrace
  split at h
  · cases h
  split at h <;> cases h
  · exact ((htrace _ _).trans (InjectsFor.setIteration i _ _)).trans
      (injectsFor_scheduleNextTx _ now i)
  · exact (htrace _ _).trans (InjectsFor.setIteration i _ _)

/-- What running a pending event has done. -/
theorem fire_eq_some {now n : ℕ} (h : a.fire s now n = some s') :
    ∃ e ∈ s.pending, ∃ i, InjectsFor i s s' ∧
      (e.2 = .startSending i ∨ e.2 = .sendFlit i ∨
        e.2 = .processFlit i ∧ s'.iteration = s.iteration ∧ ∀ e' ∈ s'.pending, e' ∈ s.pending) := by
  simp only [fire, Option.bind_eq_bind, Option.bind_eq_some_iff] at h
  obtain ⟨e, he, h⟩ := h
  have hmem := List.mem_of_getElem? he
  have herase : ∀ i, InjectsFor i s { s with pending := s.pending.eraseIdx n } := by
    intro i
    exact ⟨rfl, rfl, rfl, fun _ _ => rfl, ⟨[], by simp, by simp⟩,
      fun _ he => .inl (List.mem_of_mem_eraseIdx he)⟩
  obtain ⟨id, action⟩ := e
  cases action with
  | startSending i =>
    cases h
    exact ⟨_, hmem, i, (herase i).trans (injectsFor_scheduleNextTx _ now i), .inl rfl⟩
  | sendFlit i => exact ⟨_, hmem, i, (herase i).trans (injectsFor_sendFlit h), .inr (.inl rfl)⟩
  | processFlit i =>
    cases h
    exact ⟨_, hmem, i, herase i, .inr (.inr ⟨rfl, rfl, fun _ he => List.mem_of_mem_eraseIdx he⟩)⟩

theorem schedulesStart_scheduleStartEvent (s : CtgState) (now i : ℕ)
    (h : (a.containsNotDependentTask ∨ s.receivedData i = a.totalData) ∧
      0 < a.localTaskList.length) :
    SchedulesStart i s (a.scheduleStartEvent s now i) := by
  unfold scheduleStartEvent
  rw [if_pos h]
  refine ⟨rfl, rfl, rfl, ?_, ⟨_, rfl, .inl rfl, rfl⟩⟩
  intro j
  by_cases hj : j = i
  · subst hj
    simp [schedule, setIteration]
  · simp [schedule, setIteration, Function.update_of_ne hj]

/-- The callback schedules the next start itself, and `StartApplication` has not done so. -/
def StartsOnArrival (a : NocCtgApplication) (s : CtgState) (i : ℕ) : Prop :=
  a.localTaskList.length = 0 ∨ a.containsNotDependentTask = false ∧
    (s.iteration i).currentDestinationIndex < a.localTaskList.length

instance (a : NocCtgApplication) (s : CtgState) (i : ℕ) : Decidable (a.StartsOnArrival s i) :=
  inferInstanceAs (Decidable (_ ∨ _))

theorem schedulesStart_dataArrived (s : CtgState) (now i : ℕ)
    (hdata : s.receivedData i = a.totalData) (h : a.StartsOnArrival s i) :
    SchedulesStart i s (a.dataArrived s now i) := by
  unfold dataArrived
  split
  · exact ⟨rfl, rfl, rfl, fun _ => rfl, ⟨_, rfl, .inr rfl, rfl⟩⟩
  · next hne =>
    obtain ⟨hnone, hlt⟩ := h.resolve_left hne
    rw [if_pos ⟨by simp [hnone], hlt⟩]
    exact schedulesStart_scheduleStartEvent s now i ⟨.inr hdata, by omega⟩

theorem dataArrived_eq_self (s : CtgState) (now i : ℕ) (h : ¬a.StartsOnArrival s i) :
    a.dataArrived s now i = s := by
  unfold dataArrived
  rw [if_neg (fun hlen => h (.inl hlen)), if_neg]
  rintro ⟨hnone, hlt⟩
  exact h (.inr ⟨by simpa using hnone, hlt⟩)

/-- The node has moved on from the iteration `i`. -/
structure Advances (a : NocCtgApplication) (s s' : CtgState) : Prop where
  currentIteration : s'.currentIteration = s.currentIteration + 1
  receivedData : ∀ j, j ≠ s.currentIteration → s'.receivedData j = s.receivedData j
  flitReceivedTrace : s'.flitReceivedTrace = s.flitReceivedTrace
  destinations : ∀ j,
    (s'.iteration j).currentDestinationIndex = (s.iteration j).currentDestinationIndex
  startCount : ∀ j, s'.startCount j = s.startCount j +
    if j = s.currentIteration ∧ a.StartsOnArrival s j then 1 else 0
  pending : ∀ e ∈ s'.pending, e ∈ s.pending ∨ a.StartsOnArrival s s.currentIteration ∧
    (e.2 = .startSending s.currentIteration ∨ e.2 = .processFlit s.currentIteration)

theorem advances_nextIteration (s : CtgState) (now : ℕ) :
    a.Advances s (a.nextIteration s now) := by
  have hdata : ∀ j, j ≠ s.currentIteration →
      Function.update s.receivedData s.currentIteration a.totalData j = s.receivedData j :=
    fun j hj => Function.update_of_ne hj _ _
  unfold nextIteration
  by_cases hstart : a.StartsOnArrival s s.currentIteration
  · have h := schedulesStart_dataArrived (a := a)
      { s with receivedData := Function.update s.receivedData s.currentIteration a.totalData }
      now s.currentIteration (Function.update_self _ _ _) hstart
    refine ⟨rfl, ?_, h.flitReceivedTrace, h.destinations, ?_, ?_⟩
    · intro j hj
      exact (congrFun h.receivedData j).trans (hdata j hj)
    · intro j
      refine (h.startCount j).trans ?_
      by_cases hj : j = s.currentIteration
      · rw [if_pos hj, if_pos ⟨hj, hj ▸ hstart⟩]
        rfl
      · rw [if_neg hj, if_neg (fun h => hj h.1)]
        rfl
    · intro e he
      obtain ⟨event, -, haction, hpending⟩ := h.scheduled
      rw [show _ = _ from hpending] at he
      rcases List.mem_append.mp he with he | he
      · exact .inl he
      · rw [List.mem_singleton] at he
        exact .inr ⟨hstart, he ▸ haction⟩
  · have h := dataArrived_eq_self (a := a)
      { s with receivedData := Function.update s.receivedData s.currentIteration a.totalData }
      now s.currentIteration hstart
    dsimp only at h ⊢
    rw [h]
    refine ⟨rfl, hdata, rfl, fun _ => rfl, ?_, fun e he => .inl he⟩
    intro j
    have hno : ¬(j = s.currentIteration ∧ a.StartsOnArrival s j) :=
      fun h => hstart (h.1 ▸ h.2)
    rw [if_neg hno]
    rfl

/-- The bits that have arrived for an iteration. -/
def receivedBits (a : NocCtgApplication) (flits : List ReceivedFlit) (i : ℕ) : ℕ :=
  ((flits.filter (fun flit => flit.ctgIteration = i)).map (fun flit => a.dataSize flit * 8)).sum

/-- The iterations up to the first one whose data is incomplete have started, once each. -/
def Progress (a : NocCtgApplication) (s : CtgState) : Prop :=
  ∀ k < a.iterations, (∀ j ≤ k, a.totalData ≤ a.receivedBits s.flitReceivedTrace j) →
    s.flitReceivedTrace ≠ [] → k < s.currentIteration ∧ ∀ j ≤ k, s.startCount j = 1

/-- The flit does not complete the data of the current iteration, or it neither leaves the next
iteration complete as well nor meets an iteration that `StartApplication` has started. -/
def ArrivesInTurn (a : NocCtgApplication) (s : CtgState) : CtgStep → Prop
  | .flitReceived _ flit =>
    let i := s.currentIteration
    let flits := s.flitReceivedTrace ++ [flit]
    flit.ctgIteration < a.iterations → i < a.iterations → a.totalData ≤ a.receivedBits flits i →
      (i + 1 = a.iterations ∨ a.receivedBits flits (i + 1) < a.totalData) ∧
      (0 < a.totalData ∨ a.localTaskList.length = 0 ∨ a.containsNotDependentTask = true ∨
        a.localTaskList.length ≤ (s.iteration i).currentDestinationIndex)
  | .fire _ _ => True

instance (a : NocCtgApplication) (s : CtgState) : (l : CtgStep) → Decidable (a.ArrivesInTurn s l)
  | .flitReceived _ _ => inferInstanceAs (Decidable (_ → _ → _ → _ ∧ _))
  | .fire _ _ => .isTrue True.intro

/-- `StartApplication` schedules the start of every iteration. -/
def StartsAtOnce (a : NocCtgApplication) : Prop :=
  (a.containsNotDependentTask = true ∨ a.totalData = 0) ∧ 0 < a.localTaskList.length

instance (a : NocCtgApplication) : Decidable a.StartsAtOnce :=
  inferInstanceAs (Decidable (_ ∧ _))

structure Underway (a : NocCtgApplication) (s : CtgState) : Prop where
  le : s.currentIteration ≤ a.iterations
  fresh : s.flitReceivedTrace = [] → s.currentIteration = 0
  waiting : s.currentIteration < a.iterations → s.flitReceivedTrace ≠ [] →
    a.receivedBits s.flitReceivedTrace s.currentIteration < a.totalData
  received : ∀ j, s.currentIteration ≤ j →
    s.receivedData j = a.receivedBits s.flitReceivedTrace j
  covered : ∀ j < s.currentIteration, a.totalData ≤ a.receivedBits s.flitReceivedTrace j
  started : ∀ j < a.iterations,
    s.startCount j = if j < s.currentIteration ∨ a.StartsAtOnce then 1 else 0
  idle : ∀ j, s.startCount j = 0 → (s.iteration j).currentDestinationIndex = 0
  pending : ∀ e ∈ s.pending, ∀ j, e.2 = .startSending j ∨ e.2 = .sendFlit j → s.startCount j ≠ 0

theorem receivedBits_append (flits : List ReceivedFlit) (flit : ReceivedFlit) (i : ℕ) :
    a.receivedBits (flits ++ [flit]) i =
      a.receivedBits flits i + if flit.ctgIteration = i then a.dataSize flit * 8 else 0 := by
  unfold receivedBits
  by_cases h : flit.ctgIteration = i <;> simp [h]

theorem Underway.progress (h : a.Underway s) : a.Progress s := by
  intro k hk hbits htrace
  have hlt : k < s.currentIteration := by
    by_contra hge
    have hle : s.currentIteration ≤ k := Nat.le_of_not_lt hge
    exact absurd (hbits _ hle) (not_le.mpr (h.waiting (by omega) htrace))
  refine ⟨hlt, ?_⟩
  intro j hj
  rw [h.started j (by omega), if_pos (.inl (by omega))]

theorem Underway.fire (h : a.Underway s) {now n : ℕ} (hs : a.fire s now n = some s') :
    a.Underway s' := by
  obtain ⟨e, he, i, hi, haction⟩ := fire_eq_some hs
  have hcount := hi.startCount
  refine ⟨?_, ?_, ?_, ?_, ?_, ?_, ?_, ?_⟩
  · rw [hi.currentIteration]
    exact h.le
  · rw [hi.currentIteration, hi.flitReceivedTrace]
    exact h.fresh
  · rw [hi.currentIteration, hi.flitReceivedTrace]
    exact h.waiting
  · rw [hi.currentIteration, hi.flitReceivedTrace, hi.receivedData]
    exact h.received
  · rw [hi.currentIteration, hi.flitReceivedTrace]
    exact h.covered
  · intro j hj
    rw [hi.currentIteration, hcount]
    exact h.started j hj
  · intro j hj
    rw [hcount] at hj
    rcases haction with haction | haction | ⟨-, hiteration, -⟩
    · rw [hi.destinations j (fun heq => h.pending e he i (.inl haction) (heq ▸ hj))]
      exact h.idle j hj
    · rw [hi.destinations j (fun heq => h.pending e he i (.inr haction) (heq ▸ hj))]
      exact h.idle j hj
    · rw [hiteration]
      exact h.idle j hj
  · intro e' he' j hj
    rw [hcount]
    rcases haction with haction | haction | ⟨-, -, hpending⟩
    · rcases hi.pending e' he' with he' | he'
      · exact h.pending e' he' j hj
      · rw [he'] at hj
        rcases hj with hj | hj <;> cases hj
        exact h.pending e he i (.inl haction)
    · rcases hi.pending e' he' with he' | he'
      · exact h.pending e' he' j hj
      · rw [he'] at hj
        rcases hj with hj | hj <;> cases hj
        exact h.pending e he i (.inr haction)
    · exact h.pending e' (hpending e' he') j hj

/-- The condition keeps `StartApplication` and the callback from starting the same iteration. -/
theorem Underway.startsOnArrival_iff (h : a.Underway s) (hcurrent : s.currentIteration < a.iterations)
    (hdata : 0 < a.totalData ∨ a.localTaskList.length = 0 ∨ a.containsNotDependentTask = true ∨
      a.localTaskList.length ≤ (s.iteration s.currentIteration).currentDestinationIndex) :
    a.StartsOnArrival s s.currentIteration ↔ ¬a.StartsAtOnce := by
  constructor
  · rintro (hlen | ⟨hnone, hlt⟩) ⟨hroot, hlen'⟩
    · omega
    · rcases hroot with hroot | hzero
      · rw [hroot] at hnone
        cases hnone
      · rcases hdata with hdata | hdata | hdata | hdata
        · exact hdata.ne' hzero
        · omega
        · rw [hdata] at hnone
          cases hnone
        · omega
  · intro hlate
    by_cases hlen : a.localTaskList.length = 0
    · exact .inl hlen
    · have hcount := h.started s.currentIteration hcurrent
      rw [if_neg (by simp [hlate])] at hcount
      refine .inr ⟨?_, ?_⟩
      · by_contra hroot
        exact hlate ⟨.inl (by simpa using hroot), by omega⟩
      · rw [h.idle _ hcount]
        omega

theorem Underway.recordFlit (h : a.Underway s) (flit : ReceivedFlit) (j : ℕ)
    (hj : s.currentIteration ≤ j) :
    (a.recordFlit s flit).receivedData j = a.receivedBits (s.flitReceivedTrace ++ [flit]) j := by
  simp only [receivedBits_append, NocCtgApplication.recordFlit, Function.update_apply]
  by_cases heq : j = flit.ctgIteration
  · subst heq
    rw [if_pos rfl, if_pos rfl, h.received _ hj]
    push_cast
    ring
  · rw [if_neg heq, if_neg (fun h => heq h.symm), h.received j hj, Nat.add_zero]

theorem covered_append (flits : List ReceivedFlit) (flit : ReceivedFlit) {j : ℕ}
    (h : a.totalData ≤ a.receivedBits flits j) :
    a.totalData ≤ a.receivedBits (flits ++ [flit]) j := by
  refine h.trans ?_
  rw [receivedBits_append]
  exact_mod_cast Nat.le_add_right _ _

/-- A flit moves the node on if the current iteration is complete with it. -/
theorem Underway.flitReceivedCallback_eq (h : a.Underway s) {flit : ReceivedFlit}
    (hflit : flit.ctgIteration < a.iterations) (now : ℕ) :
    a.flitReceivedCallback s now flit =
      if s.currentIteration < a.iterations ∧
          a.totalData ≤ a.receivedBits (s.flitReceivedTrace ++ [flit]) s.currentIteration then
        some (a.nextIteration (a.recordFlit s flit) now)
      else some (a.recordFlit s flit) := by
  rw [flitReceivedCallback, if_pos hflit, ← h.recordFlit flit _ le_rfl]
  rfl

theorem Underway.nextIteration (h : a.Underway s) {flit : ReceivedFlit}
    (hcurrent : s.currentIteration < a.iterations)
    (hdata : a.totalData ≤ a.receivedBits (s.flitReceivedTrace ++ [flit]) s.currentIteration)
    (hnext : s.currentIteration + 1 = a.iterations ∨
      a.receivedBits (s.flitReceivedTrace ++ [flit]) (s.currentIteration + 1) < a.totalData)
    (hstarts : a.StartsOnArrival s s.currentIteration ↔ ¬a.StartsAtOnce) (now : ℕ) :
    a.Underway (a.nextIteration (a.recordFlit s flit) now) := by
  have hadv := advances_nextIteration (a := a) (a.recordFlit s flit) now
  have hcount : ∀ j, (a.nextIteration (a.recordFlit s flit) now).startCount j = s.startCount j +
      if j = s.currentIteration ∧ a.StartsOnArrival s j then 1 else 0 := hadv.startCount
  have htrace : (a.nextIteration (a.recordFlit s flit) now).flitReceivedTrace =
      s.flitReceivedTrace ++ [flit] := hadv.flitReceivedTrace
  have hiter : (a.nextIteration (a.recordFlit s flit) now).currentIteration =
      s.currentIteration + 1 := hadv.currentIteration
  refine ⟨?_, ?_, ?_, ?_, ?_, ?_, ?_, ?_⟩
  · rw [hiter]
    exact hcurrent
  · rw [htrace]
    simp
  · rw [hiter, htrace]
    intro hlt _
    exact hnext.resolve_left (by omega)
  · rw [hiter, htrace]
    intro j hj
    rw [hadv.receivedData j (by simp only [NocCtgApplication.recordFlit]; omega),
      h.recordFlit flit j (by omega)]
  · rw [hiter, htrace]
    intro j hj
    rcases Nat.lt_succ_iff_lt_or_eq.mp hj with hj | rfl
    · exact covered_append _ _ (h.covered j hj)
    · exact hdata
  · intro j hj
    rw [hcount, hiter, h.started j hj]
    by_cases heq : j = s.currentIteration
    · subst heq
      by_cases honce : a.StartsAtOnce
      · simp [honce, mt hstarts.mp (not_not.mpr honce)]
      · simp [honce, hstarts.mpr honce]
    · have hlt : j < s.currentIteration + 1 ↔ j < s.currentIteration := by omega
      simp [heq, hlt]
  · intro j hj
    rw [hcount] at hj
    exact (hadv.destinations j).trans (h.idle j (by omega))
  · intro e he j hj
    rw [hcount]
    rcases hadv.pending e he with he | ⟨hstart, he⟩
    · have := h.pending e he j hj
      omega
    · have heq : j = s.currentIteration := by
        rcases hj with hj | hj <;> rcases he with he | he <;> rw [hj] at he <;> cases he
        rfl
      rw [if_pos ⟨heq, heq ▸ hstart⟩]
      omega

theorem Underway.stillWaiting (h : a.Underway s) {flit : ReceivedFlit}
    (hno : ¬(s.currentIteration < a.iterations ∧
      a.totalData ≤ a.receivedBits (s.flitReceivedTrace ++ [flit]) s.currentIteration)) :
    a.Underway (a.recordFlit s flit) := by
  refine ⟨h.le, ?_, ?_, fun j hj => h.recordFlit flit j hj, ?_, h.started, h.idle, h.pending⟩
  · simp [NocCtgApplication.recordFlit]
  · intro hlt _
    exact not_le.mp (fun hdata => hno ⟨hlt, hdata⟩)
  · intro j hj
    exact covered_append _ _ (h.covered j hj)

theorem Underway.step (h : a.Underway s) {l : CtgStep} (hok : a.ArrivesInTurn s l)
    (hs : a.step s l = some s') : a.Underway s' := by
  cases l with
  | fire now n => exact h.fire hs
  | flitReceived now flit =>
    have hflit : flit.ctgIteration < a.iterations := by
      by_contra hge
      rw [NocCtgApplication.step, flitReceivedCallback, if_neg hge] at hs
      cases hs
    rw [NocCtgApplication.step, h.flitReceivedCallback_eq hflit] at hs
    split at hs <;> cases hs
    · next hcomplete =>
      obtain ⟨hnext, hdata⟩ := hok hflit hcomplete.1 hcomplete.2
      exact h.nextIteration hcomplete.1 hcomplete.2 hnext
        (h.startsOnArrival_iff hcomplete.1 hdata) now
    · next hno => exact h.stillWaiting hno

/-- Any other flit strands an iteration or starts one twice. -/
theorem Underway.not_progress (h : a.Underway s) (hT : 0 ≤ a.totalData) {l : CtgStep}
    (hok : ¬a.ArrivesInTurn s l) : ∃ s', a.step s l = some s' ∧ ¬a.Progress s' := by
  cases l with
  | fire now n => exact absurd True.intro hok
  | flitReceived now flit =>
    simp only [ArrivesInTurn, Classical.not_imp] at hok
    obtain ⟨hflit, hcurrent, hdata, hno⟩ := hok
    refine ⟨_, (h.flitReceivedCallback_eq hflit now).trans (if_pos ⟨hcurrent, hdata⟩), ?_⟩
    have hadv := advances_nextIteration (a := a) (a.recordFlit s flit) now
    have htrace : (a.nextIteration (a.recordFlit s flit) now).flitReceivedTrace =
        s.flitReceivedTrace ++ [flit] := hadv.flitReceivedTrace
    have hiter : (a.nextIteration (a.recordFlit s flit) now).currentIteration =
        s.currentIteration + 1 := hadv.currentIteration
    have hcovered : ∀ j ≤ s.currentIteration,
        a.totalData ≤ a.receivedBits (s.flitReceivedTrace ++ [flit]) j := by
      intro j hj
      rcases Nat.lt_or_eq_of_le hj with hj | rfl
      · exact covered_append _ _ (h.covered j hj)
      · exact hdata
    intro hprogress
    by_cases hnext : s.currentIteration + 1 = a.iterations ∨
        a.receivedBits (s.flitReceivedTrace ++ [flit]) (s.currentIteration + 1) < a.totalData
    · -- the iteration had been started at once because no data was expected
      have hstart := mt (And.intro hnext) hno
      simp only [not_or, not_lt, not_le] at hstart
      obtain ⟨hzero, hlen, hroot, hlt⟩ := hstart
      have honce : a.StartsAtOnce := ⟨.inr (le_antisymm hzero hT), by omega⟩
      have hstarts : a.StartsOnArrival s s.currentIteration :=
        .inr ⟨by simpa using hroot, hlt⟩
      have hone := (hprogress s.currentIteration hcurrent (by rwa [htrace])
        (by rw [htrace]; simp)).2 _ le_rfl
      have hcount : (a.nextIteration (a.recordFlit s flit) now).startCount s.currentIteration =
          s.startCount s.currentIteration +
            if s.currentIteration = s.currentIteration ∧
              a.StartsOnArrival s s.currentIteration then 1 else 0 := hadv.startCount _
      rw [hcount, if_pos ⟨rfl, hstarts⟩, h.started _ hcurrent, if_pos (.inr honce)] at hone
      omega
    · obtain ⟨hlast, hearly⟩ := not_or.mp hnext
      have hlt := (hprogress (s.currentIteration + 1) (by omega) (by
        rw [htrace]
        intro j hj
        rcases Nat.lt_succ_iff_lt_or_eq.mp (Nat.lt_succ_of_le hj) with hj | rfl
        · exact hcovered j (by omega)
        · exact not_lt.mp hearly) (by rw [htrace]; simp)).1
      omega

/-- The loop of `StartApplication` before iteration `m`. -/
structure Starting (a : NocCtgApplication) (m : ℕ) (s : CtgState) : Prop where
  currentIteration : s.currentIteration = 0
  receivedData : ∀ j, s.receivedData j = 0
  flitReceivedTrace : s.flitReceivedTrace = []
  destinations : ∀ j, (s.iteration j).currentDestinationIndex = 0
  started : ∀ j, s.startCount j = if j < m ∧ a.StartsAtOnce then 1 else 0
  pending : ∀ e ∈ s.pending, ∀ j, e.2 = .startSending j ∨ e.2 = .sendFlit j → s.startCount j ≠ 0

theorem Starting.reset {m : ℕ} (h : a.Starting m s) :
    a.Starting m ((s.setIteration m {}).cancelEvents m) := by
  refine ⟨h.currentIteration, h.receivedData, h.flitReceivedTrace, ?_, h.started,
    fun e he => h.pending e (List.mem_of_mem_filter he)⟩
  intro j
  simp only [cancelEvents, setIteration, Function.update_apply]
  split
  · rfl
  · exact h.destinations j

theorem Starting.succ {m : ℕ} (h : a.Starting m s) (now : ℕ) :
    a.Starting (m + 1) (a.scheduleStartEvent s now m) := by
  by_cases honce : a.StartsAtOnce
  · have hstart := schedulesStart_scheduleStartEvent (a := a) s now m
      ⟨honce.1.imp id (fun hzero => (h.receivedData m).trans hzero.symm), honce.2⟩
    have hcount := hstart.startCount
    refine ⟨hstart.currentIteration.trans h.currentIteration, ?_,
      hstart.flitReceivedTrace.trans h.flitReceivedTrace,
      fun j => (hstart.destinations j).trans (h.destinations j), ?_, ?_⟩
    · intro j
      rw [hstart.receivedData]
      exact h.receivedData j
    · intro j
      rw [hcount, h.started]
      simp only [honce, and_true]
      split <;> split <;> split <;> omega
    · intro e he j hj
      obtain ⟨event, -, haction, hpending⟩ := hstart.scheduled
      rw [hcount]
      rw [hpending] at he
      rcases List.mem_append.mp he with he | he
      · have := h.pending e he j hj
        omega
      · rw [List.mem_singleton] at he
        have heq : j = m := by
          rw [he] at hj
          dsimp only at hj
          rcases hj with hj | hj <;> rcases haction with haction | haction <;>
            rw [hj] at haction <;> cases haction
          rfl
        rw [if_pos heq]
        omega
  · have hself : a.scheduleStartEvent s now m = s := by
      unfold scheduleStartEvent
      rw [if_neg]
      rintro ⟨hroot, hlen⟩
      refine honce ⟨hroot.imp id (fun hdata => ?_), hlen⟩
      rw [← hdata, h.receivedData]
    rw [hself]
    refine ⟨h.currentIteration, h.receivedData, h.flitReceivedTrace, h.destinations, ?_, h.pending⟩
    intro j
    rw [h.started]
    simp [honce]

theorem underway_startApplication (a : NocCtgApplication) (now : ℕ) :
    a.Underway (a.startApplication now) := by
  have hloop : ∀ m, a.Starting m ((List.range m).foldl (fun s i =>
      a.scheduleStartEvent ((s.setIteration i {}).cancelEvents i) now i)
      { numberOfFlits := a.numberOfFlits }) := by
    intro m
    induction m with
    | zero => constructor <;> simp [CtgState.startCount]
    | succ m ih =>
      rw [List.range_succ, List.foldl_append]
      exact ih.reset.succ now
  have h : a.Starting a.iterations (a.startApplication now) := hloop a.iterations
  refine ⟨?_, fun _ => h.currentIteration, fun _ hne => absurd h.flitReceivedTrace hne, ?_, ?_, ?_,
    fun j _ => h.destinations j, h.pending⟩
  · rw [h.currentIteration]
    exact Nat.zero_le _
  · intro j _
    rw [h.receivedData, h.flitReceivedTrace]
    simp [receivedBits]
  · intro j hj
    rw [h.currentIteration] at hj
    exact absurd hj (Nat.not_lt_zero j)
  · intro j hj
    rw [h.started, h.currentIteration]
    simp [hj]

/-- Every prefix of a run makes progress exactly if every flit arrives in turn. -/
theorem progress_iff (a : NocCtgApplication) (hT : 0 ≤ a.totalData) (now : ℕ)
    (steps : List CtgStep) : PartialRuns.Always a.step a.Progress (a.startApplication now) steps ↔
      PartialRuns.Allowed a.step a.ArrivesInTurn (a.startApplication now) steps :=
  PartialRuns.always_iff_allowed (fun _ h => h.progress) (fun _ _ _ h hok hs => h.step hok hs)
    (fun _ _ h hok => h.not_progress hT hok) (underway_startApplication a now) steps

/-- A node that waits for 8 bits in each of two iterations before it sends 8 bits itself. -/
def relay : NocCtgApplication :=
  { plain with
    iterations := 2
    flitSize := 5
    taskList := [⟨"relay", 0⟩]
    remoteTaskList := [⟨"source", 1, 8, "relay", 0⟩]
    localTaskList := [⟨"relay", 0, 8, "sink", 1⟩]
    iterations_pos := Nat.two_pos
    flitSize_pos := by decide
    flitSize_lt := by decide }

theorem progress_relay : PartialRuns.Always relay.step relay.Progress (relay.startApplication 0)
    [.flitReceived 7 ⟨.head, 5, 0⟩, .fire 8 0, .fire 8 0, .flitReceived 9 ⟨.head, 5, 1⟩] :=
  (progress_iff relay (by decide +kernel) 0 _).mpr (by decide +kernel)

/-- The data of iteration 1 arrives first, and its start is never scheduled. -/
theorem not_progress_relay : ∃ steps s,
    PartialRuns.run relay.step (relay.startApplication 0) steps = some s ∧ ¬relay.Progress s := by
  have hrun : (PartialRuns.run relay.step (relay.startApplication 0)
      [.flitReceived 7 ⟨.head, 5, 1⟩, .flitReceived 8 ⟨.head, 5, 0⟩]).map
      (fun s => (s.currentIteration, s.flitReceivedTrace)) =
      some (1, [⟨.head, 5, 1⟩, ⟨.head, 5, 0⟩]) := by decide +kernel
  obtain ⟨s, hs, hstate⟩ := Option.map_eq_some_iff.mp hrun
  refine ⟨_, s, hs, ?_⟩
  intro h
  have hlt := (h 1 (by decide) (by rw [(Prod.mk.inj hstate).2]; decide +kernel)
    (by rw [(Prod.mk.inj hstate).2]; decide)).1
  rw [(Prod.mk.inj hstate).1] at hlt
  omega

end NocCtgApplication
end Ns3Noc
