import Ns3Noc.BusyPeriods
import Ns3Noc.DcfManager
import Ns3Noc.PartialRuns

/-!
# Runs of the DCF manager

The calls that one manager receives, with the busy periods that they announce and the backoff that
each state last started.
-/
namespace Ns3Noc.Dcf

open BusyPeriods PartialRuns

inductive Kind
  | rx | tx | ccaBusy | nav | ackTimeout | ctsTimeout | switching
  deriving DecidableEq, Repr

inductive Call
  | notifyRxStart (duration : ℕ)
  | notifyRxEnd (receivedOk : Bool)
  | notifyTxStart (duration : ℕ)
  | notifyMaybeCcaBusyStart (duration : ℕ)
  | notifySwitchingStart (duration : ℕ)
  | notifyNavReset (duration : ℕ)
  | notifyNavStart (duration : ℕ)
  | notifyAckTimeoutStart (duration : ℕ)
  | notifyAckTimeoutReset
  | notifyCtsTimeoutStart (duration : ℕ)
  | notifyCtsTimeoutReset
  | requestAccess (state : ℕ) (backoff : Option ℕ)
  | startBackoff (state nSlots : ℕ)
  | accessTimeout
  deriving DecidableEq, Repr

namespace Call

/-- The manager after a call, and the state that was granted access. -/
def exec (dcf : DcfManager) (now : ℤ) : Call → Option (DcfManager × Option (ℕ × List ℕ))
  | notifyRxStart duration => some (dcf.notifyRxStartNow now duration, none)
  | notifyRxEnd receivedOk => some (dcf.notifyRxEndNow now receivedOk, none)
  | notifyTxStart duration => (dcf.notifyTxStartNow now duration).map (·, none)
  | notifyMaybeCcaBusyStart duration => some (dcf.notifyMaybeCcaBusyStartNow now duration, none)
  | notifySwitchingStart duration => (dcf.notifySwitchingStartNow now duration).map (·, none)
  | notifyNavReset duration => some (dcf.notifyNavResetNow now duration, none)
  | notifyNavStart duration => (dcf.notifyNavStartNow now duration).map (·, none)
  | notifyAckTimeoutStart duration => (dcf.notifyAckTimeoutStartNow now duration).map (·, none)
  | notifyAckTimeoutReset => some (dcf.notifyAckTimeoutResetNow now, none)
  | notifyCtsTimeoutStart duration => some (dcf.notifyCtsTimeoutStartNow now duration, none)
  | notifyCtsTimeoutReset => some (dcf.notifyCtsTimeoutResetNow now, none)
  | requestAccess i backoff => dcf.requestAccess now i backoff
  | startBackoff i nSlots => (dcf.startBackoffNow now i nSlots).map (·, none)
  | accessTimeout => some (dcf.accessTimedOut now)

/-- The busy period that a call announces; the end of a reception is a moment of it. -/
def announced (now : ℤ) : Call → Option (Period Kind ℤ)
  | notifyRxStart duration => some ⟨.rx, now, now + duration⟩
  | notifyRxEnd _ => some ⟨.rx, now, now⟩
  | notifyTxStart duration => some ⟨.tx, now, now + duration⟩
  | notifyMaybeCcaBusyStart duration => some ⟨.ccaBusy, now, now + duration⟩
  | notifySwitchingStart duration => some ⟨.switching, now, now + duration⟩
  | notifyNavReset duration => some ⟨.nav, now, now + duration⟩
  | notifyNavStart duration => some ⟨.nav, now, now + duration⟩
  | notifyAckTimeoutStart duration => some ⟨.ackTimeout, now, now + duration⟩
  | notifyCtsTimeoutStart duration => some ⟨.ctsTimeout, now, now + duration⟩
  | _ => none

/-- The kinds of period that a call ends. A transmission cuts off a reception. -/
def ended : Call → List Kind
  | notifyRxEnd _ => [.rx]
  | notifyTxStart _ => [.rx]
  | notifySwitchingStart _ => [.rx, .ccaBusy, .nav, .ackTimeout, .ctsTimeout]
  | notifyNavReset _ => [.nav]
  | notifyAckTimeoutReset => [.ackTimeout]
  | notifyCtsTimeoutReset => [.ctsTimeout]
  | _ => []

end Call

/-- What the setters of a manager set -/
structure Timing where
  slotTimeUs : ℕ
  sifs : ℤ
  eifsNoDifs : ℤ
  deriving DecidableEq, Repr

namespace Timing

variable (timing : Timing)

def slot : ℤ := 1000 * timing.slotTimeUs

/-- SIFS and the AIFSN slots of a state -/
def aifs (state : DcfState) : ℤ := timing.sifs + state.aifsn * timing.slot

end Timing

namespace DcfManager

variable (dcf : DcfManager)

def timing : Timing := ⟨dcf.slotTimeUs, dcf.sifs, dcf.eifsNoDifs⟩

/-- The end of the last period of a kind -/
def busyEnd : Kind → ℤ
  | .rx => if dcf.rxing then dcf.lastRxStart + dcf.lastRxDuration else dcf.lastRxEnd
  | .tx => dcf.lastTxStart + dcf.lastTxDuration
  | .ccaBusy => dcf.lastBusyStart + dcf.lastBusyDuration
  | .nav => dcf.lastNavEnd
  | .ackTimeout => dcf.lastAckTimeoutEnd
  | .ctsTimeout => dcf.lastCtsTimeoutEnd
  | .switching => dcf.lastSwitchingStart + dcf.lastSwitchingDuration

theorem busyEnd_add_sifs_le (heifs : 0 ≤ dcf.eifsNoDifs) (kind : Kind) :
    dcf.busyEnd kind + dcf.sifs ≤ dcf.getAccessGrantStart := by
  cases kind with
  | rx =>
    refine le_trans ?_ ((le_max_left _ _).trans ((le_max_left _ _).trans (le_max_left _ _)))
    cases hrx : dcf.rxing <;> cases hok : dcf.lastRxReceivedOk <;> simp [busyEnd, hrx, heifs]
  | ccaBusy => exact (le_max_right _ _).trans ((le_max_left _ _).trans (le_max_left _ _))
  | tx => exact (le_max_left _ _).trans ((le_max_right _ _).trans (le_max_left _ _))
  | nav => exact (le_max_right _ _).trans ((le_max_right _ _).trans (le_max_left _ _))
  | ackTimeout => exact (le_max_left _ _).trans ((le_max_left _ _).trans (le_max_right _ _))
  | ctsTimeout => exact (le_max_right _ _).trans ((le_max_left _ _).trans (le_max_right _ _))
  | switching => exact (le_max_right _ _).trans (le_max_right _ _)

@[simp] theorem busyEnd_updateBackoff (now : ℤ) :
    (dcf.updateBackoff now).busyEnd = dcf.busyEnd := by
  funext kind
  cases kind <;> rfl

theorem doRestartAccessTimeoutIfNeeded_eq (now : ℤ) : ∃ accessTimeout,
    dcf.doRestartAccessTimeoutIfNeeded now = { dcf with accessTimeout := accessTimeout } := by
  simp only [doRestartAccessTimeoutIfNeeded]
  split
  · exact ⟨dcf.accessTimeout, rfl⟩
  · split
    · split
      · exact ⟨_, rfl⟩
      · exact ⟨dcf.accessTimeout, rfl⟩
    · exact ⟨_, rfl⟩

@[simp] theorem busyEnd_doRestartAccessTimeoutIfNeeded (now : ℤ) :
    (dcf.doRestartAccessTimeoutIfNeeded now).busyEnd = dcf.busyEnd := by
  obtain ⟨accessTimeout, h⟩ := dcf.doRestartAccessTimeoutIfNeeded_eq now
  rw [h]
  funext kind
  cases kind <;> rfl

/-- The first state that is ready is granted access. -/
theorem doGrantAccess_cases (now : ℤ) :
    dcf.doGrantAccess now = (dcf, none) ∨
    ∃ i state, dcf.states[i]? = some state ∧ dcf.ready now state ∧
      (dcf.doGrantAccess now).1 =
        { dcf with states := dcf.states.set i { state with accessRequested := false } } ∧
      (dcf.doGrantAccess now).2.map (·.1) = some i := by
  cases h : dcf.states.findIdx? (dcf.ready now) with
  | none => exact .inl (by simp only [doGrantAccess, h])
  | some i =>
    obtain ⟨hi, hready, -⟩ := List.findIdx?_eq_some_iff_getElem.mp h
    have hget := List.getElem?_eq_getElem hi
    have hset : dcf.states.modify i (fun state => { state with accessRequested := false }) =
        dcf.states.set i { dcf.states[i] with accessRequested := false } := by
      apply List.ext_getElem?
      intro j
      by_cases hj : i = j
      · subst hj
        simp [hi]
      · simp [hj]
    exact .inr ⟨i, dcf.states[i], hget, hready, by simp only [doGrantAccess, h, hset],
      by simp only [doGrantAccess, h, Option.map_some]⟩

@[simp] theorem busyEnd_doGrantAccess (now : ℤ) :
    (dcf.doGrantAccess now).1.busyEnd = dcf.busyEnd := by
  rcases dcf.doGrantAccess_cases now with h | ⟨i, state, -, -, h, -⟩
  · rw [h]
  · rw [h]
    funext kind
    cases kind <;> rfl

end DcfManager

/-- The backoff that a state last started, and whether a channel switch has reset it. -/
structure Backoff where
  slots : ℕ
  since : ℤ
  isReset : Bool
  deriving DecidableEq, Repr

structure DcfRun where
  now : ℤ
  dcf : DcfManager
  periods : List (Period Kind ℤ)
  backoffs : ℕ → Backoff
  granted : Option ℕ

namespace DcfRun

variable (run : DcfRun)

/-- States by AIFSN and contention window -/
def start (states : List (ℕ × ℕ × ℕ)) (slotTimeUs sifs eifsNoDifs : ℕ) : DcfRun where
  now := 0
  dcf := .create (states.map fun s => .create s.1 s.2.1 s.2.2) slotTimeUs sifs eifsNoDifs
  periods := []
  backoffs := fun _ => ⟨0, 0, false⟩
  granted := none

def backoffsAfter (now : ℤ) : Call → ℕ → Backoff
  | .startBackoff i nSlots => Function.update run.backoffs i ⟨nSlots, now, false⟩
  | .requestAccess i (some nSlots) =>
    let dcf := run.dcf.updateBackoff now
    if dcf.states[i]?.elim false (dcf.collides now) then
      Function.update run.backoffs i ⟨nSlots, now, false⟩
    else run.backoffs
  | .notifySwitchingStart _ => fun i =>
    if run.dcf.states[i]?.elim false (0 < ·.backoffSlots) then
      { run.backoffs i with isReset := true }
    else run.backoffs i
  | _ => run.backoffs

/-- A call some time after the last one. -/
def step (run : DcfRun) (call : ℕ × Call) : Option DcfRun :=
  let now := run.now + call.1
  (call.2.exec run.dcf now).map fun r =>
    { now
      dcf := r.1
      periods := (call.2.announced now).toList ++ cut call.2.ended now run.periods
      backoffs := run.backoffsAfter now call.2
      granted := r.2.map (·.1) }

/-- No notification ends an announced period of its kind early, but for the NAV, where the later end
counts. -/
def EndsNoneEarly (call : ℕ × Call) : Prop :=
  match call.2.announced (run.now + call.1) with
  | none => True
  | some q => q.kind = .nav ∨
    ∀ p ∈ run.periods, p.kind = q.kind → p.kind ∈ call.2.ended ∨ p.stop ≤ q.stop

/-- The microseconds of a backoff fit in a `uint32_t`. -/
def BackoffFits (call : ℕ × Call) : Prop :=
  match call.2 with
  | .requestAccess _ (some nSlots) => nSlots * run.dcf.slotTimeUs < 4294967296
  | .startBackoff _ nSlots => nSlots * run.dcf.slotTimeUs < 4294967296
  | _ => True

/-- No period overlaps the SIFS and AIFSN slots before now. -/
def IdleFor (state : DcfState) : Prop :=
  ∀ p ∈ run.periods, p.stop + run.dcf.timing.aifs state ≤ run.now ∨ run.now ≤ p.start

/-- The slots of the backoff have passed, each clear after SIFS and AIFSN idle slots. -/
def WholeBackoff (state : DcfState) (backoff : Backoff) : Prop :=
  ∃ slots, backoff.slots ≤ slots.length ∧
    ClearSlots (run.dcf.timing.aifs state) run.dcf.timing.slot run.periods backoff.since run.now slots

/-- Access is granted on an idle medium after the whole backoff, if the backoff `counts`. -/
structure GrantsIf (counts : Backoff → Prop) (run : DcfRun) : Prop where
  idle : ∀ i ∈ run.granted, ∀ state ∈ run.dcf.states[i]?, run.IdleFor state
  whole : ∀ i ∈ run.granted, ∀ state ∈ run.dcf.states[i]?, counts (run.backoffs i) →
    run.WholeBackoff state (run.backoffs i)
  noWrap : ∀ i, ∀ state ∈ run.dcf.states[i]?, state.backoffSlots ≤ (run.backoffs i).slots

end DcfRun

theorem uint32_eq {n : ℕ} (hn : n < 4294967296) : uint32 n = n := Nat.mod_eq_of_lt hn

/-- The state has counted all but its backoff slots of the backoff that it started. -/
structure Tracks (timing : Timing) (periods : List (Period Kind ℤ)) (now : ℤ) (state : DcfState)
    (backoff : Backoff) : Prop where
  since_le : backoff.since ≤ state.backoffStart
  start_le : state.backoffStart ≤ now
  slots_le : state.backoffSlots ≤ backoff.slots
  fits : state.backoffSlots * timing.slotTimeUs < 4294967296
  counted : backoff.isReset = false → ∃ slots, slots.length + state.backoffSlots = backoff.slots ∧
    ClearSlots (timing.aifs state) timing.slot periods backoff.since state.backoffStart slots

namespace Tracks

variable {dcf : DcfManager} {timing : Timing} {periods periods' : List (Period Kind ℤ)} {now : ℤ}
  {state : DcfState} {backoff : Backoff}

theorem of_later (h : Tracks timing periods now state backoff) {now' : ℤ} (hnow : now ≤ now')
    (hlater : ∀ p ∈ periods', now ≤ p.start ∨
      ∃ q ∈ periods, q.start = p.start ∧ p.stop ≤ q.stop) :
    Tracks timing periods' now' state backoff := by
  refine ⟨h.since_le, h.start_le.trans hnow, h.slots_le, h.fits, fun hreset => ?_⟩
  obtain ⟨slots, hlen, hclear⟩ := h.counted hreset
  exact ⟨slots, hlen, hclear.of_later fun p hp => (hlater p hp).imp_left h.start_le.trans⟩

/-- A backoff that starts now has counted no slot. -/
theorem started (nSlots : ℕ) (hfits : nSlots * timing.slotTimeUs < 4294967296)
    (hslots : state.backoffSlots = nSlots) (hstart : state.backoffStart = now) :
    Tracks timing periods now state ⟨nSlots, now, false⟩ where
  since_le := hstart.ge
  start_le := hstart.le
  slots_le := hslots.le
  fits := by rw [hslots]; exact hfits
  counted := fun _ => ⟨[], by simp [hslots], .nil⟩

/-- Slots are counted only after SIFS and AIFSN slots. -/
theorem stop_add_aifs_le (haifsn : state.aifsn * dcf.slotTimeUs < 4294967296)
    (hends : ∀ p ∈ periods, p.stop + dcf.sifs ≤ dcf.getAccessGrantStart) :
    ∀ p ∈ periods, p.stop + dcf.timing.aifs state ≤ dcf.getBackoffStartFor state := by
  intro p hp
  have hstart : dcf.getAccessGrantStart + microSeconds (uint32 (state.aifsn * dcf.slotTimeUs)) ≤
      dcf.getBackoffStartFor state := le_max_right _ _
  rw [uint32_eq haifsn] at hstart
  have hp := hends p hp
  simp only [Timing.aifs, Timing.slot, DcfManager.timing, microSeconds] at hstart ⊢
  push_cast at hstart
  linarith

/-- The slots that are counted have passed. -/
theorem elapsedSlots_spec (hb : dcf.getBackoffStartFor state ≤ now) :
    dcf.elapsedSlots now state ≤ state.backoffSlots ∧
      dcf.getBackoffStartFor state + dcf.elapsedSlots now state * dcf.timing.slot ≤ now := by
  simp only [DcfManager.elapsedSlots, if_pos hb]
  refine ⟨Nat.min_le_right _ _, ?_⟩
  set t := (now - dcf.getBackoffStartFor state) / 1000 with ht
  have ht0 : 0 ≤ t := Int.ediv_nonneg (by linarith) (by norm_num)
  have hle : min (uint32 t.toNat / dcf.slotTimeUs) state.backoffSlots * dcf.slotTimeUs ≤ t.toNat :=
    calc min (uint32 t.toNat / dcf.slotTimeUs) state.backoffSlots * dcf.slotTimeUs
        ≤ uint32 t.toNat / dcf.slotTimeUs * dcf.slotTimeUs :=
          Nat.mul_le_mul_right _ (Nat.min_le_left _ _)
      _ ≤ uint32 t.toNat := Nat.div_mul_le_self _ _
      _ ≤ t.toNat := Nat.mod_le _ _
  have hle' : ((min (uint32 t.toNat / dcf.slotTimeUs) state.backoffSlots : ℕ) : ℤ) *
      dcf.slotTimeUs ≤ t := by
    have := Int.ofNat_le.mpr hle
    rw [Int.toNat_of_nonneg ht0] at this
    exact_mod_cast this
  have hmul : 1000 * t ≤ now - dcf.getBackoffStartFor state := Int.mul_ediv_self_le (by norm_num)
  simp only [DcfManager.timing, Timing.slot]
  nlinarith only [hle', hmul]

theorem updateBackoffOf (h : Tracks dcf.timing periods now state backoff)
    (hslot : 0 < dcf.slotTimeUs) (haifsn : state.aifsn * dcf.slotTimeUs < 4294967296)
    (hends : ∀ p ∈ periods, p.stop + dcf.sifs ≤ dcf.getAccessGrantStart) :
    Tracks dcf.timing periods now (dcf.updateBackoffOf now state) backoff := by
  by_cases hb : dcf.getBackoffStartFor state ≤ now
  · obtain ⟨hn, hpassed⟩ := elapsedSlots_spec hb
    simp only [DcfManager.updateBackoffOf, if_pos hb]
    generalize dcf.elapsedSlots now state = n at hn hpassed ⊢
    have hfits : n * dcf.slotTimeUs < 4294967296 :=
      (Nat.mul_le_mul_right _ hn).trans_lt h.fits
    have hsmall : state.backoffSlots < 4294967296 :=
      (Nat.le_mul_of_pos_right _ hslot).trans_lt h.fits
    have hslots : uint32 (state.backoffSlots + 4294967296 - n) = state.backoffSlots - n := by
      rw [uint32, Nat.sub_add_comm hn, Nat.add_mod_right]
      exact Nat.mod_eq_of_lt (by omega)
    have hstart : dcf.getBackoffStartFor state + microSeconds (uint32 (n * dcf.slotTimeUs)) =
        dcf.getBackoffStartFor state + n * dcf.timing.slot := by
      rw [uint32_eq hfits, microSeconds, Timing.slot, DcfManager.timing]
      push_cast
      ring
    have hfrom : state.backoffStart ≤ dcf.getBackoffStartFor state := le_max_left _ _
    have hpos : 0 ≤ dcf.timing.slot := by
      simp only [Timing.slot]
      positivity
    rw [DcfState.updateBackoffSlotsNow, hslots, hstart]
    refine ⟨?_, hpassed, (Nat.sub_le _ _).trans h.slots_le,
      (Nat.mul_le_mul_right _ (Nat.sub_le _ _)).trans_lt h.fits, fun hreset => ?_⟩
    · exact (h.since_le.trans hfrom).trans (le_add_of_nonneg_right (by positivity))
    · obtain ⟨slots, hlen, hclear⟩ := h.counted hreset
      refine ⟨_, ?_, hclear.append_range hfrom h.since_le hpos
        (stop_add_aifs_le haifsn hends) n⟩
      simp only [List.length_append, List.length_map, List.length_range]
      omega
  · rw [DcfManager.updateBackoffOf, if_neg hb]
    exact h

/-- A state that is ready has seen all slots of its backoff pass. -/
theorem whole_of_ready (h : Tracks dcf.timing periods now state backoff)
    (haifsn : state.aifsn * dcf.slotTimeUs < 4294967296)
    (hends : ∀ p ∈ periods, p.stop + dcf.sifs ≤ dcf.getAccessGrantStart)
    (hready : dcf.ready now state) (hreset : backoff.isReset = false) :
    ∃ slots, backoff.slots ≤ slots.length ∧
      ClearSlots (dcf.timing.aifs state) dcf.timing.slot periods backoff.since now slots := by
  have hend : dcf.getBackoffStartFor state +
      microSeconds (uint32 (state.backoffSlots * dcf.slotTimeUs)) ≤ now := by
    have := hready
    simp only [DcfManager.ready, Bool.and_eq_true, decide_eq_true_eq] at this
    exact this.2
  have hend : dcf.getBackoffStartFor state + state.backoffSlots * dcf.timing.slot ≤ now := by
    have hfits : state.backoffSlots * dcf.slotTimeUs < 4294967296 := h.fits
    rw [uint32_eq hfits, microSeconds] at hend
    simp only [Timing.slot, DcfManager.timing]
    push_cast at hend
    linarith
  obtain ⟨slots, hlen, hclear⟩ := h.counted hreset
  have hpos : 0 ≤ dcf.timing.slot := by
    simp only [Timing.slot]
    positivity
  refine ⟨_, ?_, (hclear.append_range (le_max_left _ _) h.since_le hpos
    (stop_add_aifs_le haifsn hends) state.backoffSlots).mono hend⟩
  simp only [List.length_append, List.length_map, List.length_range]
  omega

end Tracks

namespace DcfManager

variable (dcf : DcfManager) (now : ℤ)

def aifsns : List ℕ := dcf.states.map (·.aifsn)

@[simp] theorem timing_updateBackoff : (dcf.updateBackoff now).timing = dcf.timing := rfl

@[simp] theorem timing_cutRx : (dcf.cutRx now).timing = dcf.timing := by
  simp only [cutRx]
  split <;> rfl

@[simp] theorem states_cutRx : (dcf.cutRx now).states = dcf.states := by
  simp only [cutRx]
  split <;> rfl

@[simp] theorem lastNavStart_cutRx : (dcf.cutRx now).lastNavStart = dcf.lastNavStart := by
  simp only [cutRx]
  split <;> rfl

@[simp] theorem lastBusyStart_cutRx : (dcf.cutRx now).lastBusyStart = dcf.lastBusyStart := by
  simp only [cutRx]
  split <;> rfl

@[simp] theorem timing_doRestartAccessTimeoutIfNeeded :
    (dcf.doRestartAccessTimeoutIfNeeded now).timing = dcf.timing := by
  obtain ⟨accessTimeout, h⟩ := dcf.doRestartAccessTimeoutIfNeeded_eq now
  rw [h]
  rfl

@[simp] theorem states_doRestartAccessTimeoutIfNeeded :
    (dcf.doRestartAccessTimeoutIfNeeded now).states = dcf.states := by
  obtain ⟨accessTimeout, h⟩ := dcf.doRestartAccessTimeoutIfNeeded_eq now
  rw [h]

@[simp] theorem timing_doGrantAccess : (dcf.doGrantAccess now).1.timing = dcf.timing := by
  rcases dcf.doGrantAccess_cases now with h | ⟨i, state, -, -, h, -⟩
  · rw [h]
  · rw [h]
    rfl

theorem aifsn_updateBackoffOf (state : DcfState) :
    (dcf.updateBackoffOf now state).aifsn = state.aifsn := by
  by_cases hb : dcf.getBackoffStartFor state ≤ now
  · simp only [updateBackoffOf, if_pos hb, DcfState.updateBackoffSlotsNow]
  · simp only [updateBackoffOf, if_neg hb]

@[simp] theorem aifsns_updateBackoff : (dcf.updateBackoff now).aifsns = dcf.aifsns := by
  simp only [aifsns, updateBackoff, List.map_map]
  congr 1
  funext state
  exact dcf.aifsn_updateBackoffOf now state

theorem map_set_aifsn {states : List DcfState} {i : ℕ} {state state' : DcfState}
    (hi : states[i]? = some state) (haifsn : state'.aifsn = state.aifsn) :
    (states.set i state').map (·.aifsn) = states.map (·.aifsn) := by
  apply List.ext_getElem?
  intro j
  by_cases hj : i = j
  · subst hj
    have hlt : i < states.length := (List.getElem?_eq_some_iff.mp hi).1
    simp [hlt, haifsn, (List.getElem?_eq_some_iff.mp hi).2]
  · simp [hj]

@[simp] theorem aifsns_doGrantAccess : (dcf.doGrantAccess now).1.aifsns = dcf.aifsns := by
  rcases dcf.doGrantAccess_cases now with h | ⟨i, state, hi, -, h, -⟩
  · rw [h]
  · rw [h]
    exact map_set_aifsn hi rfl

@[simp] theorem aifsns_doRestartAccessTimeoutIfNeeded :
    (dcf.doRestartAccessTimeoutIfNeeded now).aifsns = dcf.aifsns := by
  simp only [aifsns, states_doRestartAccessTimeoutIfNeeded]

theorem requested_cases {backoff : Option ℕ} {state state' : DcfState}
    (h : dcf.requested now backoff state = some state') :
    state' = { state with accessRequested := true } ∧
        (∀ nSlots ∈ backoff, dcf.collides now state = false) ∨
      ∃ nSlots, backoff = some nSlots ∧ dcf.collides now state = true ∧
        state' = { state with
          backoffSlots := nSlots, backoffStart := now, accessRequested := true } := by
  simp only [requested] at h
  split at h
  · exact absurd h nofun
  · cases backoff with
    | none => exact .inl ⟨(Option.some.inj h).symm, nofun⟩
    | some nSlots =>
      by_cases hc : dcf.collides now state = true
      · have hzero : state.backoffSlots = 0 := by
          simp only [collides, Bool.and_eq_true, decide_eq_true_eq] at hc
          exact hc.1
        simp only [collides, DcfState.startBackoffNow, hzero] at h hc
        simp only [decide_true, Bool.true_and] at h hc
        simp only [hc, if_true] at h
        refine .inr ⟨nSlots, rfl, ?_, (Option.some.inj h).symm⟩
        simp [collides, hzero, hc]
      · refine .inl ⟨?_, fun n hn => Bool.not_eq_true _ ▸ hc⟩
        simp only [collides] at h hc
        simp only [hc] at h
        exact (Option.some.inj h).symm

theorem requestAccess_cases {i : ℕ} {backoff : Option ℕ} {r : DcfManager × Option (ℕ × List ℕ)}
    (h : dcf.requestAccess now i backoff = some r) :
    ∃ state state' dcf', (dcf.updateBackoff now).states[i]? = some state ∧
      (dcf.updateBackoff now).requested now backoff state = some state' ∧
      dcf' = { dcf.updateBackoff now with
        states := (dcf.updateBackoff now).states.set i state' } ∧
      r.1 = (dcf'.doGrantAccess now).1.doRestartAccessTimeoutIfNeeded now ∧
      r.2 = (dcf'.doGrantAccess now).2 := by
  simp only [requestAccess, Option.bind_eq_bind, Option.bind_eq_some_iff, Option.pure_def,
    Option.some.injEq] at h
  obtain ⟨state, hi, state', hreq, rfl⟩ := h
  exact ⟨state, state', _, hi, hreq, rfl, rfl, rfl⟩

theorem notifyTxStartNow_cases {duration : ℤ} {dcf' : DcfManager}
    (h : dcf.notifyTxStartNow now duration = some dcf') :
    dcf' = { (dcf.cutRx now).updateBackoff now with
      lastTxStart := now, lastTxDuration := duration } := by
  simp only [notifyTxStartNow] at h
  split at h
  · exact absurd h nofun
  · exact (Option.some.inj h).symm

theorem notifySwitchingStartNow_cases {duration : ℤ} {dcf' : DcfManager}
    (h : dcf.notifySwitchingStartNow now duration = some dcf') :
    dcf' = dcf.startSwitching now duration ∧
      dcf.lastSwitchingStart + dcf.lastSwitchingDuration ≤ now := by
  simp only [notifySwitchingStartNow] at h
  split at h
  case isTrue hlast => exact ⟨(Option.some.inj h).symm, hlast.2⟩
  case isFalse => exact absurd h nofun

theorem notifyNavStartNow_cases {duration : ℤ} {dcf' : DcfManager}
    (h : dcf.notifyNavStartNow now duration = some dcf') :
    dcf' = dcf.updateBackoff now ∧ now + duration ≤ dcf.lastNavEnd ∨
      dcf' = { dcf.updateBackoff now with lastNavStart := now, lastNavDuration := duration } ∧
        dcf.lastNavEnd < now + duration := by
  simp only [notifyNavStartNow] at h
  split at h
  · split at h
    case isTrue hlater => exact .inr ⟨(Option.some.inj h).symm, hlater⟩
    case isFalse hlater => exact .inl ⟨(Option.some.inj h).symm, not_lt.mp hlater⟩
  · exact absurd h nofun

theorem notifyAckTimeoutStartNow_cases {duration : ℤ} {dcf' : DcfManager}
    (h : dcf.notifyAckTimeoutStartNow now duration = some dcf') :
    dcf' = { dcf with lastAckTimeoutEnd := now + duration } ∧ dcf.lastAckTimeoutEnd < now := by
  simp only [notifyAckTimeoutStartNow] at h
  split at h
  case isTrue hlast => exact ⟨(Option.some.inj h).symm, hlast⟩
  case isFalse => exact absurd h nofun

theorem startBackoffNow_cases {i nSlots : ℕ} {dcf' : DcfManager}
    (h : dcf.startBackoffNow now i nSlots = some dcf') :
    ∃ state, dcf.states[i]? = some state ∧ dcf' = { dcf with
      states := dcf.states.set i { state with backoffSlots := nSlots, backoffStart := now } } := by
  simp only [startBackoffNow, Option.bind_eq_bind, Option.bind_eq_some_iff, Option.pure_def,
    Option.some.injEq] at h
  obtain ⟨state, hi, state', hstart, rfl⟩ := h
  refine ⟨state, hi, ?_⟩
  simp only [DcfState.startBackoffNow] at hstart
  split at hstart
  · rw [← Option.some.inj hstart]
  · exact absurd hstart nofun

/-- What the setters have set stays as it is. -/
def SameSetting (dcf dcf' : DcfManager) : Prop :=
  dcf'.timing = dcf.timing ∧ dcf'.aifsns = dcf.aifsns

namespace SameSetting

theorem requestAccess {dcf : DcfManager} {now : ℤ} {i : ℕ} {backoff : Option ℕ}
    {r : DcfManager × Option (ℕ × List ℕ)} (h : dcf.requestAccess now i backoff = some r) :
    SameSetting dcf r.1 := by
  obtain ⟨state, state', dcf', hi, hreq, rfl, hr, -⟩ := dcf.requestAccess_cases now h
  have haifsn : state'.aifsn = state.aifsn := by
    rcases DcfManager.requested_cases _ now hreq with ⟨h, -⟩ | ⟨n, -, -, h⟩ <;> rw [h]
  rw [SameSetting, hr]
  constructor
  · rw [timing_doRestartAccessTimeoutIfNeeded, timing_doGrantAccess]
    rfl
  · rw [aifsns_doRestartAccessTimeoutIfNeeded, aifsns_doGrantAccess, aifsns,
      map_set_aifsn hi haifsn]
    exact dcf.aifsns_updateBackoff now

theorem startBackoffNow {dcf dcf' : DcfManager} {now : ℤ} {i nSlots : ℕ}
    (h : dcf.startBackoffNow now i nSlots = some dcf') : SameSetting dcf dcf' := by
  obtain ⟨state, hi, rfl⟩ := dcf.startBackoffNow_cases now h
  exact ⟨rfl, map_set_aifsn hi rfl⟩

end SameSetting

end DcfManager

namespace Call

variable {dcf : DcfManager} {now : ℤ} {call : Call} {r : DcfManager × Option (ℕ × List ℕ)}

theorem sameSetting_of_exec (h : call.exec dcf now = some r) : dcf.SameSetting r.1 := by
  cases call with
  | requestAccess i backoff => exact .requestAccess h
  | startBackoff i nSlots =>
    obtain ⟨dcf', h', rfl⟩ := Option.map_eq_some_iff.mp h
    exact .startBackoffNow h'
  | accessTimeout =>
    obtain rfl := Option.some.inj h
    exact ⟨(DcfManager.timing_doRestartAccessTimeoutIfNeeded _ _).trans
      (DcfManager.timing_doGrantAccess _ _),
      (DcfManager.aifsns_doRestartAccessTimeoutIfNeeded _ _).trans
        ((DcfManager.aifsns_doGrantAccess _ _).trans (DcfManager.aifsns_updateBackoff _ _))⟩
  | notifyRxStart duration =>
    obtain rfl := Option.some.inj h
    exact ⟨rfl, dcf.aifsns_updateBackoff now⟩
  | notifyRxEnd receivedOk =>
    obtain rfl := Option.some.inj h
    exact ⟨rfl, rfl⟩
  | notifyTxStart duration =>
    obtain ⟨dcf', h', rfl⟩ := Option.map_eq_some_iff.mp h
    obtain rfl := dcf.notifyTxStartNow_cases now h'
    exact ⟨dcf.timing_cutRx now, ((dcf.cutRx now).aifsns_updateBackoff now).trans
      (congrArg (List.map _) (dcf.states_cutRx now))⟩
  | notifyMaybeCcaBusyStart duration =>
    obtain rfl := Option.some.inj h
    exact ⟨rfl, dcf.aifsns_updateBackoff now⟩
  | notifySwitchingStart duration =>
    obtain ⟨dcf', h', rfl⟩ := Option.map_eq_some_iff.mp h
    obtain ⟨rfl, -⟩ := dcf.notifySwitchingStartNow_cases now h'
    refine ⟨dcf.timing_cutRx now, ?_⟩
    simp only [DcfManager.startSwitching, DcfManager.aifsns, List.map_map]
    congr 1
    funext state
    simp only [Function.comp, DcfManager.resetBackoff, DcfState.resetCw,
      DcfState.updateBackoffSlotsNow]
    split
    · rfl
    · rfl
  | notifyNavReset duration =>
    obtain rfl := Option.some.inj h
    exact ⟨(DcfManager.timing_doRestartAccessTimeoutIfNeeded _ _).trans rfl,
      (DcfManager.aifsns_doRestartAccessTimeoutIfNeeded _ _).trans
        ((DcfManager.aifsns_updateBackoff _ _).trans (dcf.aifsns_updateBackoff now))⟩
  | notifyNavStart duration =>
    obtain ⟨dcf', h', rfl⟩ := Option.map_eq_some_iff.mp h
    rcases dcf.notifyNavStartNow_cases now h' with ⟨rfl, -⟩ | ⟨rfl, -⟩
    · exact ⟨rfl, dcf.aifsns_updateBackoff now⟩
    · exact ⟨rfl, dcf.aifsns_updateBackoff now⟩
  | notifyAckTimeoutStart duration =>
    obtain ⟨dcf', h', rfl⟩ := Option.map_eq_some_iff.mp h
    obtain ⟨rfl, -⟩ := dcf.notifyAckTimeoutStartNow_cases now h'
    exact ⟨rfl, rfl⟩
  | notifyAckTimeoutReset =>
    obtain rfl := Option.some.inj h
    exact ⟨(DcfManager.timing_doRestartAccessTimeoutIfNeeded _ _).trans rfl,
      (DcfManager.aifsns_doRestartAccessTimeoutIfNeeded _ _).trans rfl⟩
  | notifyCtsTimeoutStart duration =>
    obtain rfl := Option.some.inj h
    exact ⟨rfl, rfl⟩
  | notifyCtsTimeoutReset =>
    obtain rfl := Option.some.inj h
    exact ⟨(DcfManager.timing_doRestartAccessTimeoutIfNeeded _ _).trans rfl,
      (DcfManager.aifsns_doRestartAccessTimeoutIfNeeded _ _).trans rfl⟩

theorem le_busyEnd_cutRx {kind : Kind} {x : ℤ} (hx : x ≤ dcf.busyEnd kind)
    (hnow : kind = .rx → x ≤ now) : x ≤ (dcf.cutRx now).busyEnd kind := by
  by_cases hrxing : dcf.rxing = true
  · rw [DcfManager.cutRx, if_pos hrxing]
    cases kind with
    | rx => exact hnow rfl
    | _ => exact hx
  · rw [DcfManager.cutRx, if_neg hrxing]
    exact hx

theorem le_add_cut {x start duration : ℤ} (hx : x ≤ start + duration) (hnow : x ≤ now) :
    x ≤ start + if start + duration > now then now - start else duration := by
  split
  · rw [add_sub_cancel]
    exact hnow
  · exact hx

theorem le_cut {x stop : ℤ} (hx : x ≤ stop) (hnow : x ≤ now) :
    x ≤ if stop > now then now else stop := by
  split
  · exact hnow
  · exact hx

theorem announced_le_busyEnd (h : call.exec dcf now = some r) :
    ∀ q ∈ call.announced now, q.stop ≤ r.1.busyEnd q.kind := by
  intro q hq
  cases call with
  | requestAccess i backoff => exact absurd hq nofun
  | startBackoff i nSlots => exact absurd hq nofun
  | accessTimeout => exact absurd hq nofun
  | notifyAckTimeoutReset => exact absurd hq nofun
  | notifyCtsTimeoutReset => exact absurd hq nofun
  | notifyTxStart duration =>
    obtain ⟨dcf', h', rfl⟩ := Option.map_eq_some_iff.mp h
    obtain rfl := dcf.notifyTxStartNow_cases now h'
    obtain rfl := Option.some.inj hq
    exact le_rfl
  | notifySwitchingStart duration =>
    obtain ⟨dcf', h', rfl⟩ := Option.map_eq_some_iff.mp h
    obtain ⟨rfl, -⟩ := dcf.notifySwitchingStartNow_cases now h'
    obtain rfl := Option.some.inj hq
    exact le_rfl
  | notifyNavReset duration =>
    obtain rfl := Option.some.inj h
    obtain rfl := Option.some.inj hq
    rw [DcfManager.notifyNavResetNow, DcfManager.busyEnd_doRestartAccessTimeoutIfNeeded,
      DcfManager.busyEnd_updateBackoff]
    exact le_rfl
  | notifyNavStart duration =>
    obtain ⟨dcf', h', rfl⟩ := Option.map_eq_some_iff.mp h
    obtain rfl := Option.some.inj hq
    rcases dcf.notifyNavStartNow_cases now h' with ⟨rfl, hle⟩ | ⟨rfl, -⟩
    · exact hle
    · exact le_rfl
  | notifyAckTimeoutStart duration =>
    obtain ⟨dcf', h', rfl⟩ := Option.map_eq_some_iff.mp h
    obtain ⟨rfl, -⟩ := dcf.notifyAckTimeoutStartNow_cases now h'
    obtain rfl := Option.some.inj hq
    exact le_rfl
  | _ =>
    obtain rfl := Option.some.inj h
    obtain rfl := Option.some.inj hq
    exact le_rfl

/-- A call does not end a period before now, nor one of the kind that it announces before that
one ends. -/
theorem le_busyEnd (h : call.exec dcf now = some r) {kind : Kind} {x : ℤ}
    (hx : x ≤ dcf.busyEnd kind) (hended : kind ∈ call.ended → x ≤ now)
    (hearly : ∀ q ∈ call.announced now, q.kind = kind → q.kind = .nav ∨ kind ∈ call.ended ∨
      x ≤ q.stop) : x ≤ r.1.busyEnd kind := by
  have hstop : kind ≠ .nav → ∀ q ∈ call.announced now, q.kind = kind → now ≤ q.stop →
      x ≤ q.stop := by
    intro hnav q hq hkind hnow
    rcases hearly q hq hkind with h | h | h
    · exact absurd (hkind ▸ h) hnav
    · exact (hended h).trans hnow
    · exact h
  cases call with
  | requestAccess i backoff =>
    obtain ⟨state, state', dcf', -, -, rfl, hr, -⟩ := dcf.requestAccess_cases now h
    rw [hr, DcfManager.busyEnd_doRestartAccessTimeoutIfNeeded, DcfManager.busyEnd_doGrantAccess]
    cases kind <;> exact hx
  | startBackoff i nSlots =>
    obtain ⟨dcf', h', rfl⟩ := Option.map_eq_some_iff.mp h
    obtain ⟨state, -, rfl⟩ := dcf.startBackoffNow_cases now h'
    cases kind <;> exact hx
  | accessTimeout =>
    obtain rfl := Option.some.inj h
    rw [DcfManager.accessTimedOut, DcfManager.busyEnd_doRestartAccessTimeoutIfNeeded,
      DcfManager.busyEnd_doGrantAccess]
    cases kind <;> exact hx
  | notifyAckTimeoutReset =>
    obtain rfl := Option.some.inj h
    rw [DcfManager.notifyAckTimeoutResetNow, DcfManager.busyEnd_doRestartAccessTimeoutIfNeeded]
    cases kind with
    | ackTimeout => exact hended (by decide)
    | _ => exact hx
  | notifyCtsTimeoutReset =>
    obtain rfl := Option.some.inj h
    rw [DcfManager.notifyCtsTimeoutResetNow, DcfManager.busyEnd_doRestartAccessTimeoutIfNeeded]
    cases kind with
    | ctsTimeout => exact hended (by decide)
    | _ => exact hx
  | notifyTxStart duration =>
    obtain ⟨dcf', h', rfl⟩ := Option.map_eq_some_iff.mp h
    obtain rfl := dcf.notifyTxStartNow_cases now h'
    have hcut := le_busyEnd_cutRx hx fun hkind => hended (by simp [hkind, ended])
    cases kind with
    | tx => exact hstop nofun _ rfl rfl (le_add_of_nonneg_right (Int.natCast_nonneg duration))
    | _ => exact hcut
  | notifySwitchingStart duration =>
    obtain ⟨dcf', h', rfl⟩ := Option.map_eq_some_iff.mp h
    obtain ⟨rfl, hlast⟩ := dcf.notifySwitchingStartNow_cases now h'
    cases kind with
    | rx => exact le_busyEnd_cutRx hx fun _ => hended (by simp [ended])
    | tx => exact le_busyEnd_cutRx hx nofun
    | ccaBusy =>
      have hcut := le_add_cut hx (hended (by simp [ended]))
      exact hcut.trans_eq (congrArg (· + _) (dcf.lastBusyStart_cutRx now).symm)
    | nav =>
      have hcut := le_add_cut hx (hended (by simp [ended]))
      exact hcut.trans_eq (congrArg (· + _) (dcf.lastNavStart_cutRx now).symm)
    | ackTimeout => exact le_cut hx (hended (by simp [ended]))
    | ctsTimeout => exact le_cut hx (hended (by simp [ended]))
    | switching =>
      exact (hx.trans hlast).trans (le_add_of_nonneg_right (Int.natCast_nonneg duration))
  | notifyNavReset duration =>
    obtain rfl := Option.some.inj h
    rw [DcfManager.notifyNavResetNow, DcfManager.busyEnd_doRestartAccessTimeoutIfNeeded,
      DcfManager.busyEnd_updateBackoff]
    cases kind with
    | nav => exact (hended (by simp [ended])).trans (le_add_of_nonneg_right (Int.natCast_nonneg duration))
    | _ => exact hx
  | notifyNavStart duration =>
    obtain ⟨dcf', h', rfl⟩ := Option.map_eq_some_iff.mp h
    rcases dcf.notifyNavStartNow_cases now h' with ⟨rfl, -⟩ | ⟨rfl, hlt⟩
    · cases kind <;> exact hx
    · cases kind with
      | nav => exact hx.trans hlt.le
      | _ => exact hx
  | notifyAckTimeoutStart duration =>
    obtain ⟨dcf', h', rfl⟩ := Option.map_eq_some_iff.mp h
    obtain ⟨rfl, hlt⟩ := dcf.notifyAckTimeoutStartNow_cases now h'
    cases kind with
    | ackTimeout =>
      exact (hx.trans hlt.le).trans (le_add_of_nonneg_right (Int.natCast_nonneg duration))
    | _ => exact hx
  | notifyRxStart duration =>
    obtain rfl := Option.some.inj h
    cases kind with
    | rx => exact hstop nofun _ rfl rfl (le_add_of_nonneg_right (Int.natCast_nonneg duration))
    | _ => exact hx
  | notifyRxEnd receivedOk =>
    obtain rfl := Option.some.inj h
    cases kind with
    | rx => exact hended (by simp [ended])
    | _ => exact hx
  | notifyMaybeCcaBusyStart duration =>
    obtain rfl := Option.some.inj h
    cases kind with
    | ccaBusy => exact hstop nofun _ rfl rfl (le_add_of_nonneg_right (Int.natCast_nonneg duration))
    | _ => exact hx
  | notifyCtsTimeoutStart duration =>
    obtain rfl := Option.some.inj h
    cases kind with
    | ctsTimeout =>
      exact hstop nofun _ rfl rfl (le_add_of_nonneg_right (Int.natCast_nonneg duration))
    | _ => exact hx

end Call

/-- The periods have ended where the manager takes their kinds to have, and no product of slots that
it computes for them wraps. -/
structure Sound (dcf : DcfManager) (periods : List (Period Kind ℤ)) : Prop where
  slot_pos : 0 < dcf.slotTimeUs
  eifs_nonneg : 0 ≤ dcf.eifsNoDifs
  aifsn_fits : ∀ aifsn ∈ dcf.aifsns, aifsn * dcf.slotTimeUs < 4294967296
  ends : ∀ p ∈ periods, p.stop ≤ dcf.busyEnd p.kind

namespace Sound

variable {dcf dcf' : DcfManager} {periods periods' : List (Period Kind ℤ)}

theorem stop_add_sifs_le (h : Sound dcf periods) :
    ∀ p ∈ periods, p.stop + dcf.sifs ≤ dcf.getAccessGrantStart := by
  intro p hp
  have hend := dcf.busyEnd_add_sifs_le h.eifs_nonneg p.kind
  have := h.ends p hp
  linarith

theorem fits_of_mem (h : Sound dcf periods) {i : ℕ} {state : DcfState}
    (hi : dcf.states[i]? = some state) : state.aifsn * dcf.slotTimeUs < 4294967296 :=
  h.aifsn_fits _ (List.mem_map.mpr ⟨state, List.mem_of_getElem? hi, rfl⟩)

theorem of_sameSetting (h : Sound dcf periods) (hsame : dcf.SameSetting dcf')
    (hends : ∀ p ∈ periods', p.stop ≤ dcf'.busyEnd p.kind) : Sound dcf' periods' := by
  obtain ⟨htiming, haifsns⟩ := hsame
  have hslot : dcf'.slotTimeUs = dcf.slotTimeUs := congrArg Timing.slotTimeUs htiming
  have heifs : dcf'.eifsNoDifs = dcf.eifsNoDifs := congrArg Timing.eifsNoDifs htiming
  exact ⟨hslot ▸ h.slot_pos, heifs ▸ h.eifs_nonneg, by rw [haifsns, hslot]; exact h.aifsn_fits,
    hends⟩

theorem updateBackoff (h : Sound dcf periods) (now : ℤ) : Sound (dcf.updateBackoff now) periods :=
  h.of_sameSetting ⟨rfl, dcf.aifsns_updateBackoff now⟩ (dcf.busyEnd_updateBackoff now ▸ h.ends)

end Sound

/-- Each state tracks the backoff that it last started. -/
def TrackAll (timing : Timing) (periods : List (Period Kind ℤ)) (now : ℤ) (states : List DcfState)
    (backoffs : ℕ → Backoff) : Prop :=
  ∀ i, ∀ state ∈ states[i]?, Tracks timing periods now state (backoffs i)

namespace TrackAll

variable {timing : Timing} {dcf : DcfManager} {periods periods' : List (Period Kind ℤ)} {now : ℤ}
  {states : List DcfState} {backoffs : ℕ → Backoff}

theorem of_later (h : TrackAll timing periods now states backoffs) {now' : ℤ} (hnow : now ≤ now')
    (hlater : ∀ p ∈ periods', now ≤ p.start ∨
      ∃ q ∈ periods, q.start = p.start ∧ p.stop ≤ q.stop) :
    TrackAll timing periods' now' states backoffs :=
  fun i state hi => (h i state hi).of_later hnow hlater

theorem updateBackoff (hs : Sound dcf periods)
    (h : TrackAll dcf.timing periods now dcf.states backoffs) :
    TrackAll dcf.timing periods now (dcf.updateBackoff now).states backoffs := by
  intro i state hi
  simp only [DcfManager.updateBackoff, List.getElem?_map, Option.mem_def,
    Option.map_eq_some_iff] at hi
  obtain ⟨state, hi, rfl⟩ := hi
  exact (h i state hi).updateBackoffOf hs.slot_pos (hs.fits_of_mem hi) hs.stop_add_sifs_le

theorem set (h : TrackAll timing periods now states backoffs) {i : ℕ} {state : DcfState}
    {backoffs' : ℕ → Backoff} (hi : Tracks timing periods now state (backoffs' i))
    (hother : ∀ j, j ≠ i → backoffs' j = backoffs j) :
    TrackAll timing periods now (states.set i state) backoffs' := by
  intro j state' hj
  by_cases hij : i = j
  · subst hij
    rw [Option.mem_def, List.getElem?_set] at hj
    simp only [if_true] at hj
    split at hj
    · exact Option.some.inj hj ▸ hi
    · exact absurd hj nofun
  · rw [Option.mem_def, List.getElem?_set_ne hij] at hj
    rw [hother j (Ne.symm hij)]
    exact h j state' hj

/-- A state that is granted access sees an idle medium and has waited for its whole backoff. -/
theorem doGrantAccess (hs : Sound dcf periods)
    (h : TrackAll dcf.timing periods now dcf.states backoffs) :
    TrackAll dcf.timing periods now (dcf.doGrantAccess now).1.states backoffs ∧
      ∀ i ∈ (dcf.doGrantAccess now).2.map (·.1), ∀ state ∈ (dcf.doGrantAccess now).1.states[i]?,
        (∀ p ∈ periods, p.stop + dcf.timing.aifs state ≤ now) ∧
        ((backoffs i).isReset = false → ∃ slots, (backoffs i).slots ≤ slots.length ∧
          ClearSlots (dcf.timing.aifs state) dcf.timing.slot periods (backoffs i).since now
            slots) := by
  rcases dcf.doGrantAccess_cases now with hg | ⟨i, state, hi, hready, hg, hgi⟩
  · rw [hg]
    exact ⟨h, nofun⟩
  · rw [hg, hgi]
    have htracks := h i state hi
    refine ⟨h.set ⟨htracks.since_le, htracks.start_le, htracks.slots_le, htracks.fits,
      htracks.counted⟩ fun _ _ => rfl, ?_⟩
    intro j hj state' hstate'
    obtain rfl := Option.some.inj hj
    obtain ⟨hlt, hstate⟩ := List.getElem?_eq_some_iff.mp hi
    obtain rfl : { state with accessRequested := false } = state' := by
      rw [Option.mem_def, List.getElem?_set_self hlt] at hstate'
      exact Option.some.inj hstate'
    refine ⟨fun p hp => ?_, fun hreset =>
      htracks.whole_of_ready (hs.fits_of_mem hi) hs.stop_add_sifs_le hready hreset⟩
    have hend : dcf.getBackoffEndFor state ≤ now := by
      simp only [DcfManager.ready, Bool.and_eq_true, decide_eq_true_eq] at hready
      exact hready.2
    have hstart : dcf.getBackoffStartFor state ≤ dcf.getBackoffEndFor state :=
      le_add_of_nonneg_right (mul_nonneg (by norm_num) (Int.natCast_nonneg _))
    exact (Tracks.stop_add_aifs_le (hs.fits_of_mem hi) hs.stop_add_sifs_le p hp).trans
      (hstart.trans hend)

end TrackAll

namespace DcfRun

variable {run run' : DcfRun} {call : ℕ × Call}

/-- Access is granted on an idle medium, after a backoff that no channel switch has reset. -/
def GrantsWell (run : DcfRun) : Prop :=
  ∀ i ∈ run.granted, ∀ state ∈ run.dcf.states[i]?, run.IdleFor state ∧
    ((run.backoffs i).isReset = false → run.WholeBackoff state (run.backoffs i))

structure Good (run : DcfRun) : Prop where
  sound : Sound run.dcf run.periods
  tracked : TrackAll run.dcf.timing run.periods run.now run.dcf.states run.backoffs

theorem good_start (states : List (ℕ × ℕ × ℕ)) {slotTimeUs : ℕ} (sifs eifsNoDifs : ℕ)
    (hslot : 0 < slotTimeUs) (haifsn : ∀ s ∈ states, s.1 * slotTimeUs < 4294967296) :
    Good (start states slotTimeUs sifs eifsNoDifs) where
  sound := by
    refine ⟨hslot, Int.natCast_nonneg _, fun aifsn h => ?_, by simp [start]⟩
    obtain ⟨state, hstate, rfl⟩ := List.mem_map.mp h
    obtain ⟨s, hs, rfl⟩ := List.mem_map.mp hstate
    exact haifsn s hs
  tracked := by
    intro i state hi
    obtain ⟨s, hs, rfl⟩ := List.mem_map.mp (List.mem_of_getElem? hi)
    exact .started 0 (by simp) rfl rfl

/-- The periods after a call are new ones, or earlier ones that may be cut. -/
theorem later_or_cut (now : ℤ) (call : Call) (periods : List (Period Kind ℤ)) :
    ∀ p ∈ (call.announced now).toList ++ cut call.ended now periods, now ≤ p.start ∨
      ∃ q ∈ periods, q.start = p.start ∧ p.stop ≤ q.stop := by
  intro p hp
  rcases List.mem_append.mp hp with hp | hp
  · have hp := Option.mem_toList.mp hp
    refine .inl (le_of_eq ?_)
    cases call <;> first | exact congrArg Period.start (Option.some.inj hp) | exact absurd hp nofun
  · obtain ⟨q, hq, -, hstart, hstop, -⟩ := exists_of_mem_cut hp
    exact .inr ⟨q, hq, hstart, hstop⟩

theorem sound_step (h : Sound run.dcf run.periods) (hearly : run.EndsNoneEarly call)
    (hstep : run.step call = some run') : Sound run'.dcf run'.periods := by
  obtain ⟨r, hexec, rfl⟩ := Option.map_eq_some_iff.mp hstep
  refine h.of_sameSetting (Call.sameSetting_of_exec hexec) fun p hp => ?_
  rcases List.mem_append.mp hp with hp | hp
  · exact Call.announced_le_busyEnd hexec p (Option.mem_toList.mp hp)
  · obtain ⟨q, hq, hkind, -, hstop, hended⟩ := exists_of_mem_cut hp
    refine Call.le_busyEnd hexec (hstop.trans (hkind ▸ h.ends q hq)) hended ?_
    intro a ha hakind
    rw [EndsNoneEarly, Option.mem_def.mp ha] at hearly
    rcases hearly with hnav | hearly
    · exact .inl hnav
    · rcases hearly q hq (hkind.trans hakind.symm) with hin | hle
      · exact .inr (.inl (hkind ▸ hin))
      · exact .inr (.inr (hstop.trans hle))

/-- A reset leaves no slots and says so. -/
theorem trackAll_resetBackoff {timing : Timing} {periods : List (Period Kind ℤ)} {now : ℤ}
    {states : List DcfState} {backoffs : ℕ → Backoff}
    (h : TrackAll timing periods now states backoffs) :
    TrackAll timing periods now (states.map (DcfManager.resetBackoff now)) fun i =>
      if states[i]?.elim false (0 < ·.backoffSlots) then { backoffs i with isReset := true }
      else backoffs i := by
  intro i state' hi
  simp only [List.getElem?_map, Option.mem_def, Option.map_eq_some_iff] at hi
  obtain ⟨state, hi, rfl⟩ := hi
  have htracks := h i state hi
  simp only [hi, Option.elim_some, decide_eq_true_eq]
  by_cases hpos : 0 < state.backoffSlots
  · have hzero : uint32 (state.backoffSlots + 4294967296 - state.backoffSlots) = 0 := by
      rw [Nat.add_sub_cancel_left, uint32, Nat.mod_self]
    simp only [DcfManager.resetBackoff, gt_iff_lt, if_pos hpos, DcfState.resetCw,
      DcfState.updateBackoffSlotsNow, hzero]
    exact ⟨htracks.since_le.trans htracks.start_le, le_rfl, Nat.zero_le _, by simp, nofun⟩
  · simp only [DcfManager.resetBackoff, gt_iff_lt, if_neg hpos, DcfState.resetCw]
    exact ⟨htracks.since_le, htracks.start_le, htracks.slots_le, htracks.fits, htracks.counted⟩

/-- A request starts the backoff of a collision and may grant access. -/
theorem tracked_requestAccess {dcf : DcfManager} {periods : List (Period Kind ℤ)} {now : ℤ}
    {backoffs backoffs' : ℕ → Backoff} {i : ℕ} {backoff : Option ℕ}
    {r : DcfManager × Option (ℕ × List ℕ)} (hs : Sound dcf periods)
    (h : TrackAll dcf.timing periods now dcf.states backoffs)
    (hreq : dcf.requestAccess now i backoff = some r)
    (hfits : ∀ nSlots ∈ backoff, nSlots * dcf.slotTimeUs < 4294967296)
    (hbackoffs : ∀ state ∈ (dcf.updateBackoff now).states[i]?, backoffs' =
      backoff.elim backoffs fun nSlots =>
        if (dcf.updateBackoff now).collides now state then
          Function.update backoffs i ⟨nSlots, now, false⟩
        else backoffs) :
    ∃ dcf', Sound dcf' periods ∧ TrackAll dcf'.timing periods now dcf'.states backoffs' ∧
      r.1.timing = dcf'.timing ∧ r.1.states = (dcf'.doGrantAccess now).1.states ∧
      r.2 = (dcf'.doGrantAccess now).2 := by
  obtain ⟨state, state', dcf', hi, hrequested, hdcf', hr, hgranted⟩ :=
    dcf.requestAccess_cases now hreq
  have hup := h.updateBackoff hs
  have htracks := hup i state hi
  have haifsn : state'.aifsn = state.aifsn := by
    rcases DcfManager.requested_cases _ now hrequested with ⟨h, -⟩ | ⟨n, -, -, h⟩ <;> rw [h]
  have hstates : dcf'.states = (dcf.updateBackoff now).states.set i state' := by rw [hdcf']
  have htiming : dcf'.timing = dcf.timing := by
    rw [hdcf']
    rfl
  have hsame : dcf.SameSetting dcf' := by
    refine ⟨htiming, ?_⟩
    rw [DcfManager.aifsns, hstates, DcfManager.map_set_aifsn hi haifsn]
    exact dcf.aifsns_updateBackoff now
  have hbusy : dcf'.busyEnd = dcf.busyEnd := by
    rw [hdcf']
    funext kind
    cases kind <;> rfl
  refine ⟨dcf', hs.of_sameSetting hsame (hbusy ▸ hs.ends), ?_, ?_, ?_, hgranted⟩
  · rw [hbackoffs state hi, hstates, htiming]
    rcases DcfManager.requested_cases _ now hrequested with ⟨rfl, hno⟩ | ⟨n, rfl, hc, rfl⟩
    · have hkept : (backoff.elim backoffs fun nSlots =>
          if (dcf.updateBackoff now).collides now state then
            Function.update backoffs i ⟨nSlots, now, false⟩
          else backoffs) = backoffs := by
        cases backoff with
        | none => rfl
        | some n => simp [hno n rfl]
      rw [hkept]
      exact hup.set ⟨htracks.since_le, htracks.start_le, htracks.slots_le, htracks.fits,
        htracks.counted⟩ fun _ _ => rfl
    · simp only [Option.elim_some, hc, if_true]
      refine hup.set ?_ fun j hj => Function.update_of_ne hj _ _
      rw [Function.update_self]
      exact .started n (hfits n rfl) rfl rfl
  · rw [hr, DcfManager.timing_doRestartAccessTimeoutIfNeeded, DcfManager.timing_doGrantAccess]
  · rw [hr, DcfManager.states_doRestartAccessTimeoutIfNeeded]

theorem tracked_accessTimedOut {dcf : DcfManager} {periods : List (Period Kind ℤ)} {now : ℤ}
    {backoffs : ℕ → Backoff} (hs : Sound dcf periods)
    (h : TrackAll dcf.timing periods now dcf.states backoffs) :
    ∃ dcf', Sound dcf' periods ∧ TrackAll dcf'.timing periods now dcf'.states backoffs ∧
      (dcf.accessTimedOut now).1.timing = dcf'.timing ∧
      (dcf.accessTimedOut now).1.states = (dcf'.doGrantAccess now).1.states ∧
      (dcf.accessTimedOut now).2 = (dcf'.doGrantAccess now).2 := by
  have hidle : Sound { dcf with accessTimeout := none } periods := by
    refine hs.of_sameSetting ⟨rfl, rfl⟩ fun p hp => (hs.ends p hp).trans_eq ?_
    cases p.kind <;> rfl
  refine ⟨_, hidle.updateBackoff now, TrackAll.updateBackoff hidle h, ?_, ?_, rfl⟩
  · exact (DcfManager.timing_doRestartAccessTimeoutIfNeeded _ _).trans
      (DcfManager.timing_doGrantAccess _ _)
  · exact DcfManager.states_doRestartAccessTimeoutIfNeeded _ _

/-- What a grant by `dcf'` says of the run after it -/
theorem granted_step {dcf' : DcfManager} {r : DcfManager × Option (ℕ × List ℕ)}
    (hs : Sound dcf' run'.periods)
    (h : TrackAll dcf'.timing run'.periods run'.now dcf'.states run'.backoffs)
    (htiming : r.1.timing = dcf'.timing)
    (hstates : r.1.states = (dcf'.doGrantAccess run'.now).1.states)
    (hgranted : r.2 = (dcf'.doGrantAccess run'.now).2) (hdcf : run'.dcf = r.1)
    (hrun : run'.granted = r.2.map (·.1)) :
    TrackAll run'.dcf.timing run'.periods run'.now run'.dcf.states run'.backoffs ∧
      run'.GrantsWell := by
  obtain ⟨htracked, hgrant⟩ := h.doGrantAccess hs
  rw [hdcf, htiming, hstates]
  refine ⟨htracked, fun i hi state hstate => ?_⟩
  rw [hrun, hgranted] at hi
  rw [hdcf, hstates] at hstate
  obtain ⟨hidle, hwhole⟩ := hgrant i hi state hstate
  rw [IdleFor, WholeBackoff, hdcf, htiming]
  exact ⟨fun p hp => .inl (hidle p hp), hwhole⟩

/-- Any other call grants nothing, and the states track their backoffs. -/
theorem tracked_notify {dcf : DcfManager} {now : ℤ} {call : Call}
    {r : DcfManager × Option (ℕ × List ℕ)} {periods : List (Period Kind ℤ)}
    {backoffs : ℕ → Backoff} (hs : Sound dcf periods)
    (h : TrackAll dcf.timing periods now dcf.states backoffs)
    (hexec : call.exec dcf now = some r)
    (hs' : Sound r.1 ((call.announced now).toList ++ cut call.ended now periods))
    (hcall : ∀ i backoff, call ≠ .requestAccess i backoff) (hstart : ∀ i n, call ≠ .startBackoff i n)
    (htimeout : call ≠ .accessTimeout) (hswitch : ∀ d, call ≠ .notifySwitchingStart d) :
    TrackAll dcf.timing ((call.announced now).toList ++ cut call.ended now periods) now r.1.states
      backoffs ∧ r.2 = none := by
  have hlater := later_or_cut now call periods
  have hup := (h.updateBackoff hs).of_later le_rfl hlater
  have hsame := h.of_later le_rfl hlater
  cases call with
  | requestAccess i backoff => exact absurd rfl (hcall i backoff)
  | startBackoff i n => exact absurd rfl (hstart i n)
  | accessTimeout => exact absurd rfl htimeout
  | notifySwitchingStart d => exact absurd rfl (hswitch d)
  | notifyRxStart d =>
    obtain rfl := Option.some.inj hexec
    exact ⟨hup, rfl⟩
  | notifyRxEnd ok =>
    obtain rfl := Option.some.inj hexec
    exact ⟨hsame, rfl⟩
  | notifyTxStart d =>
    obtain ⟨dcf', h', rfl⟩ := Option.map_eq_some_iff.mp hexec
    obtain rfl := dcf.notifyTxStartNow_cases now h'
    have hcut : Sound (dcf.cutRx now) (cut [.rx] now periods) := by
      refine hs.of_sameSetting ⟨dcf.timing_cutRx now,
        congrArg (List.map _) (dcf.states_cutRx now)⟩ ?_
      intro p hp
      obtain ⟨q, hq, hkind, -, hstop, hended⟩ := exists_of_mem_cut hp
      exact Call.le_busyEnd_cutRx (hstop.trans (hkind ▸ hs.ends q hq))
        fun hrx => hended (by simp [hrx])
    have hkept : TrackAll (dcf.cutRx now).timing (cut [.rx] now periods) now (dcf.cutRx now).states
        backoffs := by
      rw [dcf.timing_cutRx now, dcf.states_cutRx now]
      refine h.of_later le_rfl fun p hp => ?_
      obtain ⟨q, hq, -, hstart, hstop, -⟩ := exists_of_mem_cut hp
      exact .inr ⟨q, hq, hstart, hstop⟩
    refine ⟨?_, rfl⟩
    rw [← dcf.timing_cutRx now]
    refine (hkept.updateBackoff hcut).of_later le_rfl fun p hp => ?_
    rcases List.mem_cons.mp hp with rfl | hp
    · exact .inl le_rfl
    · exact .inr ⟨p, hp, rfl, le_rfl⟩
  | notifyMaybeCcaBusyStart d =>
    obtain rfl := Option.some.inj hexec
    exact ⟨hup, rfl⟩
  | notifyNavReset d =>
    obtain rfl := Option.some.inj hexec
    refine ⟨?_, rfl⟩
    have hends := hs'.ends
    rw [DcfManager.notifyNavResetNow, DcfManager.busyEnd_doRestartAccessTimeoutIfNeeded,
      DcfManager.busyEnd_updateBackoff] at hends
    rw [DcfManager.notifyNavResetNow, DcfManager.states_doRestartAccessTimeoutIfNeeded]
    have hreset : Sound { dcf.updateBackoff now with
        lastNavStart := now
        lastNavDuration := d } _ :=
      hs.of_sameSetting ⟨rfl, dcf.aifsns_updateBackoff now⟩ hends
    exact TrackAll.updateBackoff hreset hup
  | notifyNavStart d =>
    obtain ⟨dcf', h', rfl⟩ := Option.map_eq_some_iff.mp hexec
    rcases dcf.notifyNavStartNow_cases now h' with ⟨rfl, -⟩ | ⟨rfl, -⟩
    · exact ⟨hup, rfl⟩
    · exact ⟨hup, rfl⟩
  | notifyAckTimeoutStart d =>
    obtain ⟨dcf', h', rfl⟩ := Option.map_eq_some_iff.mp hexec
    obtain ⟨rfl, -⟩ := dcf.notifyAckTimeoutStartNow_cases now h'
    exact ⟨hsame, rfl⟩
  | notifyAckTimeoutReset =>
    obtain rfl := Option.some.inj hexec
    refine ⟨?_, rfl⟩
    rw [DcfManager.notifyAckTimeoutResetNow, DcfManager.states_doRestartAccessTimeoutIfNeeded]
    exact hsame
  | notifyCtsTimeoutStart d =>
    obtain rfl := Option.some.inj hexec
    exact ⟨hsame, rfl⟩
  | notifyCtsTimeoutReset =>
    obtain rfl := Option.some.inj hexec
    refine ⟨?_, rfl⟩
    rw [DcfManager.notifyCtsTimeoutResetNow, DcfManager.states_doRestartAccessTimeoutIfNeeded]
    exact hsame

theorem step_good (h : Good run) (hearly : run.EndsNoneEarly call) (hfits : run.BackoffFits call)
    (hstep : run.step call = some run') :
    Good run' ∧ run'.GrantsWell := by
  have hsound := sound_step h.sound hearly hstep
  obtain ⟨r, hexec, hrun⟩ := Option.map_eq_some_iff.mp hstep
  obtain ⟨delay, call⟩ := call
  have hnow : run.now ≤ run.now + delay := le_add_of_nonneg_right (Int.natCast_nonneg delay)
  have htracked : TrackAll run.dcf.timing run.periods (run.now + delay) run.dcf.states
      run.backoffs :=
    h.tracked.of_later hnow fun p hp => .inr ⟨p, hp, rfl, le_rfl⟩
  have htiming : r.1.timing = run.dcf.timing := (Call.sameSetting_of_exec hexec).1
  have hlater := later_or_cut (run.now + delay) call run.periods
  suffices hgrants : TrackAll run'.dcf.timing run'.periods run'.now run'.dcf.states run'.backoffs ∧
      run'.GrantsWell from
    ⟨⟨hsound, hgrants.1⟩, hgrants.2⟩
  cases call with
  | requestAccess i backoff =>
    have hbackoffs : ∀ state ∈ (run.dcf.updateBackoff (run.now + delay)).states[i]?,
        run'.backoffs = backoff.elim run.backoffs fun nSlots =>
          if (run.dcf.updateBackoff (run.now + delay)).collides (run.now + delay) state then
            Function.update run.backoffs i ⟨nSlots, run.now + delay, false⟩
          else run.backoffs := by
      intro state hi
      rw [← hrun]
      cases backoff with
      | none => rfl
      | some n => simp only [backoffsAfter, Option.mem_def.mp hi, Option.elim_some]
    have hfits' : ∀ nSlots ∈ backoff, nSlots * run.dcf.slotTimeUs < 4294967296 := by
      intro n hn
      obtain rfl := Option.mem_def.mp hn
      exact hfits
    obtain ⟨dcf', hs, ht, h₁, h₂, h₃⟩ :=
      tracked_requestAccess h.sound htracked hexec hfits' hbackoffs
    have hperiods : run'.periods = run.periods := by
      rw [← hrun]
      exact cut_nil _ _
    have hnow' : run'.now = run.now + delay := by rw [← hrun]
    rw [← hnow'] at ht h₂ h₃
    rw [← hperiods] at hs ht
    exact granted_step hs ht h₁ h₂ h₃ (by rw [← hrun]) (by rw [← hrun])
  | accessTimeout =>
    obtain rfl := Option.some.inj hexec
    obtain ⟨dcf', hs, ht, h₁, h₂, h₃⟩ := tracked_accessTimedOut h.sound htracked
    have hperiods : run'.periods = run.periods := by
      rw [← hrun]
      exact cut_nil _ _
    have hnow' : run'.now = run.now + delay := by rw [← hrun]
    have hbackoffs : run'.backoffs = run.backoffs := by
      rw [← hrun]
      rfl
    rw [← hnow', ← hbackoffs, ← hperiods] at ht
    rw [← hperiods] at hs
    exact granted_step hs ht h₁ (hnow' ▸ h₂) (hnow' ▸ h₃) (by rw [← hrun]) (by rw [← hrun])
  | startBackoff i n =>
    obtain ⟨dcf', h', rfl⟩ := Option.map_eq_some_iff.mp hexec
    obtain ⟨state, hi, rfl⟩ := run.dcf.startBackoffNow_cases _ h'
    rw [← hrun]
    have hstarted : Tracks run.dcf.timing ([] ++ cut [] (run.now + delay) run.periods)
        (run.now + delay) { state with backoffSlots := n, backoffStart := run.now + delay }
        (Function.update run.backoffs i ⟨n, run.now + delay, false⟩ i) := by
      rw [Function.update_self]
      exact .started n hfits rfl rfl
    exact ⟨(htracked.of_later le_rfl hlater).set hstarted fun j hj => Function.update_of_ne hj _ _,
      nofun⟩
  | notifySwitchingStart d =>
    obtain ⟨dcf', h', rfl⟩ := Option.map_eq_some_iff.mp hexec
    obtain ⟨rfl, -⟩ := run.dcf.notifySwitchingStartNow_cases _ h'
    rw [← hrun]
    refine ⟨?_, nofun⟩
    rw [htiming]
    exact (trackAll_resetBackoff htracked).of_later le_rfl hlater
  | _ =>
    obtain ⟨ht, hnone⟩ := tracked_notify h.sound htracked hexec (by rw [← hrun] at hsound; exact hsound)
      nofun nofun nofun nofun
    rw [← hrun]
    refine ⟨htiming ▸ ht, ?_⟩
    rw [hnone]
    exact nofun

instance (run : DcfRun) (call : ℕ × Call) : Decidable (run.EndsNoneEarly call) :=
  match h : call.2.announced (run.now + call.1) with
  | none => .isTrue (by simp [EndsNoneEarly, h])
  | some q => decidable_of_iff (q.kind = .nav ∨
      ∀ p ∈ run.periods, p.kind = q.kind → p.kind ∈ call.2.ended ∨ p.stop ≤ q.stop)
      (by simp [EndsNoneEarly, h])

instance (run : DcfRun) (call : ℕ × Call) : Decidable (run.BackoffFits call) :=
  match h : call.2 with
  | .requestAccess _ (some nSlots) =>
    decidable_of_iff (nSlots * run.dcf.slotTimeUs < 4294967296) (by simp [BackoffFits, h])
  | .startBackoff _ nSlots =>
    decidable_of_iff (nSlots * run.dcf.slotTimeUs < 4294967296) (by simp [BackoffFits, h])
  | .requestAccess _ none => .isTrue (by simp [BackoffFits, h])
  | .notifyRxStart _ | .notifyRxEnd _ | .notifyTxStart _ | .notifyMaybeCcaBusyStart _
  | .notifySwitchingStart _ | .notifyNavReset _ | .notifyNavStart _ | .notifyAckTimeoutStart _
  | .notifyAckTimeoutReset | .notifyCtsTimeoutStart _ | .notifyCtsTimeoutReset | .accessTimeout =>
    .isTrue (by simp [BackoffFits, h])

theorem grants_idle_and_whole (states : List (ℕ × ℕ × ℕ)) {slotTimeUs sifs : ℕ} (eifsNoDifs : ℕ)
    (hslot : 0 < slotTimeUs) (haifsn : ∀ s ∈ states, s.1 * slotTimeUs < 4294967296)
    {calls : List (ℕ × Call)}
    (hearly : Allowed step EndsNoneEarly (start states slotTimeUs sifs eifsNoDifs) calls)
    (hfits : Allowed step BackoffFits (start states slotTimeUs sifs eifsNoDifs) calls) :
    Always step (GrantsIf fun backoff => backoff.isReset = false)
      (start states slotTimeUs sifs eifsNoDifs) calls := by
  have hkeep : ∀ (run : DcfRun) (call : ℕ × Call) (run' : DcfRun), Good run ∧ run.GrantsWell →
      run.EndsNoneEarly call ∧ run.BackoffFits call → run.step call = some run' →
      Good run' ∧ run'.GrantsWell :=
    fun run call run' h hok hstep => step_good h.1 hok.1 hok.2 hstep
  have hinv := Always.of_invariant hkeep
    ⟨good_start states sifs eifsNoDifs hslot haifsn, nofun⟩ (hearly.and hfits)
  refine hinv.mono fun run h => ?_
  exact ⟨fun i hi state hstate => (h.2 i hi state hstate).1,
    fun i hi state hstate => (h.2 i hi state hstate).2,
    fun i state hstate => (h.1.tracked i state hstate).slots_le⟩

/-- A collision during a reception -/
theorem grants_after_collision :
    Always step (GrantsIf fun backoff => backoff.isReset = false)
      (start [(2, 15, 1023)] 9 16000 0)
      [(0, .notifyRxStart 1000000), (1000, .requestAccess 0 (some 4)),
        (999000, .notifyRxEnd true), (70000, .accessTimeout)] :=
  grants_idle_and_whole [(2, 15, 1023)] 0 (by decide) (by decide) (by decide +kernel)
    (by decide +kernel)

/-- A channel switch resets a backoff of five slots, and a wait of 2^32 microseconds is none. -/
theorem switched_or_wrapped_grants_early :
    (¬∀ (states : List (ℕ × ℕ × ℕ)) (slotTimeUs sifs eifsNoDifs : ℕ) (calls : List (ℕ × Call)),
      0 < slotTimeUs → 0 < sifs →
      Allowed step EndsNoneEarly (start states slotTimeUs sifs eifsNoDifs) calls →
      Always step (GrantsIf fun _ => True) (start states slotTimeUs sifs eifsNoDifs) calls) ∧
    ¬∀ (states : List (ℕ × ℕ × ℕ)) (slotTimeUs sifs eifsNoDifs : ℕ) (calls : List (ℕ × Call)),
      0 < slotTimeUs → 0 < sifs →
      Allowed step EndsNoneEarly (start states slotTimeUs sifs eifsNoDifs) calls →
      Always step (GrantsIf fun backoff => backoff.isReset = false)
        (start states slotTimeUs sifs eifsNoDifs) calls := by
  constructor
  · intro hall
    have h := hall [(2, 15, 1023)] 9 16000 0
      [(0, .startBackoff 0 5), (0, .notifySwitchingStart 1000), (35000, .requestAccess 0 none)]
      (by decide) (by decide) (by decide +kernel)
    obtain ⟨last, hlast⟩ : ∃ last, PartialRuns.run step (start [(2, 15, 1023)] 9 16000 0)
        [(0, .startBackoff 0 5), (0, .notifySwitchingStart 1000), (35000, .requestAccess 0 none)] =
        some last := ⟨_, rfl⟩
    have hgrants := h.last hlast
    obtain rfl := Option.some.inj hlast
    obtain ⟨slots, hlen, hclear⟩ := hgrants.whole 0 rfl _ rfl trivial
    have hpos : 0 < slots.length := lt_of_lt_of_le (by decide) hlen
    have hmem := List.getElem_mem hpos
    have hwithin : 0 ≤ slots[0] ∧ slots[0] + 9000 ≤ 35000 := hclear.within _ hmem
    have hswitch : 1000 + 34000 ≤ slots[0] ∨ slots[0] + 9000 ≤ 0 :=
      hclear.clear _ hmem ⟨.switching, 0, 1000⟩ (by decide)
    omega
  · intro hall
    have h := hall [(1073741824, 15, 1023)] 4 16000 0
      [(0, .notifyRxStart 1000), (1000, .notifyRxEnd true), (16000, .requestAccess 0 none)]
      (by decide) (by decide) (by decide +kernel)
    obtain ⟨last, hlast⟩ : ∃ last, PartialRuns.run step (start [(1073741824, 15, 1023)] 4 16000 0)
        [(0, .notifyRxStart 1000), (1000, .notifyRxEnd true), (16000, .requestAccess 0 none)] =
        some last := ⟨_, rfl⟩
    have hgrants := h.last hlast
    obtain rfl := Option.some.inj hlast
    have hidle : (1000 : ℤ) + (16000 + 1073741824 * 4000) ≤ 17000 ∨ (17000 : ℤ) ≤ 0 :=
      hgrants.idle 0 rfl _ rfl ⟨.rx, 0, 1000⟩ (by decide)
    omega

end DcfRun

end Ns3Noc.Dcf
