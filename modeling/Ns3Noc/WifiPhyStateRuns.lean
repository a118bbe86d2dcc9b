import Ns3Noc.WifiPhyStateHelper

/-!
# The state log of a Wi-Fi PHY

Between calls the log reaches the end of the last state that is over, and the remembered times tell
the rest. A busy report that moves the start of a busy time which is not logged yet is what breaks
this.
-/
namespace Ns3Noc.Wifi.Phy
open StateLogs

namespace WifiPhyStateHelper

variable {phy phy' : WifiPhyStateHelper} {past : List Step} {now time t : Time}

theorem getState_eq_tx : phy.getState t = .tx ↔ t < phy.endTx := by
  unfold getState
  grind

theorem getState_eq_rx : phy.getState t = .rx ↔ phy.endTx ≤ t ∧ phy.rxing := by
  unfold getState
  grind

theorem getState_eq_switching : phy.getState t = .switching ↔
    phy.endTx ≤ t ∧ phy.rxing = false ∧ t < phy.endSwitching := by
  unfold getState
  grind

theorem getState_eq_ccaBusy : phy.getState t = .ccaBusy ↔
    phy.endTx ≤ t ∧ phy.rxing = false ∧ phy.endSwitching ≤ t ∧ t < phy.endCcaBusy := by
  unfold getState
  grind

theorem getState_eq_idle : phy.getState t = .idle ↔
    phy.endTx ≤ t ∧ phy.rxing = false ∧ phy.endSwitching ≤ t ∧ phy.endCcaBusy ≤ t := by
  unfold getState
  grind

theorem ccaStart_le : phy.ccaStart ≤ t ↔ phy.endRx ≤ t ∧ phy.endTx ≤ t ∧ phy.startCcaBusy ≤ t ∧
    phy.endSwitching ≤ t := by
  simp only [ccaStart, max_le_iff, and_assoc]

theorem idleStart_le : phy.idleStart ≤ t ↔ phy.endCcaBusy ≤ t ∧ phy.endRx ≤ t ∧ phy.endTx ≤ t ∧
    phy.endSwitching ≤ t := by
  simp only [idleStart, max_le_iff, and_assoc]

/-- The time that the log has reached. -/
def loggedUntil (phy : WifiPhyStateHelper) : Time :=
  if phy.rxing then phy.startRx else phy.ccaStart

theorem loggedUntil_of_rxing (h : phy.rxing = true) : phy.loggedUntil = phy.startRx := if_pos h

theorem loggedUntil_of_not_rxing (h : phy.rxing = false) : phy.loggedUntil = phy.ccaStart := by
  simp [loggedUntil, h]

/-- The log tells of all times up to `loggedUntil`, and `GetState` of all after. -/
structure Logged (past : List Step) (now : Time) (phy : WifiPhyStateHelper) : Prop where
  tiles : Tiles (stateAt past) 0 phy.stateLogger phy.loggedUntil
  since : ∀ t, phy.loggedUntil ≤ t ∨ now ≤ t → stateAt past t = phy.getState t
  startCcaBusy_le : phy.startCcaBusy ≤ now
  receiving : phy.rxing = true →
    phy.startRx ≤ now ∧ phy.endTx ≤ phy.startRx ∧ phy.endSwitching ≤ phy.startRx
  resting : phy.rxing = false → phy.endRx ≤ now ∧ phy.startCcaBusy ≤ phy.idleStart

theorem Logged.create : Logged [] 0 create where
  tiles := rfl
  since _ _ := rfl
  startCcaBusy_le := le_rfl
  receiving h := by cases h
  resting _ := ⟨le_rfl, le_rfl⟩

theorem Logged.notify (h : Logged past now phy) (notification : Notification) :
    Logged past now (phy.notify notification) :=
  ⟨h.tiles, h.since, h.startCcaBusy_le, h.receiving, h.resting⟩

/-- What `interrupt` leaves: everything before now is logged and over. -/
structure Interrupted (past : List Step) (time : Time) (phy : WifiPhyStateHelper) : Prop where
  tiles : Tiles (stateAt past) 0 phy.stateLogger time
  rxing : phy.rxing = false
  endTx_le : phy.endTx ≤ time
  endRx_le : phy.endRx ≤ time
  endSwitching_le : phy.endSwitching ≤ time
  startCcaBusy_le : phy.startCcaBusy ≤ time

theorem tiles_log {atTime : Time → State} {start stop : Time} {state : State}
    (h : Tiles atTime 0 phy.stateLogger start) (hle : start ≤ stop)
    (hstate : ∀ t, start ≤ t → t < stop → atTime t = state) :
    Tiles atTime 0 (phy.log start stop state).stateLogger stop := by
  have hstop : (Entry.mk start (stop - start) state).stop = stop := add_sub_cancel start stop
  have hlog := h.concat (e := ⟨start, stop - start, state⟩) rfl (sub_nonneg.mpr hle)
    fun t ht => hstate t ht.1 (ht.2.trans_eq hstop)
  rw [hstop] at hlog
  exact hlog

/-- A reception is logged up to its end. -/
theorem Logged.rx (h : Logged past now phy) (htime : now ≤ time)
    (hstate : phy.getState time = .rx) :
    Tiles (stateAt past) 0 (phy.log phy.startRx time .rx).stateLogger time := by
  obtain ⟨-, hrxing⟩ := getState_eq_rx.mp hstate
  obtain ⟨hstart, htx, -⟩ := h.receiving hrxing
  have htiles := h.tiles
  rw [loggedUntil_of_rxing hrxing] at htiles
  refine tiles_log htiles (hstart.trans htime) fun t hst _ => ?_
  rw [h.since t (.inl (by rwa [loggedUntil_of_rxing hrxing])), getState_eq_rx]
  exact ⟨htx.trans hst, hrxing⟩

theorem Logged.ccaBusy (h : Logged past now phy) (htime : now ≤ time)
    (hstate : phy.getState time = .ccaBusy) :
    Tiles (stateAt past) 0 (phy.log phy.ccaStart time .ccaBusy).stateLogger time := by
  obtain ⟨htx, hrxing, hsw, hcca⟩ := getState_eq_ccaBusy.mp hstate
  have htiles := h.tiles
  rw [loggedUntil_of_not_rxing hrxing] at htiles
  have hstart : phy.ccaStart ≤ time :=
    ccaStart_le.mpr ⟨(h.resting hrxing).1.trans htime, htx, h.startCcaBusy_le.trans htime, hsw⟩
  refine tiles_log htiles hstart fun t hst htt => ?_
  rw [h.since t (.inl (by rwa [loggedUntil_of_not_rxing hrxing])), getState_eq_ccaBusy]
  obtain ⟨-, htx', -, hsw'⟩ := ccaStart_le.mp hst
  exact ⟨htx', hrxing, hsw', htt.trans hcca⟩

theorem Logged.idle (h : Logged past now phy) (htime : now ≤ time)
    (hstate : phy.getState time = .idle)
    (hcall : phy.logPreviousIdleAndCcaBusyStates time = some phy') :
    Interrupted past time phy' ∧ phy'.endCcaBusy = phy.endCcaBusy ∧
      phy'.idleStart = phy.idleStart := by
  obtain ⟨htx, hrxing, hsw, hcca⟩ := getState_eq_idle.mp hstate
  obtain ⟨hrx, hcover⟩ := h.resting hrxing
  have htiles := h.tiles
  rw [loggedUntil_of_not_rxing hrxing] at htiles
  have hsince : ∀ t, phy.ccaStart ≤ t → stateAt past t = phy.getState t := fun t ht =>
    h.since t (.inl (by rwa [loggedUntil_of_not_rxing hrxing]))
  have hstart : phy.idleStart ≤ time := idleStart_le.mpr ⟨hcca, hrx.trans htime, htx, hsw⟩
  have hccaStart : phy.ccaStart ≤ phy.idleStart := by
    obtain ⟨-, hrx', htx', hsw'⟩ := idleStart_le.mp (le_refl phy.idleStart)
    exact ccaStart_le.mpr ⟨hrx', htx', hcover, hsw'⟩
  have hidle : ∀ t, phy.idleStart ≤ t → t < time → stateAt past t = .idle := by
    intro t hst _
    obtain ⟨hcca', -, htx', hsw'⟩ := idleStart_le.mp hst
    rw [hsince t (hccaStart.trans hst), getState_eq_idle]
    exact ⟨htx', hrxing, hsw', hcca'⟩
  rw [logPreviousIdleAndCcaBusyStates, if_pos hstart] at hcall
  by_cases hlast : phy.endCcaBusy > phy.endRx ∧ phy.endCcaBusy > phy.endSwitching ∧
      phy.endCcaBusy > phy.endTx
  · rw [if_pos hlast] at hcall
    obtain rfl := Option.some.inj hcall
    -- the busy time is over, and it was the last state before the idle one
    have hend : phy.idleStart = phy.endCcaBusy := by
      obtain ⟨hle, -⟩ := idleStart_le.mp (le_refl phy.idleStart)
      exact le_antisymm (idleStart_le.mpr ⟨le_rfl, hlast.1.le, hlast.2.2.le, hlast.2.1.le⟩) hle
    have hbusy : ∀ t, phy.ccaStart ≤ t → t < phy.idleStart → stateAt past t = .ccaBusy := by
      intro t hst htt
      obtain ⟨-, htx', -, hsw'⟩ := ccaStart_le.mp hst
      rw [hsince t hst, getState_eq_ccaBusy]
      exact ⟨htx', hrxing, hsw', htt.trans_eq hend⟩
    exact ⟨⟨tiles_log (tiles_log htiles hccaStart hbusy) hstart hidle, hrxing, htx,
      hrx.trans htime, hsw, h.startCcaBusy_le.trans htime⟩, rfl, rfl⟩
  · rw [if_neg hlast] at hcall
    obtain rfl := Option.some.inj hcall
    have hsame : phy.ccaStart = phy.idleStart := by
      refine le_antisymm hccaStart ?_
      obtain ⟨hrx', htx', -, hsw'⟩ := ccaStart_le.mp (le_refl phy.ccaStart)
      refine idleStart_le.mpr ⟨?_, hrx', htx', hsw'⟩
      by_contra hbusy
      have hcca' : phy.ccaStart < phy.endCcaBusy := lt_of_not_ge hbusy
      exact hlast ⟨hrx'.trans_lt hcca', hsw'.trans_lt hcca', htx'.trans_lt hcca'⟩
    rw [hsame] at htiles
    exact ⟨⟨tiles_log htiles hstart hidle, hrxing, htx, hrx.trans htime, hsw,
      h.startCcaBusy_le.trans htime⟩, rfl, rfl⟩

theorem Logged.interrupt (h : Logged past now phy) (htime : now ≤ time)
    (hcall : phy.interrupt time = some phy') : Interrupted past time phy' := by
  rw [WifiPhyStateHelper.interrupt] at hcall
  split at hcall
  · next hstate =>
    obtain rfl := Option.some.inj hcall
    obtain ⟨htx, hrxing⟩ := getState_eq_rx.mp hstate
    obtain ⟨hstart, -, hsw⟩ := h.receiving hrxing
    exact ⟨h.rx htime hstate, rfl, htx, le_rfl, hsw.trans (hstart.trans htime),
      h.startCcaBusy_le.trans htime⟩
  · next hstate =>
    obtain rfl := Option.some.inj hcall
    obtain ⟨htx, hrxing, hsw, -⟩ := getState_eq_ccaBusy.mp hstate
    exact ⟨h.ccaBusy htime hstate, hrxing, htx, (h.resting hrxing).1.trans htime, hsw,
      h.startCcaBusy_le.trans htime⟩
  · next hstate => exact (h.idle htime hstate hcall).1
  · cases hcall
  · cases hcall

variable {before after : WifiPhyStateHelper} {call : Call} {duration : Time}

theorem stateAt_of_lt (h : t < time) :
    stateAt (⟨before, time, call, after⟩ :: past) t = stateAt past t :=
  if_neg (not_le_of_gt h)

theorem stateAt_of_le (h : time ≤ t) :
    stateAt (⟨before, time, call, after⟩ :: past) t = after.getState t :=
  if_pos h

theorem Interrupted.next (h : Interrupted past time phy) :
    Tiles (stateAt (⟨before, time, call, after⟩ :: past)) 0 phy.stateLogger time :=
  h.tiles.congr fun _ => stateAt_of_lt

/-- A state that nothing interrupts is logged in advance. -/
theorem Interrupted.ahead {stop : Time} {state : State} (h : Interrupted past time phy)
    (hle : time ≤ stop)
    (hlog : after.stateLogger = (phy.log time stop state).stateLogger)
    (hrxing : after.rxing = false) (hrx : after.endRx ≤ time) (hcca : after.startCcaBusy ≤ time)
    (hend : max after.endTx after.endSwitching = stop)
    (hstate : ∀ t, time ≤ t → t < stop → after.getState t = state) :
    Logged (⟨before, time, call, after⟩ :: past) time after := by
  obtain ⟨htx, hsw⟩ := max_le_iff.mp hend.le
  have huntil : after.loggedUntil = stop := by
    rw [loggedUntil_of_not_rxing hrxing]
    refine le_antisymm (ccaStart_le.mpr ⟨hrx.trans hle, htx, hcca.trans hle, hsw⟩) ?_
    obtain ⟨-, htx', -, hsw'⟩ := ccaStart_le.mp (le_refl after.ccaStart)
    exact hend.ge.trans (max_le htx' hsw')
  have hidle : stop ≤ after.idleStart := by
    obtain ⟨-, -, htx', hsw'⟩ := idleStart_le.mp (le_refl after.idleStart)
    exact hend.ge.trans (max_le htx' hsw')
  refine ⟨?_, fun t ht => ?_, hcca, fun h' => ?_, fun _ => ⟨hrx, (hcca.trans hle).trans hidle⟩⟩
  · rw [huntil, hlog]
    refine tiles_log h.next hle fun t hst htt => ?_
    rw [stateAt_of_le hst]
    exact hstate t hst htt
  · rw [huntil] at ht
    exact stateAt_of_le (ht.elim hle.trans id)
  · rw [hrxing] at h'
    cases h'

/-- Everything up to now is logged, and the present state is not. -/
theorem Interrupted.rests (h : Interrupted past time after) (hidle : time ≤ after.idleStart)
    (hcca : time ≤ after.ccaStart) : Logged (⟨before, time, call, after⟩ :: past) time after := by
  have huntil : after.loggedUntil = time := by
    rw [loggedUntil_of_not_rxing h.rxing]
    exact le_antisymm
      (ccaStart_le.mpr ⟨h.endRx_le, h.endTx_le, h.startCcaBusy_le, h.endSwitching_le⟩) hcca
  refine ⟨?_, fun t ht => ?_, h.startCcaBusy_le, fun h' => ?_,
    fun _ => ⟨h.endRx_le, h.startCcaBusy_le.trans hidle⟩⟩
  · rw [huntil]
    exact h.next
  · rw [huntil] at ht
    exact stateAt_of_le (ht.elim id id)
  · rw [h.rxing] at h'
    cases h'

/-- The condition on a call. A report of a busy medium moves no start of a busy time that has begun
before, and ends no earlier than the idle time that it makes known. -/
def Meets (phy : WifiPhyStateHelper) (now : Time) : Call → Prop
  | .switchToTx txDuration => 0 ≤ txDuration
  | .switchMaybeToCcaBusy duration =>
    (phy.getState now = .ccaBusy → now ≤ phy.ccaStart) ∧
      (phy.getState now = .idle → now ≤ phy.idleStart ∨ 0 ≤ duration)
  | _ => True

instance (phy : WifiPhyStateHelper) (now : Time) : DecidablePred (Meets phy now)
  | .switchToTx txDuration => inferInstanceAs (Decidable (0 ≤ txDuration))
  | .switchMaybeToCcaBusy duration => inferInstanceAs (Decidable
      ((phy.getState now = .ccaBusy → now ≤ phy.ccaStart) ∧
        (phy.getState now = .idle → now ≤ phy.idleStart ∨ 0 ≤ duration)))
  | .switchToRx _ | .switchToChannelSwitching _ | .switchFromRxEndOk | .switchFromRxEndError =>
    .isTrue trivial

theorem Logged.switchToTx (h : Logged past now phy) (htime : now ≤ time) (hduration : 0 ≤ duration)
    (hcall : phy.switchToTx time duration = some phy') :
    Logged (⟨before, time, call, phy'⟩ :: past) time phy' := by
  obtain ⟨phy₁, hphy₁, rfl⟩ := Option.map_eq_some_iff.mp hcall
  have hint := (h.notify _).interrupt htime hphy₁
  have hle : time ≤ time + duration := le_add_of_nonneg_right hduration
  refine hint.ahead hle rfl hint.rxing hint.endRx_le hint.startCcaBusy_le ?_ fun t _ htt => ?_
  · exact max_eq_left (hint.endSwitching_le.trans hle)
  · exact getState_eq_tx.mpr htt

theorem Logged.switchToRx (h : Logged past now phy) (htime : now ≤ time)
    (hcall : phy.switchToRx time duration = some phy') :
    Logged (⟨before, time, call, phy'⟩ :: past) time phy' := by
  rw [WifiPhyStateHelper.switchToRx] at hcall
  split at hcall
  · obtain ⟨phy₁, hphy₁, hcall⟩ := Option.bind_eq_some_iff.mp hcall
    have hint := (h.notify _).interrupt htime hphy₁
    simp only [Option.ite_none_right_eq_some, Option.some.injEq] at hcall
    obtain ⟨-, rfl⟩ := hcall
    exact ⟨hint.next, fun t ht => stateAt_of_le (ht.elim id id), hint.startCcaBusy_le,
      fun _ => ⟨le_rfl, hint.endTx_le, hint.endSwitching_le⟩, fun hrxing => by cases hrxing⟩
  · cases hcall

theorem Logged.switchToChannelSwitching (h : Logged past now phy) (htime : now ≤ time)
    (hcall : phy.switchToChannelSwitching time duration = some phy') :
    Logged (⟨before, time, call, phy'⟩ :: past) time phy' := by
  obtain ⟨phy₁, hphy₁, hcall⟩ := Option.bind_eq_some_iff.mp hcall
  have hint := (h.notify _).interrupt htime hphy₁
  simp only [Option.ite_none_right_eq_some, Option.some.injEq] at hcall
  obtain ⟨hswitching, rfl⟩ := hcall
  obtain ⟨htx, hrxing, hsw⟩ := getState_eq_switching.mp hswitching
  refine hint.ahead hsw.le rfl hrxing hint.endRx_le hint.startCcaBusy_le ?_ fun t hst htt => ?_
  · exact max_eq_right (htx.trans hsw.le)
  · exact getState_eq_switching.mpr ⟨htx.trans hst, hrxing, htt⟩

theorem Logged.doSwitchFromRx (h : Logged past now phy) (htime : now ≤ time)
    (hend : time = phy.endRx) (hcall : phy.doSwitchFromRx time = some phy') :
    Logged (⟨before, time, call, phy'⟩ :: past) time phy' := by
  rw [WifiPhyStateHelper.doSwitchFromRx] at hcall
  split at hcall
  · next hstate =>
    simp only [Option.ite_none_right_eq_some, Option.some.injEq] at hcall
    obtain ⟨hstate', hphy'⟩ := hcall
    obtain ⟨hstart, htx, hsw⟩ := h.receiving hstate.2
    have htiles := h.rx htime hstate.1
    have hint : Interrupted past time phy' := by
      subst hphy'
      exact ⟨htiles, rfl, (htx.trans hstart).trans htime, hend.ge,
        (hsw.trans hstart).trans htime, h.startCcaBusy_le.trans htime⟩
    have hrx : time = phy'.endRx := by
      rw [hend, ← hphy']
      rfl
    exact hint.rests (hrx.le.trans (idleStart_le.mp le_rfl).2.1)
      (hrx.le.trans (ccaStart_le.mp le_rfl).1)
  · cases hcall

/-- A report that comes while no busy time can start is for later. -/
theorem Logged.reported (h : Logged past now phy) (htime : now ≤ time)
    (hrest : phy.getState time = .rx ∨ phy.getState time = .tx ∨ phy.getState time = .switching)
    (hafter : after = { phy with startCcaBusy := time, endCcaBusy := after.endCcaBusy }) :
    Logged (⟨before, time, call, after⟩ :: past) time after := by
  have hcca := h.startCcaBusy_le.trans htime
  by_cases hrxing : phy.rxing
  · obtain ⟨hstart, htx, hsw⟩ := h.receiving hrxing
    have htiles := h.tiles
    have hsince := h.since
    rw [loggedUntil_of_rxing hrxing] at htiles hsince
    have hrxing' : after.rxing = true := by rw [hafter, hrxing]
    have huntil : after.loggedUntil = phy.startRx := by
      rw [loggedUntil_of_rxing hrxing', hafter]
    have hreceives : ∀ t, phy.startRx ≤ t → after.getState t = .rx := fun t ht => by
      rw [hafter, getState_eq_rx]
      exact ⟨htx.trans ht, hrxing⟩
    refine ⟨?_, fun t ht => ?_, by rw [hafter], fun _ => ?_, fun h' => ?_⟩
    · rw [huntil, hafter]
      exact htiles.congr fun t ht => stateAt_of_lt (ht.trans_le (hstart.trans htime))
    · rw [huntil] at ht
      have hst : phy.startRx ≤ t := ht.elim id (hstart.trans htime).trans
      by_cases htt : time ≤ t
      · exact stateAt_of_le htt
      · rw [stateAt_of_lt (lt_of_not_ge htt), hsince t (.inl hst), hreceives t hst, getState_eq_rx]
        exact ⟨htx.trans hst, hrxing⟩
    · rw [hafter]
      exact ⟨hstart.trans htime, htx, hsw⟩
    · rw [hrxing'] at h'
      cases h'
  · have hrxing : phy.rxing = false := by simpa using hrxing
    have hrx := (h.resting hrxing).1.trans htime
    have hahead : time < phy.endTx ∨ time < phy.endSwitching := by
      rcases hrest with hs | hs | hs
      · rw [(getState_eq_rx.mp hs).2] at hrxing
        cases hrxing
      · exact .inl (getState_eq_tx.mp hs)
      · exact .inr (getState_eq_switching.mp hs).2.2
    have htiles := h.tiles
    rw [loggedUntil_of_not_rxing hrxing] at htiles
    have hrxing' : after.rxing = false := by rw [hafter, hrxing]
    have huntil : after.loggedUntil = phy.ccaStart := by
      rw [loggedUntil_of_not_rxing hrxing', hafter]
      simp only [ccaStart]
      grind
    have hlast : time < phy.ccaStart := by
      obtain ⟨-, htx, -, hsw⟩ := ccaStart_le.mp (le_refl phy.ccaStart)
      exact hahead.elim htx.trans_lt' hsw.trans_lt'
    refine ⟨?_, fun t ht => ?_, by rw [hafter], fun h' => ?_, fun _ => ?_⟩
    · rw [huntil, hafter]
      refine htiles.congr fun t ht => ?_
      by_cases htt : time ≤ t
      · -- the transmission or the switch that is logged already goes on
        have hnot : ¬(phy.endTx ≤ t ∧ phy.endSwitching ≤ t) := fun hover =>
          absurd (ccaStart_le.mpr ⟨hrx.trans htt, hover.1, hcca.trans htt, hover.2⟩)
            (not_le_of_gt ht)
        rw [stateAt_of_le htt, h.since t (.inr (htime.trans htt))]
        simp only [getState]
        grind
      · exact stateAt_of_lt (lt_of_not_ge htt)
    · rw [huntil] at ht
      exact stateAt_of_le (ht.elim hlast.le.trans id)
    · rw [hrxing'] at h'
      cases h'
    · obtain ⟨-, -, htx, hsw⟩ := idleStart_le.mp (le_refl phy.idleStart)
      rw [hafter]
      refine ⟨hrx, ?_⟩
      simp only [idleStart]
      grind

theorem Logged.switchMaybeToCcaBusy (h : Logged past now phy) (htime : now ≤ time)
    (hmeets : Meets phy time (.switchMaybeToCcaBusy duration))
    (hcall : phy.switchMaybeToCcaBusy time duration = some phy') :
    Logged (⟨before, time, call, phy'⟩ :: past) time phy' := by
  obtain ⟨phy₁, hphy₁, rfl⟩ := Option.map_eq_some_iff.mp hcall
  split at hphy₁
  · next hstate =>
    obtain ⟨hint, hcca, hidle⟩ := (h.notify _).idle htime hstate hphy₁
    have hint' : Interrupted past time { phy₁ with
        startCcaBusy := time
        endCcaBusy := max phy₁.endCcaBusy (time + duration) } :=
      ⟨hint.tiles, hint.rxing, hint.endTx_le, hint.endRx_le, hint.endSwitching_le, le_rfl⟩
    refine hint'.rests ?_ (ccaStart_le.mp le_rfl).2.2.1
    rcases hmeets.2 hstate with hlast | hduration
    · refine (hlast.trans hidle.ge).trans (idleStart_le.mpr ?_)
      obtain ⟨hcca', hrx, htx, hsw⟩ := idleStart_le.mp (le_refl (WifiPhyStateHelper.idleStart
        { phy₁ with
          startCcaBusy := time
          endCcaBusy := max phy₁.endCcaBusy (time + duration) }))
      exact ⟨(le_max_left _ _).trans hcca', hrx, htx, hsw⟩
    · exact (le_add_of_nonneg_right hduration).trans
        ((le_max_right _ _).trans (idleStart_le.mp le_rfl).1)
  · next hstate =>
    obtain rfl := Option.some.inj hphy₁
    by_cases hbusy : phy.getState time = .ccaBusy
    · obtain ⟨htx, hrxing, hsw, hcca⟩ := getState_eq_ccaBusy.mp hbusy
      have hrx := (h.resting hrxing).1.trans htime
      have hstart : phy.ccaStart = time := le_antisymm
        (ccaStart_le.mpr ⟨hrx, htx, h.startCcaBusy_le.trans htime, hsw⟩) (hmeets.1 hbusy)
      have htiles := h.tiles
      rw [loggedUntil_of_not_rxing hrxing, hstart] at htiles
      refine Interrupted.rests ⟨htiles, hrxing, htx, hrx, hsw, le_rfl⟩ ?_
        (ccaStart_le.mp le_rfl).2.2.1
      exact hcca.le.trans ((le_max_left _ _).trans (idleStart_le.mp le_rfl).1)
    · refine (h.notify (.maybeCcaBusyStart duration)).reported htime ?_ rfl
      cases hs : phy.getState time
      · exact absurd hs hstate
      · exact absurd hs hbusy
      · exact .inr (.inl hs)
      · exact .inl hs
      · exact .inr (.inr hs)

theorem Logged.step (h : Logged past now phy) (htime : now ≤ time) (hmeets : Meets phy time call)
    (hcall : phy.call time call = some phy') :
    Logged (⟨before, time, call, phy'⟩ :: past) time phy' := by
  cases call with
  | switchToTx txDuration => exact h.switchToTx htime hmeets hcall
  | switchToRx rxDuration => exact h.switchToRx htime hcall
  | switchToChannelSwitching switchingDuration => exact h.switchToChannelSwitching htime hcall
  | switchFromRxEndOk =>
    obtain ⟨hend, hcall⟩ := Option.ite_none_right_eq_some.mp hcall
    exact (h.notify .rxEndOk).doSwitchFromRx htime hend hcall
  | switchFromRxEndError =>
    obtain ⟨hend, hcall⟩ := Option.ite_none_right_eq_some.mp hcall
    exact (h.notify .rxEndError).doSwitchFromRx htime hend hcall
  | switchMaybeToCcaBusy duration => exact h.switchMaybeToCcaBusy htime hmeets hcall

theorem logged_of_run (h : Run past now phy)
    (hmeets : ∀ step ∈ past, Meets step.before step.time step.call) : Logged past now phy := by
  induction h with
  | start => exact .create
  | step h htime hcall ih =>
    have hpast := ih fun step hstep => hmeets step (List.mem_cons_of_mem _ hstep)
    exact hpast.step htime (hmeets _ List.mem_cons_self) hcall

/-- The log tiles the time of every run whose calls meet the condition. -/
theorem tilesTime_of_run (h : Run past now phy)
    (hmeets : ∀ step ∈ past, Meets step.before step.time step.call) :
    TilesTime (stateAt past) phy.stateLogger :=
  (logged_of_run h hmeets).tiles.tilesTime

/-- Busy, then receiving with a report of a longer busy time, then busy and sending. -/
theorem tilesTime_busyReception : ∃ past now phy,
    makeCalls [(130, .switchToTx 10), (100, .switchFromRxEndOk), (70, .switchMaybeToCcaBusy 90),
      (60, .switchToRx 40), (10, .switchMaybeToCcaBusy 100)] = some (past, now, phy) ∧
    phy.stateLogger = [⟨0, 10, .idle⟩, ⟨10, 50, .ccaBusy⟩, ⟨60, 40, .rx⟩, ⟨100, 30, .ccaBusy⟩,
      ⟨130, 10, .tx⟩] ∧
    TilesTime (stateAt past) phy.stateLogger := by
  have hsome : (makeCalls [(130, .switchToTx 10), (100, .switchFromRxEndOk),
      (70, .switchMaybeToCcaBusy 90), (60, .switchToRx 40),
      (10, .switchMaybeToCcaBusy 100)]).isSome := by decide
  obtain ⟨⟨past, now, phy⟩, hrun⟩ := Option.isSome_iff_exists.mp hsome
  have hmeets : ∀ result ∈ makeCalls [(130, .switchToTx 10), (100, .switchFromRxEndOk),
      (70, .switchMaybeToCcaBusy 90), (60, .switchToRx 40), (10, .switchMaybeToCcaBusy 100)],
      (∀ step ∈ result.1, Meets step.before step.time step.call) ∧
        result.2.2.stateLogger = [⟨0, 10, .idle⟩, ⟨10, 50, .ccaBusy⟩, ⟨60, 40, .rx⟩,
          ⟨100, 30, .ccaBusy⟩, ⟨130, 10, .tx⟩] := by decide
  exact ⟨past, now, phy, hrun, (hmeets _ hrun).2,
    tilesTime_of_run (.of_makeCalls hrun) (hmeets _ hrun).1⟩

/-- The second report moves the start of the busy time, and the log lacks what was before it. -/
theorem not_tilesTime_overlappingReports :
    ¬∀ past now phy, Run past now phy → TilesTime (stateAt past) phy.stateLogger := by
  intro h
  have hsome : (makeCalls [(60, .switchToRx 20), (50, .switchMaybeToCcaBusy 100),
      (10, .switchMaybeToCcaBusy 100)]).isSome := by decide
  have hlogs : ∀ result ∈ makeCalls [(60, .switchToRx 20), (50, .switchMaybeToCcaBusy 100),
      (10, .switchMaybeToCcaBusy 100)],
      result.2.2.stateLogger = [⟨0, 10, .idle⟩, ⟨50, 10, .ccaBusy⟩] := by decide
  obtain ⟨⟨past, now, phy⟩, hrun⟩ := Option.isSome_iff_exists.mp hsome
  have hcovers := (h past now phy (.of_makeCalls hrun)).covers
  rw [hlogs _ hrun] at hcovers
  obtain ⟨e, hlog, hlasts, -⟩ := hcovers ⟨50, 10, .ccaBusy⟩ (by decide) 20 (by decide) (by decide)
  simp only [List.mem_cons, List.not_mem_nil, or_false] at hlog
  rcases hlog with rfl | rfl
  · exact absurd hlasts.2 (by decide)
  · exact absurd hlasts.1 (by decide)

end WifiPhyStateHelper

end Ns3Noc.Wifi.Phy
