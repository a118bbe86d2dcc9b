import Ns3Noc.StateLogs
import Mathlib.Algebra.Order.Ring.Int
import Mathlib.Tactic.Common

/-!
# The states of a Wi-Fi PHY

Transmissions and channel switches are logged when they start, receptions when they end. Idle and
busy times are logged in retrospect, when the next state starts.
-/
namespace Ns3Noc.Wifi.Phy
open StateLogs

abbrev Time := ℤ

inductive State where
  | idle
  | ccaBusy
  | tx
  | rx
  | switching
  deriving DecidableEq, Repr

/-- What the listeners are told. -/
inductive Notification where
  | rxStart (duration : Time)
  | rxEndOk
  | rxEndError
  | txStart (duration : Time)
  | maybeCcaBusyStart (duration : Time)
  | switchingStart (duration : Time)
  deriving DecidableEq, Repr

structure WifiPhyStateHelper where
  rxing : Bool
  endTx : Time
  endRx : Time
  endCcaBusy : Time
  endSwitching : Time
  startTx : Time
  startRx : Time
  startCcaBusy : Time
  startSwitching : Time
  previousStateChangeTime : Time
  stateLogger : List (Entry Time State)
  notifications : List Notification
  deriving DecidableEq, Repr

namespace WifiPhyStateHelper

def create : WifiPhyStateHelper := ⟨false, 0, 0, 0, 0, 0, 0, 0, 0, 0, [], []⟩

variable (phy : WifiPhyStateHelper) (now : Time)

def getState : State :=
  if phy.endTx > now then .tx
  else if phy.rxing then .rx
  else if phy.endSwitching > now then .switching
  else if phy.endCcaBusy > now then .ccaBusy
  else .idle

/-- The start of the busy time that is logged when another state starts. -/
def ccaStart : Time :=
  max (max (max phy.endRx phy.endTx) phy.startCcaBusy) phy.endSwitching

def idleStart : Time :=
  max (max (max phy.endCcaBusy phy.endRx) phy.endTx) phy.endSwitching

def log (start stop : Time) (state : State) : WifiPhyStateHelper :=
  { phy with stateLogger := phy.stateLogger ++ [⟨start, stop - start, state⟩] }

def notify (notification : Notification) : WifiPhyStateHelper :=
  { phy with notifications := phy.notifications ++ [notification] }

def logPreviousIdleAndCcaBusyStates : Option WifiPhyStateHelper :=
  if phy.idleStart ≤ now then
    let logged :=
      if phy.endCcaBusy > phy.endRx ∧ phy.endCcaBusy > phy.endSwitching ∧
          phy.endCcaBusy > phy.endTx then
        phy.log phy.ccaStart phy.idleStart .ccaBusy
      else phy
    some (logged.log phy.idleStart now .idle)
  else none

/-- The first part of `SwitchToTx` and of `SwitchToChannelSwitching`: the current state ends, unless
it is one that nothing interrupts. -/
def interrupt : Option WifiPhyStateHelper :=
  match phy.getState now with
  | .rx => some { phy.log phy.startRx now .rx with rxing := false, endRx := now }
  | .ccaBusy => some (phy.log phy.ccaStart now .ccaBusy)
  | .idle => phy.logPreviousIdleAndCcaBusyStates now
  | .tx | .switching => none

def switchToTx (txDuration : Time) : Option WifiPhyStateHelper :=
  ((phy.notify (.txStart txDuration)).interrupt now).map fun phy =>
    { phy.log now (now + txDuration) .tx with
      previousStateChangeTime := now
      endTx := now + txDuration
      startTx := now }

def switchToRx (rxDuration : Time) : Option WifiPhyStateHelper :=
  if (phy.getState now = .idle ∨ phy.getState now = .ccaBusy) ∧ phy.rxing = false then
    ((phy.notify (.rxStart rxDuration)).interrupt now).bind fun phy =>
      let phy' := { phy with
        previousStateChangeTime := now
        rxing := true
        startRx := now
        endRx := now + rxDuration }
      if phy'.getState now = .rx then some phy' else none
  else none

def switchToChannelSwitching (switchingDuration : Time) : Option WifiPhyStateHelper :=
  ((phy.notify (.switchingStart switchingDuration)).interrupt now).bind fun phy =>
    let phy' := { phy.log now (now + switchingDuration) .switching with
      endCcaBusy := if now < phy.endCcaBusy then now else phy.endCcaBusy
      previousStateChangeTime := now
      startSwitching := now
      endSwitching := now + switchingDuration }
    if phy'.getState now = .switching then some phy' else none

def doSwitchFromRx : Option WifiPhyStateHelper :=
  if phy.getState now = .rx ∧ phy.rxing then
    let phy' := { phy.log phy.startRx now .rx with
      previousStateChangeTime := now
      rxing := false }
    if phy'.getState now = .idle ∨ phy'.getState now = .ccaBusy then some phy' else none
  else none

def switchFromRxEndOk : Option WifiPhyStateHelper := (phy.notify .rxEndOk).doSwitchFromRx now

def switchFromRxEndError : Option WifiPhyStateHelper := (phy.notify .rxEndError).doSwitchFromRx now

def switchMaybeToCcaBusy (duration : Time) : Option WifiPhyStateHelper :=
  let notified := phy.notify (.maybeCcaBusyStart duration)
  let logged :=
    if phy.getState now = .idle then notified.logPreviousIdleAndCcaBusyStates now
    else some notified
  logged.map fun phy =>
    { phy with
      startCcaBusy := now
      endCcaBusy := max phy.endCcaBusy (now + duration) }

end WifiPhyStateHelper

inductive Call where
  | switchToTx (txDuration : Time)
  | switchToRx (rxDuration : Time)
  | switchToChannelSwitching (switchingDuration : Time)
  | switchFromRxEndOk
  | switchFromRxEndError
  | switchMaybeToCcaBusy (duration : Time)
  deriving DecidableEq, Repr

namespace WifiPhyStateHelper
variable (phy : WifiPhyStateHelper) (now : Time)

/-- A call fails where an assertion or a fatal error stops it. A reception is only ended at the time
announced. -/
def call : Call → Option WifiPhyStateHelper
  | .switchToTx txDuration => phy.switchToTx now txDuration
  | .switchToRx rxDuration => phy.switchToRx now rxDuration
  | .switchToChannelSwitching switchingDuration =>
    phy.switchToChannelSwitching now switchingDuration
  | .switchFromRxEndOk => if now = phy.endRx then phy.switchFromRxEndOk now else none
  | .switchFromRxEndError => if now = phy.endRx then phy.switchFromRxEndError now else none
  | .switchMaybeToCcaBusy duration => phy.switchMaybeToCcaBusy now duration

end WifiPhyStateHelper

/-- A call that was made, with the PHY before and after it. -/
structure Step where
  before : WifiPhyStateHelper
  time : Time
  call : Call
  after : WifiPhyStateHelper
  deriving DecidableEq, Repr

/-- The calls of a run, newest first, with the time of the last one and the PHY after it. -/
inductive Run : List Step → Time → WifiPhyStateHelper → Prop
  | start : Run [] 0 .create
  | step {past : List Step} {now time : Time} {phy phy' : WifiPhyStateHelper} {call : Call}
      (h : Run past now phy) (htime : now ≤ time) (hcall : phy.call time call = some phy') :
      Run (⟨phy, time, call, phy'⟩ :: past) time phy'

/-- The run of these calls, newest first, where it is permitted. -/
def makeCalls : List (Time × Call) → Option (List Step × Time × WifiPhyStateHelper)
  | [] => some ([], 0, .create)
  | (time, call) :: earlier =>
    (makeCalls earlier).bind fun (past, now, phy) =>
      if now ≤ time then
        (phy.call time call).map fun phy' => (⟨phy, time, call, phy'⟩ :: past, time, phy')
      else none

theorem Run.of_makeCalls {calls : List (Time × Call)} {past : List Step} {now : Time}
    {phy : WifiPhyStateHelper} (h : makeCalls calls = some (past, now, phy)) :
    Run past now phy := by
  induction calls generalizing past now phy with
  | nil =>
    cases h
    exact .start
  | cons timed earlier ih =>
    obtain ⟨⟨past', now', phy'⟩, hlast, h⟩ := Option.bind_eq_some_iff.mp h
    obtain ⟨htime, h⟩ := Option.ite_none_right_eq_some.mp h
    obtain ⟨after, hcall, h⟩ := Option.map_eq_some_iff.mp h
    cases h
    exact (ih hlast).step htime hcall

/-- What `GetState` gave at a time. -/
def stateAt : List Step → Time → State
  | [], t => WifiPhyStateHelper.create.getState t
  | step :: past, t => if step.time ≤ t then step.after.getState t else stateAt past t

end Ns3Noc.Wifi.Phy
