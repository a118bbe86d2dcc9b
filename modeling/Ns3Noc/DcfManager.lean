import Mathlib

/-!
# The DCF manager

`DcfManager` and its `DcfState`s, with times in nanoseconds. A function returns `none` where an
assertion fails. What the owner of a state does when it is notified follows as later calls, except
for the backoff that it starts on a collision.
-/
namespace Ns3Noc.Dcf

def microSeconds (us : ℕ) : ℤ := 1000 * (us : ℤ)

/-- `uint32_t` arithmetic -/
def uint32 (n : ℕ) : ℕ := n % 4294967296

/-- The latest time that the simulator can represent. -/
def maximumSimulationTime : ℤ := 0x7fffffffffffffff

structure DcfState where
  aifsn : ℕ
  backoffSlots : ℕ
  backoffStart : ℤ
  cwMin : ℕ
  cwMax : ℕ
  cw : ℕ
  accessRequested : Bool
  deriving DecidableEq, Repr

namespace DcfState

variable (state : DcfState)

/-- The constructor and `SetAifsn`, `SetCwMin` and `SetCwMax` -/
def create (aifsn cwMin cwMax : ℕ) : DcfState := ⟨aifsn, 0, 0, cwMin, cwMax, cwMin, false⟩

def resetCw : DcfState := { state with cw := state.cwMin }

def updateBackoffSlotsNow (nSlots : ℕ) (backoffUpdateBound : ℤ) : DcfState :=
  { state with
    backoffSlots := uint32 (state.backoffSlots + 4294967296 - nSlots)
    backoffStart := backoffUpdateBound }

def startBackoffNow (now : ℤ) (nSlots : ℕ) : Option DcfState :=
  if state.backoffSlots = 0 then some { state with
    backoffSlots := nSlots
    backoffStart := now }
  else none

end DcfState

structure DcfManager where
  states : List DcfState
  lastAckTimeoutEnd : ℤ
  lastCtsTimeoutEnd : ℤ
  lastNavStart : ℤ
  lastNavDuration : ℤ
  lastRxStart : ℤ
  lastRxDuration : ℤ
  lastRxReceivedOk : Bool
  lastRxEnd : ℤ
  lastTxStart : ℤ
  lastTxDuration : ℤ
  lastBusyStart : ℤ
  lastBusyDuration : ℤ
  lastSwitchingStart : ℤ
  lastSwitchingDuration : ℤ
  rxing : Bool
  eifsNoDifs : ℤ
  slotTimeUs : ℕ
  sifs : ℤ
  accessTimeout : Option ℤ
  deriving DecidableEq, Repr

namespace DcfManager

/-- The constructor, `Add` and the setters -/
def create (states : List DcfState) (slotTimeUs : ℕ) (sifs eifsNoDifs : ℤ) : DcfManager :=
  ⟨states, 0, 0, 0, 0, 0, 0, true, 0, 0, 0, 0, 0, 0, 0, false, eifsNoDifs, slotTimeUs, sifs, none⟩

variable (dcf : DcfManager)

def lastNavEnd : ℤ := dcf.lastNavStart + dcf.lastNavDuration

def isBusy (now : ℤ) : Bool :=
  dcf.rxing || dcf.lastTxStart + dcf.lastTxDuration > now || dcf.lastNavEnd > now

def getAccessGrantStart : ℤ :=
  let rxAccessStart :=
    if !dcf.rxing then
      if !dcf.lastRxReceivedOk then dcf.lastRxEnd + dcf.sifs + dcf.eifsNoDifs
      else dcf.lastRxEnd + dcf.sifs
    else dcf.lastRxStart + dcf.lastRxDuration + dcf.sifs
  let busyAccessStart := dcf.lastBusyStart + dcf.lastBusyDuration + dcf.sifs
  let txAccessStart := dcf.lastTxStart + dcf.lastTxDuration + dcf.sifs
  let navAccessStart := dcf.lastNavStart + dcf.lastNavDuration + dcf.sifs
  let ackTimeoutAccessStart := dcf.lastAckTimeoutEnd + dcf.sifs
  let ctsTimeoutAccessStart := dcf.lastCtsTimeoutEnd + dcf.sifs
  let switchingAccessStart := dcf.lastSwitchingStart + dcf.lastSwitchingDuration + dcf.sifs
  max (max (max rxAccessStart busyAccessStart) (max txAccessStart navAccessStart))
    (max (max ackTimeoutAccessStart ctsTimeoutAccessStart) switchingAccessStart)

def getBackoffStartFor (state : DcfState) : ℤ :=
  max state.backoffStart
    (dcf.getAccessGrantStart + microSeconds (uint32 (state.aifsn * dcf.slotTimeUs)))

def getBackoffEndFor (state : DcfState) : ℤ :=
  dcf.getBackoffStartFor state + microSeconds (uint32 (state.backoffSlots * dcf.slotTimeUs))

/-- The slots that `UpdateBackoff` counts for a state. -/
def elapsedSlots (now : ℤ) (state : DcfState) : ℕ :=
  if dcf.getBackoffStartFor state ≤ now then
    let nus := uint32 ((now - dcf.getBackoffStartFor state) / 1000).toNat
    min (nus / dcf.slotTimeUs) state.backoffSlots
  else 0

def updateBackoffOf (now : ℤ) (state : DcfState) : DcfState :=
  let backoffStart := dcf.getBackoffStartFor state
  if backoffStart ≤ now then
    let n := dcf.elapsedSlots now state
    state.updateBackoffSlotsNow n (backoffStart + microSeconds (uint32 (n * dcf.slotTimeUs)))
  else state

def updateBackoff (now : ℤ) : DcfManager :=
  { dcf with states := dcf.states.map (dcf.updateBackoffOf now) }

/-- Access is requested and the backoff has expired. -/
def ready (now : ℤ) (state : DcfState) : Bool :=
  state.accessRequested && dcf.getBackoffEndFor state ≤ now

/-- The state that is granted access, with those that collide with it, or nothing. -/
def doGrantAccess (now : ℤ) : DcfManager × Option (ℕ × List ℕ) :=
  match dcf.states.findIdx? (dcf.ready now) with
  | none => (dcf, none)
  | some i =>
    ({ dcf with
        states := dcf.states.modify i fun state => { state with accessRequested := false } },
      some (i, (List.range dcf.states.length).filter fun j =>
        i < j && (dcf.states[j]?.elim false (dcf.ready now))))

def doRestartAccessTimeoutIfNeeded (now : ℤ) : DcfManager :=
  let ends := (dcf.states.filter (·.accessRequested)).map dcf.getBackoffEndFor
  let ends := ends.filter (· > now)
  if ends.isEmpty then dcf
  else
    let expectedBackoffEnd := ends.foldl min maximumSimulationTime
    match dcf.accessTimeout with
    | some accessTimeout =>
      if accessTimeout > expectedBackoffEnd then
        { dcf with accessTimeout := some expectedBackoffEnd }
      else dcf
    | none => { dcf with accessTimeout := some expectedBackoffEnd }

/-- The collision that `RequestAccess` notifies. -/
def collides (now : ℤ) (state : DcfState) : Bool :=
  state.backoffSlots = 0 && dcf.isBusy now

/-- `NotifyAccessRequested` and, on a collision, `NotifyCollision`, where the owner starts
`backoff` -/
def requested (now : ℤ) (backoff : Option ℕ) (state : DcfState) : Option DcfState :=
  if state.accessRequested then none
  else
    let state := { state with accessRequested := true }
    match backoff with
    | some nSlots =>
      if dcf.collides now state then state.startBackoffNow now nSlots else some state
    | none => some state

/-- `RequestAccess` for the state at this position -/
def requestAccess (now : ℤ) (i : ℕ) (backoff : Option ℕ) :
    Option (DcfManager × Option (ℕ × List ℕ)) := do
  let dcf := dcf.updateBackoff now
  let state ← dcf.states[i]?
  let state ← dcf.requested now backoff state
  let granted := doGrantAccess { dcf with states := dcf.states.set i state } now
  return (granted.1.doRestartAccessTimeoutIfNeeded now, granted.2)

def startBackoffNow (now : ℤ) (i nSlots : ℕ) : Option DcfManager := do
  let state ← dcf.states[i]?
  let state ← state.startBackoffNow now nSlots
  return { dcf with states := dcf.states.set i state }

def accessTimedOut (now : ℤ) : DcfManager × Option (ℕ × List ℕ) :=
  let dcf := { dcf with accessTimeout := none }
  let granted := (dcf.updateBackoff now).doGrantAccess now
  (granted.1.doRestartAccessTimeoutIfNeeded now, granted.2)

def notifyRxStartNow (now duration : ℤ) : DcfManager :=
  { dcf.updateBackoff now with
    lastRxStart := now
    lastRxDuration := duration
    rxing := true }

/-- `NotifyRxEndOkNow` and `NotifyRxEndErrorNow` -/
def notifyRxEndNow (now : ℤ) (receivedOk : Bool) : DcfManager :=
  { dcf with
    lastRxEnd := now
    lastRxReceivedOk := receivedOk
    rxing := false }

/-- The reception that `NotifyTxStartNow` and `NotifySwitchingStartNow` cut off. -/
def cutRx (now : ℤ) : DcfManager :=
  if dcf.rxing then
    { dcf with
      lastRxEnd := now
      lastRxDuration := now - dcf.lastRxStart
      lastRxReceivedOk := true
      rxing := false }
  else dcf

def notifyTxStartNow (now duration : ℤ) : Option DcfManager :=
  if dcf.rxing && now - dcf.lastRxStart > dcf.sifs then none
  else some { (dcf.cutRx now).updateBackoff now with
    lastTxStart := now
    lastTxDuration := duration }

def notifyMaybeCcaBusyStartNow (now duration : ℤ) : DcfManager :=
  { dcf.updateBackoff now with
    lastBusyStart := now
    lastBusyDuration := duration }

def resetBackoff (now : ℤ) (state : DcfState) : DcfState :=
  let remainingSlots := state.backoffSlots
  let state := if remainingSlots > 0 then state.updateBackoffSlotsNow remainingSlots now else state
  { state.resetCw with accessRequested := false }

/-- `NotifySwitchingStartNow` after its assertions -/
def startSwitching (now duration : ℤ) : DcfManager :=
  { dcf.cutRx now with
    lastNavDuration :=
      if dcf.lastNavEnd > now then now - dcf.lastNavStart else dcf.lastNavDuration
    lastBusyDuration :=
      if dcf.lastBusyStart + dcf.lastBusyDuration > now then now - dcf.lastBusyStart
      else dcf.lastBusyDuration
    lastAckTimeoutEnd := if dcf.lastAckTimeoutEnd > now then now else dcf.lastAckTimeoutEnd
    lastCtsTimeoutEnd := if dcf.lastCtsTimeoutEnd > now then now else dcf.lastCtsTimeoutEnd
    accessTimeout := none
    states := dcf.states.map (resetBackoff now)
    lastSwitchingStart := now
    lastSwitchingDuration := duration }

def notifySwitchingStartNow (now duration : ℤ) : Option DcfManager :=
  if dcf.lastTxStart + dcf.lastTxDuration ≤ now ∧
      dcf.lastSwitchingStart + dcf.lastSwitchingDuration ≤ now then
    some (dcf.startSwitching now duration)
  else none

def notifyNavResetNow (now duration : ℤ) : DcfManager :=
  let dcf := { dcf.updateBackoff now with
    lastNavStart := now
    lastNavDuration := duration }
  (dcf.updateBackoff now).doRestartAccessTimeoutIfNeeded now

def notifyNavStartNow (now duration : ℤ) : Option DcfManager :=
  if dcf.lastNavStart < now then
    let dcf := dcf.updateBackoff now
    let newNavEnd := now + duration
    if newNavEnd > dcf.lastNavEnd then
      some { dcf with
        lastNavStart := now
        lastNavDuration := duration }
    else some dcf
  else none

def notifyAckTimeoutStartNow (now duration : ℤ) : Option DcfManager :=
  if dcf.lastAckTimeoutEnd < now then some { dcf with lastAckTimeoutEnd := now + duration }
  else none

def notifyAckTimeoutResetNow (now : ℤ) : DcfManager :=
  doRestartAccessTimeoutIfNeeded { dcf with lastAckTimeoutEnd := now } now

def notifyCtsTimeoutStartNow (now duration : ℤ) : DcfManager :=
  { dcf with lastCtsTimeoutEnd := now + duration }

def notifyCtsTimeoutResetNow (now : ℤ) : DcfManager :=
  doRestartAccessTimeoutIfNeeded { dcf with lastCtsTimeoutEnd := now } now

end DcfManager

end Ns3Noc.Dcf
