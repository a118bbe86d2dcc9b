import Mathlib
import Ns3Noc.NocHeader
import Ns3Noc.SyncDestinations

/-!
# The synchronous application

`SendFlit` runs once for every clock cycle in which an injection is scheduled. At the first flit of a
packet it draws whether to inject at all; `ScheduleNextTx` compares the limits after every flit and
also after a draw that injected nothing, which is counted as a flit.
-/
namespace Ns3Noc.SyncApplication
open TrafficPattern SyncDestinations

inductive TrafficPatternEnum
  | destinationSpecified
  | uniformRandom
  | bits (pattern : BitPattern)
  deriving DecidableEq

/-- The attributes of the application and what it is installed on. `injectionPercent` is the value of
`m_injectionProbability * 100`, and `devices` are the ids of the nodes of `m_devices`. -/
structure SyncConfig where
  injectionPercent : ℚ
  m_size : List ℕ
  numberOfFlits : ℕ
  maxBytes : ℕ
  maxFlits : ℕ
  flitSize : ℕ
  headerSize : ℕ
  trafficPattern : TrafficPatternEnum
  destinationNodeId : ℕ
  sourceNodeId : ℕ
  devices : List ℕ
  globalClock : ℕ

/-- A flit with the uid of its head flit and the node it is addressed to. -/
structure SyncFlit where
  packetType : NocPacketType
  headUid : ℕ
  destination : ℕ
  deriving DecidableEq

/-- The state of the application; `pending` tells whether `m_sendEvent` is scheduled, and `injected`
collects the flits given to `InjectPacket`. -/
structure SyncState where
  currentFlitIndex : ℕ
  currentHeadFlit : ℕ
  totBytes : ℕ
  totFlits : ℕ
  uniformDestination : List ℕ
  pending : Bool
  injected : List SyncFlit
  deriving DecidableEq

def SyncState.init : SyncState := ⟨0, 0, 0, 0, [], false, []⟩

namespace SyncConfig

variable (cfg : SyncConfig)

/-- `m_numberOfFlits`, which keeps 16 bits of the attribute. -/
def m_numberOfFlits : ℕ := cfg.numberOfFlits % 2 ^ 16

/-- The loop for `DestinationSpecified`. -/
def specifiedCoordinates (destinationNodeId : ℕ) : ℕ → List ℕ → Option (List ℕ)
  | _, [] => some []
  | numberOfNodes, value :: m_size =>
    if value = 0 ∨ numberOfNodes = 0 then none
    else (specifiedCoordinates destinationNodeId (numberOfNodes * value % 2 ^ 32) m_size).map
      (destinationNodeId / numberOfNodes % value :: ·)

/-- The loop for `UniformRandom`, with the assertion on each coordinate. -/
def uniformCoordinates : List ℕ → List ℕ → Option (List ℕ)
  | [], _ => some []
  | _ :: _, [] => none
  | value :: m_size, d :: uniformDestination =>
    if d < value then (uniformCoordinates m_size uniformDestination).map (d :: ·) else none

/-- The destination for the given contents of `m_uniformDestination`. -/
def destination (uniformDestination : List ℕ) : Option ℕ := do
  let source ← sourceCoordinates cfg.sourceNodeId 1 cfg.m_size
  let destination ← match cfg.trafficPattern with
    | .destinationSpecified => specifiedCoordinates cfg.destinationNodeId 1 cfg.m_size
    | .uniformRandom => uniformCoordinates cfg.m_size uniformDestination
    | .bits pattern => destinationCoordinates pattern cfg.m_size source
  some (combineCoordinates 1 cfg.m_size destination)

/-- The comparison of `ScheduleNextTx`; a limit of zero is none. -/
def WithinLimits (totBytes totFlits : ℕ) : Prop :=
  (cfg.maxBytes = 0 ∨ totBytes < cfg.maxBytes) ∧ (cfg.maxFlits = 0 ∨ totFlits < cfg.maxFlits)

instance (totBytes totFlits : ℕ) : Decidable (cfg.WithinLimits totBytes totFlits) :=
  inferInstanceAs (Decidable (_ ∧ _))

/-- `CancelEvents` -/
def stopApplication (s : SyncState) : SyncState := { s with pending := false }

/-- A clock of zero fails the assertion of `GetGlobalClock`. -/
def scheduleNextTx (s : SyncState) : Option SyncState :=
  if cfg.injectionPercent = 0 then some (stopApplication s)
  else if cfg.WithinLimits s.totBytes s.totFlits then
    if cfg.globalClock = 0 then none else some { s with pending := true }
  else some (stopApplication s)

/-- The draw `rand () % 100 + 1` -/
def Accepts (randomValue : ℕ) : Prop := ((randomValue % 100 + 1 : ℕ) : ℚ) ≤ cfg.injectionPercent

instance (randomValue : ℕ) : Decidable (cfg.Accepts randomValue) :=
  inferInstanceAs (Decidable (_ ≤ _))

/-- The bytes a flit adds to `m_totBytes`. -/
def flitBytes (index : ℕ) : ℕ := if index = 0 then cfg.flitSize - cfg.headerSize else cfg.flitSize

/-- The call of `InjectPacket` and what follows it; the node with the destination id is looked for
in the devices. -/
def inject (flit : SyncFlit) (s : SyncState) : Option SyncState :=
  if flit.destination ∈ cfg.devices then
    some { s with
      currentFlitIndex := (s.currentFlitIndex + 1) % 2 ^ 16
      currentHeadFlit := flit.headUid
      totBytes := (s.totBytes + cfg.flitBytes s.currentFlitIndex) % 2 ^ 32
      injected := s.injected ++ [flit] }
  else none

/-- The flit of the current index, unless the draw declines a new packet. `uid` is the uid that the
head flit gets. -/
def createFlit (destinationNodeId randomValue uid : ℕ) (s : SyncState) : Option SyncState :=
  if s.currentFlitIndex = 0 then
    if cfg.Accepts randomValue then
      if cfg.flitSize < cfg.headerSize then none
      else cfg.inject ⟨.head, uid, destinationNodeId⟩ s
    else some s
  else if s.currentFlitIndex + 1 = cfg.m_numberOfFlits then
    cfg.inject ⟨.tail, s.currentHeadFlit, destinationNodeId⟩ s
  else cfg.inject ⟨.data, s.currentHeadFlit, destinationNodeId⟩ s

/-- What `SendFlit` does after the flit. -/
def finishFlit (s : SyncState) : Option SyncState :=
  cfg.scheduleNextTx { s with
    currentFlitIndex :=
      if s.currentFlitIndex = cfg.m_numberOfFlits then 0 else s.currentFlitIndex
    totFlits := (s.totFlits + 1) % 2 ^ 32 }

/-- The random destination is drawn again for the first flit of a packet only. -/
def redraw (draws : List ℕ) (s : SyncState) : List ℕ :=
  if cfg.trafficPattern = .uniformRandom ∧ s.currentFlitIndex = 0 then draws
  else s.uniformDestination

/-- `draws` are the coordinates drawn for a random destination, `randomValue` is the outcome of
`rand ()`. -/
def sendFlit (draws : List ℕ) (randomValue uid : ℕ) (s : SyncState) : Option SyncState :=
  if s.pending then do
    let destinationNodeId ← cfg.destination (cfg.redraw draws s)
    let s := { s with pending := false, uniformDestination := cfg.redraw draws s }
    if cfg.sourceNodeId = destinationNodeId then
      if cfg.trafficPattern = .uniformRandom then cfg.scheduleNextTx s else some s
    else if cfg.m_numberOfFlits < 1 then none
    else (cfg.createFlit destinationNodeId randomValue uid s).bind cfg.finishFlit
  else none

inductive Event
  | startApplication
  | stopApplication
  | sendFlit (draws : List ℕ) (randomValue uid : ℕ)
  deriving DecidableEq

def step (s : SyncState) : Event → Option SyncState
  | .startApplication => cfg.scheduleNextTx (stopApplication s)
  | .stopApplication => some (stopApplication s)
  | .sendFlit draws randomValue uid => cfg.sendFlit draws randomValue uid s

end SyncConfig

end Ns3Noc.SyncApplication
