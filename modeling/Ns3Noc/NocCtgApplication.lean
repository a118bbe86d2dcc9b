import Mathlib.Data.Rat.Floor
import Ns3Noc.NocHeader
import Ns3Noc.PartialRuns

/-!
# NocCtgApplication

The traffic source and sink of one node for an iterated communication task graph. Volumes are
doubles in the source and rational numbers here; times are picoseconds. The simulator may
deliver flits and run scheduled events in any order and at any time.
-/
namespace Ns3Noc

structure TaskData where
  id : String
  execTime : ℕ
  deriving DecidableEq, Repr

/-- A dependency between two tasks; the volume is in bits. -/
structure DependentTaskData where
  senderTaskId : String
  senderNodeId : ℕ
  data : ℚ
  receivingTaskId : String
  receivingNodeId : ℕ
  deriving DecidableEq, Repr

/-- The attributes and lists of an application, and what it reads from the registry, with the
bounds that the attribute checkers enforce. The flit size is in bytes. -/
structure NocCtgApplication where
  nodeId : ℕ
  iterations : ℕ := 1
  numberOfFlits : ℕ := 3
  flitSize : ℕ
  nocDimensions : ℕ := 2
  globalClock : ℕ := 1
  period : ℕ := 0
  maxBytes : ℕ := 0
  maxFlits : ℕ := 0
  taskList : List TaskData := []
  remoteTaskList : List DependentTaskData := []
  localTaskList : List DependentTaskData := []
  iterations_pos : 0 < iterations := by decide
  two_le_numberOfFlits : 2 ≤ numberOfFlits := by decide
  flitSize_pos : 0 < flitSize := by decide
  flitSize_lt : flitSize < 2 ^ 29 := by decide
  nocDimensions_pos : 0 < nocDimensions := by decide
  globalClock_pos : 0 < globalClock := by decide

/-- The default attributes; a flit has room for four bytes next to the header. -/
def NocCtgApplication.plain : NocCtgApplication where
  nodeId := 0
  flitSize := 8

/-- A flit as `FlitReceivedCallback` sees it; `size` counts the header of a head flit. -/
structure ReceivedFlit where
  packetType : NocPacketType
  size : ℕ
  ctgIteration : ℕ
  deriving DecidableEq, Repr

/-- A flit that `SendFlit` injects; a head flit names itself as its head flit. -/
structure InjectedFlit where
  uid : ℕ
  headUid : ℕ
  packetType : NocPacketType
  payload : ℕ
  ctgIteration : ℕ
  destinationIndex : ℕ
  destinationNodeId : ℕ
  deriving DecidableEq, Repr

/-- The scheduled member functions. `ProcessFlit` has no argument in the source; here it names
the iteration that it was scheduled for. -/
inductive CtgAction where
  | startSending (iteration : ℕ)
  | sendFlit (iteration : ℕ)
  | processFlit (iteration : ℕ)
  deriving DecidableEq, Repr

structure CtgEvent where
  time : ℕ
  action : CtgAction
  deriving DecidableEq, Repr

/-- The elements of the vectors with one entry for each iteration. An `EventId` is the number
of events that were scheduled before. -/
structure CtgIteration where
  injectionStarted : Bool := false
  totBytes : ℕ := 0
  totFlits : ℕ := 0
  currentFlitIndex : ℕ := 0
  currentHeadFlit : ℕ := 0
  currentDestinationIndex : ℕ := 0
  totalTaskBytes : ℕ := 0
  startEvent : Option ℕ := none
  sendEvent : Option ℕ := none

/-- The members that change during a simulation, the events and the flit traces. -/
structure CtgState where
  currentIteration : ℕ := 0
  numberOfFlits : ℕ
  executionAvailabilityTime : ℕ := 0
  receivedData : ℕ → ℚ := fun _ => 0
  iteration : ℕ → CtgIteration := fun _ => {}
  scheduled : List CtgEvent := []
  pending : List (ℕ × CtgAction) := []
  flitReceivedTrace : List ReceivedFlit := []
  flitInjectedTrace : List InjectedFlit := []

namespace CtgState

/-- `Simulator::Schedule`. -/
def schedule (s : CtgState) (time : ℕ) (action : CtgAction) : CtgState :=
  { s with
    scheduled := s.scheduled ++ [⟨time, action⟩]
    pending := s.pending ++ [(s.scheduled.length, action)] }

def setIteration (s : CtgState) (i : ℕ) (entry : CtgIteration) : CtgState :=
  { s with iteration := Function.update s.iteration i entry }

/-- `CancelEvents`. -/
def cancelEvents (s : CtgState) (i : ℕ) : CtgState :=
  { s with
    pending := s.pending.filter (fun e => (s.iteration i).sendEvent ≠ some e.1 ∧
      (s.iteration i).startEvent ≠ some e.1) }

end CtgState

/-- The sum of two `uint32_t`. -/
def add32 (m n : ℕ) : ℕ := (m + n) % 2 ^ 32

/-- `bytes * 8 >= data`, where the product is an `uint32_t`. -/
def covers (bytes : ℕ) (data : ℚ) : Prop := data ≤ ((bytes * 8 % 2 ^ 32 : ℕ) : ℚ)

instance (bytes : ℕ) (data : ℚ) : Decidable (covers bytes data) :=
  inferInstanceAs (Decidable (_ ≤ _))

namespace NocCtgApplication
variable (a : NocCtgApplication)

/-- `NocHeader::GetHeaderSize`. -/
def headerSize : ℕ := 2 * a.nocDimensions

def taskListContainsTask (taskId : String) : Bool := a.taskList.any (fun t => t.id == taskId)

/-- `m_totalExecTime`, computed by `SetTaskList`. -/
def totalExecTime : ℕ := a.taskList.foldl (fun time t => time + t.execTime) 0

/-- `m_totalData`, computed by `SetRemoteTaskList`. -/
def totalData : ℚ :=
  a.remoteTaskList.foldl (fun totalData d =>
    if a.taskListContainsTask d.receivingTaskId then totalData + d.data else totalData) 0

def containsNotDependentTask : Bool :=
  a.localTaskList.any (fun d =>
    a.remoteTaskList.all (fun remote => d.senderTaskId != remote.receivingTaskId))

/-- The clock cycle after the one that contains the time. -/
def nextClock (time : ℕ) : ℕ :=
  a.globalClock * (1 + (time + a.globalClock - 1) / a.globalClock)

def scheduleStartEvent (s : CtgState) (now i : ℕ) : CtgState :=
  if (a.containsNotDependentTask ∨ s.receivedData i = a.totalData) ∧ 0 < a.localTaskList.length then
    let delay := if (s.iteration i).injectionStarted then 0
      else a.totalExecTime + if a.containsNotDependentTask then a.period * i else 0
    let clock := a.nextClock (max now s.executionAvailabilityTime + delay)
    let entry := { s.iteration i with
      injectionStarted := true
      startEvent := some s.scheduled.length }
    { (s.setIteration i entry).schedule clock (.startSending i) with
      executionAvailabilityTime := clock }
  else s

def startApplication (now : ℕ) : CtgState :=
  (List.range a.iterations).foldl (fun s i =>
    a.scheduleStartEvent ((s.setIteration i {}).cancelEvents i) now i)
    { numberOfFlits := a.numberOfFlits }

def stopApplication (s : CtgState) : CtgState :=
  (List.range a.iterations).foldl CtgState.cancelEvents s

def scheduleNextTx (s : CtgState) (now i : ℕ) : CtgState :=
  if (a.maxBytes = 0 ∨ (s.iteration i).totBytes < a.maxBytes) ∧
      (a.maxFlits = 0 ∨ (s.iteration i).totFlits < a.maxFlits) then
    let time := if (s.iteration i).totBytes = 0 then now else a.nextClock now
    (s.setIteration i { s.iteration i with sendEvent := some s.scheduled.length }).schedule time
      (.sendFlit i)
  else a.stopApplication s

/-- The size without the header. No flit is larger than `flitSize`, so eight times this size is
an `uint32_t`. -/
def dataSize (flit : ReceivedFlit) : ℕ :=
  if flit.packetType = .head then flit.size - a.headerSize else flit.size

/-- What `FlitReceivedCallback` schedules for an iteration whose data has arrived. -/
def dataArrived (s : CtgState) (now i : ℕ) : CtgState :=
  if a.localTaskList.length = 0 then
    let time := a.totalExecTime + max now s.executionAvailabilityTime
    { s.schedule time (.processFlit i) with executionAvailabilityTime := time }
  else if !a.containsNotDependentTask ∧
      (s.iteration i).currentDestinationIndex < a.localTaskList.length then
    a.scheduleStartEvent s now i
  else s

def recordFlit (s : CtgState) (flit : ReceivedFlit) : CtgState :=
  { s with
    flitReceivedTrace := s.flitReceivedTrace ++ [flit]
    receivedData := Function.update s.receivedData flit.ctgIteration
      (s.receivedData flit.ctgIteration + (a.dataSize flit * 8 : ℕ)) }

/-- The data of the current iteration is complete. -/
def nextIteration (s : CtgState) (now : ℕ) : CtgState :=
  let i := s.currentIteration
  let s := { s with receivedData := Function.update s.receivedData i a.totalData }
  { a.dataArrived s now i with currentIteration := i + 1 }

/-- `FlitReceivedCallback`. -/
def flitReceivedCallback (s : CtgState) (now : ℕ) (flit : ReceivedFlit) : Option CtgState :=
  if flit.ctgIteration < a.iterations then
    let s := a.recordFlit s flit
    if s.currentIteration < a.iterations ∧ a.totalData ≤ s.receivedData s.currentIteration then
      some (a.nextIteration s now)
    else some s
  else none

/-- The flits that a volume needs in a single packet. The test for the head flit's smaller
payload is an `uint64_t` expression. -/
def upperValue (data : ℚ) : ℕ :=
  let upperValue := ⌈data / 8 / a.flitSize⌉₊
  let room : ℤ := ((upperValue - 1) * a.flitSize + a.flitSize - a.headerSize) % 2 ^ 64
  if (room : ℚ) < data / 8 then upperValue + 1 else upperValue

/-- The type and the payload of the next flit of an iteration. -/
def nextFlit (numberOfFlits : ℕ) (entry : CtgIteration) (data : ℚ) : NocPacketType × ℕ :=
  if entry.currentFlitIndex = 0 then (.head, a.flitSize - a.headerSize)
  else if entry.currentFlitIndex + 1 = numberOfFlits ∨
      covers (add32 entry.totalTaskBytes a.flitSize) data then (.tail, a.flitSize)
  else (.data, a.flitSize)

/-- How `SendFlit` counts an injected flit. -/
def countFlit (numberOfFlits : ℕ) (entry : CtgIteration) (data : ℚ) (payload : ℕ) :
    CtgIteration :=
  let index := if entry.currentFlitIndex + 1 = numberOfFlits then 0
    else entry.currentFlitIndex + 1
  let totalTaskBytes := add32 entry.totalTaskBytes payload
  let entry := { entry with
    totBytes := add32 entry.totBytes payload
    totFlits := add32 entry.totFlits 1 }
  if covers totalTaskBytes data then
    { entry with
      currentFlitIndex := 0
      currentDestinationIndex := entry.currentDestinationIndex + 1
      totalTaskBytes := 0 }
  else { entry with currentFlitIndex := index, totalTaskBytes := totalTaskBytes }

/-- The entry of an iteration with the head flit of the packet that the next flit belongs to. -/
def openPacket (s : CtgState) (i : ℕ) : CtgIteration :=
  if (s.iteration i).currentFlitIndex = 0 then
    { s.iteration i with currentHeadFlit := s.flitInjectedTrace.length }
  else s.iteration i

/-- The flit that is created for an iteration. -/
def createFlit (s : CtgState) (i : ℕ) (d : DependentTaskData) : InjectedFlit :=
  let entry := openPacket s i
  let next := a.nextFlit s.numberOfFlits entry d.data
  ⟨s.flitInjectedTrace.length, entry.currentHeadFlit, next.1, next.2, i,
    entry.currentDestinationIndex, d.receivingNodeId⟩

def injectFlit (s : CtgState) (i : ℕ) (d : DependentTaskData) : CtgState :=
  let flit := a.createFlit s i d
  { s with flitInjectedTrace := s.flitInjectedTrace ++ [flit] }.setIteration i
    (countFlit s.numberOfFlits (openPacket s i) d.data flit.payload)

/-- `SendFlit`. It lowers `m_numberOfFlits` to what the current volume needs. -/
def sendFlit (s : CtgState) (now i : ℕ) : Option CtgState := do
  let entry := s.iteration i
  let d ← a.localTaskList[entry.currentDestinationIndex]?
  let s := { s with numberOfFlits := min s.numberOfFlits (a.upperValue d.data) }
  if s.numberOfFlits = 0 then none
  else if a.nodeId = d.receivingNodeId then
    if entry.currentDestinationIndex + 1 < a.localTaskList.length then
      some (a.scheduleNextTx (s.setIteration i { entry with
        currentDestinationIndex := entry.currentDestinationIndex + 1 }) now i)
    else some s
  else if entry.currentFlitIndex = 0 ∧ a.flitSize < a.headerSize then none
  else
    let s := a.injectFlit s i d
    if (s.iteration i).currentDestinationIndex < a.localTaskList.length then
      some (a.scheduleNextTx s now i)
    else some s

/-- A scheduled event runs. `StartSending` only calls `ScheduleNextTx`. -/
def fire (s : CtgState) (now n : ℕ) : Option CtgState := do
  let e ← s.pending[n]?
  let s := { s with pending := s.pending.eraseIdx n }
  match e.2 with
  | .startSending i => some (a.scheduleNextTx s now i)
  | .sendFlit i => a.sendFlit s now i
  | .processFlit _ => some s

end NocCtgApplication

/-- What the simulator does with an application. -/
inductive CtgStep where
  | flitReceived (now : ℕ) (flit : ReceivedFlit)
  | fire (now n : ℕ)

def NocCtgApplication.step (a : NocCtgApplication) (s : CtgState) : CtgStep → Option CtgState
  | .flitReceived now flit => a.flitReceivedCallback s now flit
  | .fire now n => a.fire s now n

end Ns3Noc
