import Mathlib
import Ns3Noc.KeyedTables

/-!
# FlowMonitor

Probes report what happens to packets. The monitor tracks a packet from its first transmission until
it is received, dropped or too old, and counts what happens in each flow.
-/
namespace Ns3Noc

open KeyedTables

/-- `packetsDropped` and `bytesDropped`, which are resized together -/
structure Dropped where
  packets : List UInt32
  bytes : List UInt64
  size_eq : bytes.length = packets.length
  deriving DecidableEq

namespace Dropped

def none : Dropped := ⟨[], [], rfl⟩

/-- Both vectors get an entry for each index below `size`. -/
def resize (d : Dropped) (size : UInt32) : Dropped :=
  let n := size.toNat - d.packets.length
  ⟨d.packets ++ List.replicate n 0, d.bytes ++ List.replicate n 0, by simp [d.size_eq]⟩

/-- The index is not checked: where `reasonCode + 1` wraps there may be no entry. -/
def add (d : Dropped) (packetSize reasonCode : UInt32) : Option Dropped :=
  let d := d.resize (reasonCode + 1)
  if reasonCode.toNat < d.packets.length then
    some ⟨d.packets.modify reasonCode.toNat (· + 1),
      d.bytes.modify reasonCode.toNat (· + packetSize.toUInt64), by simp [d.size_eq]⟩
  else Option.none

theorem add_isSome (d : Dropped) (packetSize : UInt32) {reasonCode : UInt32}
    (h : reasonCode.toNat + 1 < 2 ^ 32) : (d.add packetSize reasonCode).isSome := by
  have hsucc : (reasonCode + 1).toNat = reasonCode.toNat + 1 := by
    rw [UInt32.toNat_add, UInt32.toNat_one, Nat.mod_eq_of_lt h]
  have hlt : reasonCode.toNat < (d.resize (reasonCode + 1)).packets.length := by
    simp only [resize, List.length_append, List.length_replicate, hsucc]
    omega
  rw [add, if_pos hlt]
  rfl

end Dropped

namespace FlowProbe

structure FlowStats where
  dropped : Dropped := .none
  delayFromFirstProbeSum : ℤ := 0
  bytes : UInt64 := 0
  packets : UInt32 := 0

def addPacketStats (stats : UInt32 → FlowStats) (flowId packetSize : UInt32)
    (delayFromFirstProbe : ℤ) : UInt32 → FlowStats :=
  let flow := stats flowId
  Function.update stats flowId { flow with
    delayFromFirstProbeSum := flow.delayFromFirstProbeSum + delayFromFirstProbe
    bytes := flow.bytes + packetSize.toUInt64
    packets := flow.packets + 1 }

def addPacketDropStats (stats : UInt32 → FlowStats) (flowId packetSize reasonCode : UInt32) :
    Option (UInt32 → FlowStats) :=
  let flow := stats flowId
  (flow.dropped.add packetSize reasonCode).map fun dropped =>
    Function.update stats flowId { flow with dropped }

end FlowProbe

structure TrackedPacket where
  firstSeenTime : ℤ
  lastSeenTime : ℤ
  timesForwarded : UInt32
  deriving DecidableEq

def TrackedPacket.expired (tracked : TrackedPacket) (now maxDelay : ℤ) : Bool :=
  now - tracked.lastSeenTime ≥ maxDelay

/-- A histogram is the list of the values added to it. -/
structure FlowStats where
  timeFirstTxPacket : ℤ := 0
  timeFirstRxPacket : ℤ := 0
  timeLastTxPacket : ℤ := 0
  timeLastRxPacket : ℤ := 0
  delaySum : ℤ := 0
  jitterSum : ℤ := 0
  lastDelay : ℤ := 0
  txBytes : UInt64 := 0
  rxBytes : UInt64 := 0
  txPackets : UInt32 := 0
  rxPackets : UInt32 := 0
  lostPackets : UInt32 := 0
  timesForwarded : UInt32 := 0
  delayHistogram : List ℤ := []
  jitterHistogram : List ℤ := []
  packetSizeHistogram : List UInt32 := []
  dropped : Dropped := .none
  flowInterruptionsHistogram : List ℤ := []

namespace FlowStats

/-- The flow's statistics after a first transmission -/
def transmit (stats : FlowStats) (now : ℤ) (packetSize : UInt32) : FlowStats :=
  let stats := { stats with
    txBytes := stats.txBytes + packetSize.toUInt64
    txPackets := stats.txPackets + 1 }
  let stats := if stats.txPackets = 1 then { stats with timeFirstTxPacket := now } else stats
  { stats with timeLastTxPacket := now }

/-- The delay and the jitter of a received packet are added. -/
def addDelay (stats : FlowStats) (delay : ℤ) : FlowStats :=
  let stats := { stats with
    delaySum := stats.delaySum + delay, delayHistogram := stats.delayHistogram ++ [delay] }
  let stats :=
    if stats.rxPackets > 0 then
      let jitter := stats.lastDelay - delay
      if jitter > 0 then
        { stats with
          jitterSum := stats.jitterSum + jitter, jitterHistogram := stats.jitterHistogram ++ [jitter] }
      else
        { stats with
          jitterSum := stats.jitterSum - jitter
          jitterHistogram := stats.jitterHistogram ++ [-jitter] }
    else stats
  { stats with lastDelay := delay }

/-- The packet itself is counted. -/
def receive (stats : FlowStats) (now flowInterruptionsMinTime : ℤ) (packetSize : UInt32)
    (timesForwarded : UInt32) : FlowStats :=
  let stats := { stats with
    rxBytes := stats.rxBytes + packetSize.toUInt64
    packetSizeHistogram := stats.packetSizeHistogram ++ [packetSize]
    rxPackets := stats.rxPackets + 1 }
  let stats :=
    if stats.rxPackets = 1 then { stats with timeFirstRxPacket := now }
    else
      let interArrivalTime := now - stats.timeLastRxPacket
      if interArrivalTime > flowInterruptionsMinTime then
        { stats with
          flowInterruptionsHistogram := stats.flowInterruptionsHistogram ++ [interArrivalTime] }
      else stats
  { stats with timeLastRxPacket := now, timesForwarded := stats.timesForwarded + timesForwarded }

end FlowStats

/-- A flow and a packet id in it -/
abbrev FlowPacket : Type := UInt32 × UInt32

structure FlowMonitor where
  flowStats : UInt32 → Option FlowStats
  trackedPackets : List (FlowPacket × TrackedPacket)
  probes : ℕ → UInt32 → FlowProbe.FlowStats
  enabled : Bool
  flowInterruptionsMinTime : ℤ

namespace FlowMonitor

def getStatsForFlow (m : FlowMonitor) (flowId : UInt32) : FlowStats :=
  (m.flowStats flowId).getD {}

def setStats (m : FlowMonitor) (flowId : UInt32) (stats : FlowStats) : FlowMonitor :=
  { m with flowStats := Function.update m.flowStats flowId (some stats) }

/-- `m_trackedPackets[key] = tracked` -/
def track (m : FlowMonitor) (key : FlowPacket) (tracked : TrackedPacket) : FlowMonitor :=
  { m with trackedPackets :=
      if (find m.trackedPackets key).isSome then put m.trackedPackets key tracked
      else m.trackedPackets ++ [(key, tracked)] }

def addPacketStats (m : FlowMonitor) (probe : ℕ) (flowId packetSize : UInt32) (delay : ℤ) :
    FlowMonitor :=
  let probeStats := FlowProbe.addPacketStats (m.probes probe) flowId packetSize delay
  { m with probes := Function.update m.probes probe probeStats }

def reportFirstTx (m : FlowMonitor) (now : ℤ) (probe : ℕ) (flowId packetId packetSize : UInt32) :
    FlowMonitor :=
  if ¬m.enabled then m
  else
    let m := m.track (flowId, packetId) ⟨now, now, 0⟩
    let m := m.addPacketStats probe flowId packetSize 0
    m.setStats flowId ((m.getStatsForFlow flowId).transmit now packetSize)

def reportForwarding (m : FlowMonitor) (now : ℤ) (probe : ℕ)
    (flowId packetId packetSize : UInt32) : FlowMonitor :=
  if ¬m.enabled then m
  else
    match find m.trackedPackets (flowId, packetId) with
    | none => m
    | some tracked =>
      let tracked' := { tracked with
        timesForwarded := tracked.timesForwarded + 1, lastSeenTime := now }
      let m := { m with trackedPackets := put m.trackedPackets (flowId, packetId) tracked' }
      m.addPacketStats probe flowId packetSize (now - tracked.firstSeenTime)

def reportLastRx (m : FlowMonitor) (now : ℤ) (probe : ℕ) (flowId packetId packetSize : UInt32) :
    FlowMonitor :=
  if ¬m.enabled then m
  else
    match find m.trackedPackets (flowId, packetId) with
    | none => m
    | some tracked =>
      let delay := now - tracked.firstSeenTime
      let m := m.addPacketStats probe flowId packetSize delay
      let stats := (m.getStatsForFlow flowId).addDelay delay
      let stats := stats.receive now m.flowInterruptionsMinTime packetSize tracked.timesForwarded
      let m := m.setStats flowId stats
      { m with trackedPackets := remove m.trackedPackets (flowId, packetId) }

/-- A drop is counted before the packet is looked up. -/
def reportDrop (m : FlowMonitor) (probe : ℕ) (flowId packetId packetSize reasonCode : UInt32) :
    Option FlowMonitor :=
  if ¬m.enabled then some m
  else do
    let probeStats ←
      FlowProbe.addPacketDropStats (m.probes probe) flowId packetSize reasonCode
    let m := { m with probes := Function.update m.probes probe probeStats }
    let stats := m.getStatsForFlow flowId
    let stats := { stats with lostPackets := stats.lostPackets + 1 }
    let dropped ← stats.dropped.add packetSize reasonCode
    let m := m.setStats flowId { stats with dropped }
    some { m with trackedPackets := remove m.trackedPackets (flowId, packetId) }

/-- The loop of `CheckForLostPackets`, which stops where a tracked packet's flow has no statistics -/
def loseExpired (now maxDelay : ℤ) : List (FlowPacket × TrackedPacket) →
    (UInt32 → Option FlowStats) → Option (List (FlowPacket × TrackedPacket) × (UInt32 → Option FlowStats))
  | [], flowStats => some ([], flowStats)
  | (key, tracked) :: rows, flowStats =>
    if tracked.expired now maxDelay then do
      let stats ← flowStats key.1
      loseExpired now maxDelay rows
        (Function.update flowStats key.1 (some { stats with lostPackets := stats.lostPackets + 1 }))
    else do
      let (rows, flowStats) ← loseExpired now maxDelay rows flowStats
      some ((key, tracked) :: rows, flowStats)

def checkForLostPackets (m : FlowMonitor) (now maxDelay : ℤ) : Option FlowMonitor := do
  let (trackedPackets, flowStats) ← loseExpired now maxDelay m.trackedPackets m.flowStats
  some { m with trackedPackets, flowStats }

end FlowMonitor

/-! ## Runs -/

inductive FlowReport where
  | firstTx (probe : ℕ) (flowId packetId packetSize : UInt32)
  | forwarding (probe : ℕ) (flowId packetId packetSize : UInt32)
  | lastRx (probe : ℕ) (flowId packetId packetSize : UInt32)
  | drop (probe : ℕ) (flowId packetId packetSize reasonCode : UInt32)
  | checkForLostPackets (maxDelay : ℤ)
  | wait (time : ℕ)

/-- The monitor, with the times of all first transmissions and of the receptions it counted, and the
packets it counted as lost. -/
structure MonitorRun where
  now : ℤ
  monitor : FlowMonitor
  transmitted : List (FlowPacket × ℤ)
  received : List (FlowPacket × ℤ)
  lost : List FlowPacket

namespace MonitorRun

def start (now flowInterruptionsMinTime : ℤ) : MonitorRun :=
  ⟨now, ⟨fun _ => none, [], fun _ _ => {}, true, flowInterruptionsMinTime⟩, [], [], []⟩

/-- The tracked packets that a check takes for lost -/
def expired (s : MonitorRun) (maxDelay : ℤ) : List FlowPacket :=
  (s.monitor.trackedPackets.filter fun row =>
    row.2.expired s.now maxDelay).map Prod.fst

def step (s : MonitorRun) : FlowReport → Option MonitorRun
  | .firstTx probe flowId packetId packetSize =>
    some { s with
      monitor := s.monitor.reportFirstTx s.now probe flowId packetId packetSize
      transmitted := s.transmitted ++ [((flowId, packetId), s.now)] }
  | .forwarding probe flowId packetId packetSize =>
    some { s with monitor := s.monitor.reportForwarding s.now probe flowId packetId packetSize }
  | .lastRx probe flowId packetId packetSize =>
    some { s with
      monitor := s.monitor.reportLastRx s.now probe flowId packetId packetSize
      received :=
        if (find s.monitor.trackedPackets (flowId, packetId)).isSome then
          s.received ++ [((flowId, packetId), s.now)]
        else s.received }
  | .drop probe flowId packetId packetSize reasonCode =>
    (s.monitor.reportDrop probe flowId packetId packetSize reasonCode).map fun monitor =>
      { s with monitor, lost := s.lost ++ [(flowId, packetId)] }
  | .checkForLostPackets maxDelay =>
    (s.monitor.checkForLostPackets s.now maxDelay).map fun monitor =>
      { s with monitor, lost := s.lost ++ s.expired maxDelay }
  | .wait time => some { s with now := s.now + time }

end MonitorRun

end Ns3Noc
