import Ns3Noc.FlowMonitor
import Ns3Noc.PartialRuns

/-!
# Accounts of the flow monitor

While only tracked packets are reported as dropped, each transmitted packet is either received, lost or
tracked, and the sums of delays and jitter are those of the received packets.
-/
namespace Ns3Noc

open KeyedTables PartialRuns

/-- The sum of the absolute differences of neighbours -/
def variation : List ℤ → ℤ
  | a :: b :: l => |b - a| + variation (b :: l)
  | _ => 0

theorem variation_append {l : List ℤ} {a : ℤ} (h : l.getLast? = some a) (b : ℤ) :
    variation (l ++ [b]) = variation l + |b - a| := by
  induction l with
  | nil => simp at h
  | cons c l ih =>
    cases l with
    | nil =>
      obtain rfl : c = a := by simpa using h
      simp [variation]
    | cons d l =>
      rw [List.getLast?_cons_cons] at h
      rw [List.cons_append, List.cons_append, variation, variation, ← List.cons_append, ih h]
      ring

/-- What the statistics of a flow should say -/
structure FlowAccount (stats : FlowStats) (transmitted lost : ℕ) (delays : List ℤ) : Prop where
  txPackets : stats.txPackets.toNat = transmitted
  rxPackets : stats.rxPackets.toNat = delays.length
  lostPackets : stats.lostPackets.toNat = lost
  delaySum : stats.delaySum = delays.sum
  jitterSum : stats.jitterSum = variation delays

namespace FlowStats

@[simp] theorem transmit_txPackets (stats : FlowStats) (now : ℤ) (packetSize : UInt32) :
    (stats.transmit now packetSize).txPackets = stats.txPackets + 1 := by
  simp only [transmit]
  split <;> rfl

theorem transmit_others (stats : FlowStats) (now : ℤ) (packetSize : UInt32) :
    (stats.transmit now packetSize).rxPackets = stats.rxPackets ∧
      (stats.transmit now packetSize).lostPackets = stats.lostPackets ∧
      (stats.transmit now packetSize).delaySum = stats.delaySum ∧
      (stats.transmit now packetSize).jitterSum = stats.jitterSum ∧
      (stats.transmit now packetSize).lastDelay = stats.lastDelay := by
  simp only [transmit]
  split <;> exact ⟨rfl, rfl, rfl, rfl, rfl⟩

theorem addDelay_jitterSum (stats : FlowStats) (delay : ℤ) :
    (stats.addDelay delay).jitterSum =
      stats.jitterSum + if stats.rxPackets > 0 then |delay - stats.lastDelay| else 0 := by
  by_cases hrx : stats.rxPackets > 0
  · simp only [addDelay, if_pos hrx]
    split
    · rename_i hpos
      simp only [abs_of_neg (show delay - stats.lastDelay < 0 by omega)]
      omega
    · rename_i hpos
      simp only [abs_of_nonneg (show 0 ≤ delay - stats.lastDelay by omega)]
      omega
  · simp only [addDelay, if_neg hrx, add_zero]

theorem addDelay_others (stats : FlowStats) (delay : ℤ) :
    (stats.addDelay delay).txPackets = stats.txPackets ∧
      (stats.addDelay delay).rxPackets = stats.rxPackets ∧
      (stats.addDelay delay).lostPackets = stats.lostPackets ∧
      (stats.addDelay delay).delaySum = stats.delaySum + delay ∧
      (stats.addDelay delay).lastDelay = delay := by
  simp only [addDelay]
  split
  · split <;> exact ⟨rfl, rfl, rfl, rfl, trivial⟩
  · exact ⟨rfl, rfl, rfl, rfl, trivial⟩

theorem receive_others (stats : FlowStats) (now minTime : ℤ) (packetSize forwarded : UInt32) :
    (stats.receive now minTime packetSize forwarded).txPackets = stats.txPackets ∧
      (stats.receive now minTime packetSize forwarded).rxPackets = stats.rxPackets + 1 ∧
      (stats.receive now minTime packetSize forwarded).lostPackets = stats.lostPackets ∧
      (stats.receive now minTime packetSize forwarded).delaySum = stats.delaySum ∧
      (stats.receive now minTime packetSize forwarded).jitterSum = stats.jitterSum ∧
      (stats.receive now minTime packetSize forwarded).lastDelay = stats.lastDelay := by
  simp only [receive]
  split
  · exact ⟨rfl, rfl, rfl, rfl, rfl, rfl⟩
  · split <;> exact ⟨rfl, rfl, rfl, rfl, rfl, rfl⟩

end FlowStats

theorem toNat_succ {n : UInt32} (h : n.toNat + 1 < 2 ^ 32) : (n + 1).toNat = n.toNat + 1 := by
  rw [UInt32.toNat_add, UInt32.toNat_one, Nat.mod_eq_of_lt h]

/-- The account also remembers the last delay, for the next jitter. -/
structure OpenAccount (stats : FlowStats) (transmitted lost : ℕ) (delays : List ℤ) : Prop
    extends FlowAccount stats transmitted lost delays where
  lastDelay : ∀ delay, delays.getLast? = some delay → stats.lastDelay = delay

namespace OpenAccount

variable {stats : FlowStats} {transmitted lost : ℕ} {delays : List ℤ}

theorem opened : OpenAccount {} 0 0 [] := ⟨⟨rfl, rfl, rfl, rfl, rfl⟩, nofun⟩

theorem transmit (h : OpenAccount stats transmitted lost delays) (hlt : transmitted + 1 < 2 ^ 32)
    (now : ℤ) (packetSize : UInt32) :
    OpenAccount (stats.transmit now packetSize) (transmitted + 1) lost delays := by
  obtain ⟨hrx, hlost, hdelay, hjitter, hlast⟩ := stats.transmit_others now packetSize
  refine ⟨⟨?_, ?_, ?_, ?_, ?_⟩, ?_⟩
  · rw [FlowStats.transmit_txPackets, toNat_succ (h.txPackets ▸ hlt), h.txPackets]
  · rw [hrx, h.rxPackets]
  · rw [hlost, h.lostPackets]
  · rw [hdelay, h.delaySum]
  · rw [hjitter, h.jitterSum]
  · rw [hlast]
    exact h.lastDelay

theorem receive (h : OpenAccount stats transmitted lost delays) (hlt : delays.length + 1 < 2 ^ 32)
    (delay now minTime : ℤ) (packetSize forwarded : UInt32) :
    OpenAccount ((stats.addDelay delay).receive now minTime packetSize forwarded) transmitted lost
      (delays ++ [delay]) := by
  obtain ⟨htx, hrx, hlost, hdelay, hlast⟩ := stats.addDelay_others delay
  obtain ⟨htx', hrx', hlost', hdelay', hjitter', hlast'⟩ :=
    (stats.addDelay delay).receive_others now minTime packetSize forwarded
  refine ⟨⟨?_, ?_, ?_, ?_, ?_⟩, ?_⟩
  · rw [htx', htx, h.txPackets]
  · rw [hrx', hrx, toNat_succ (h.rxPackets ▸ hlt), h.rxPackets, List.length_append]
    rfl
  · rw [hlost', hlost, h.lostPackets]
  · rw [hdelay', hdelay, h.delaySum, List.sum_append, List.sum_singleton]
  · rw [hjitter', FlowStats.addDelay_jitterSum, h.jitterSum]
    have hpos : stats.rxPackets > 0 ↔ 0 < delays.length := by
      rw [← h.rxPackets, gt_iff_lt, UInt32.lt_iff_toNat_lt, UInt32.toNat_zero]
    cases hd : delays.getLast? with
    | none =>
      obtain rfl := List.getLast?_eq_none_iff.mp hd
      rw [if_neg (by simp [hpos])]
      rfl
    | some last =>
      have hne : delays ≠ [] := by
        rintro rfl
        simp at hd
      rw [if_pos (hpos.mpr (List.length_pos_iff.mpr hne)), variation_append hd, h.lastDelay last hd]
  · rw [hlast', hlast]
    intro d hd
    rw [List.getLast?_append, List.getLast?_singleton] at hd
    simpa using hd

/-- Several packets are counted as lost. -/
theorem lose (h : OpenAccount stats transmitted lost delays) {n : ℕ} (hlt : lost + n < 2 ^ 32)
    (dropped : Dropped) :
    OpenAccount { stats with lostPackets := stats.lostPackets + UInt32.ofNat n, dropped }
      transmitted (lost + n) delays := by
  refine ⟨⟨h.txPackets, h.rxPackets, ?_, h.delaySum, h.jitterSum⟩, h.lastDelay⟩
  rw [UInt32.toNat_add, UInt32.toNat_ofNat', h.lostPackets, Nat.add_mod_mod, Nat.mod_eq_of_lt hlt]

end OpenAccount

/-! ## The runs that conserve packets -/

/-- The number of these packets that belong to the flow -/
def ofFlow (flowId : UInt32) (packets : List FlowPacket) : ℕ := packets.countP (·.1 = flowId)

theorem ofFlow_append (flowId : UInt32) (packets packets' : List FlowPacket) :
    ofFlow flowId (packets ++ packets') = ofFlow flowId packets + ofFlow flowId packets' :=
  List.countP_append

theorem ofFlow_singleton (flowId : UInt32) (packet : FlowPacket) :
    ofFlow flowId [packet] = if packet.1 = flowId then 1 else 0 := by
  rw [ofFlow, List.countP_singleton]
  simp

namespace MonitorRun

def firstTxTime (s : MonitorRun) (packet : FlowPacket) : ℤ := (find s.transmitted packet).getD 0

/-- The delays of the received packets of a flow, in the order of their reception -/
def delays (s : MonitorRun) (flowId : UInt32) : List ℤ :=
  (s.received.filter (·.1.1 = flowId)).map fun row => row.2 - s.firstTxTime row.1

def trackedKeys (s : MonitorRun) : List FlowPacket := s.monitor.trackedPackets.map Prod.fst

structure Conserved (s : MonitorRun) : Prop where
  account : ∀ flowId, FlowAccount (s.monitor.getStatsForFlow flowId)
    (ofFlow flowId (s.transmitted.map Prod.fst)) (ofFlow flowId s.lost) (s.delays flowId)
  conserved : ∀ flowId, (s.monitor.getStatsForFlow flowId).txPackets.toNat =
    (s.monitor.getStatsForFlow flowId).rxPackets.toNat +
      (s.monitor.getStatsForFlow flowId).lostPackets.toNat + ofFlow flowId s.trackedKeys
  once : (s.received.map Prod.fst ++ s.lost).Nodup

/-- A packet is first transmitted once. -/
def Legal (s : MonitorRun) : FlowReport → Prop
  | .firstTx _ flowId packetId _ => (flowId, packetId) ∉ s.transmitted.map Prod.fst
  | _ => True

/-- Only tracked packets are dropped, for a reason that is not the largest number, and no flow has so
many packets that their number wraps. -/
def Sound (s : MonitorRun) : FlowReport → Prop
  | .firstTx _ flowId _ _ => (s.monitor.getStatsForFlow flowId).txPackets.toNat + 1 < 2 ^ 32
  | .drop _ flowId packetId _ reasonCode =>
    (flowId, packetId) ∈ s.trackedKeys ∧ reasonCode.toNat + 1 < 2 ^ 32
  | _ => True

structure Balanced (s : MonitorRun) : Prop where
  enabled : s.monitor.enabled = true
  nodup : (s.transmitted.map Prod.fst).Nodup
  perm : (s.received.map Prod.fst ++ s.lost ++ s.trackedKeys).Perm (s.transmitted.map Prod.fst)
  firstSeen : ∀ row ∈ s.monitor.trackedPackets,
    find s.transmitted row.1 = some row.2.firstSeenTime
  known : ∀ packet ∈ s.trackedKeys, (s.monitor.flowStats packet.1).isSome
  account : ∀ flowId, OpenAccount (s.monitor.getStatsForFlow flowId)
    (ofFlow flowId (s.transmitted.map Prod.fst)) (ofFlow flowId s.lost) (s.delays flowId)

namespace Balanced

variable {s : MonitorRun}

theorem length_delays (s : MonitorRun) (flowId : UInt32) :
    (s.delays flowId).length = ofFlow flowId (s.received.map Prod.fst) := by
  rw [delays, List.length_map, ofFlow, List.countP_map, List.countP_eq_length_filter]
  rfl

theorem total (h : s.Balanced) (flowId : UInt32) :
    ofFlow flowId (s.transmitted.map Prod.fst) =
      (s.delays flowId).length + ofFlow flowId s.lost + ofFlow flowId s.trackedKeys := by
  rw [length_delays, ← ofFlow_append, ← ofFlow_append]
  exact (h.perm.countP_eq _).symm

theorem conserved (h : s.Balanced) : s.Conserved where
  account flowId := (h.account flowId).toFlowAccount
  conserved flowId := by
    rw [(h.account flowId).txPackets, (h.account flowId).rxPackets,
      (h.account flowId).lostPackets, h.total]
  once := (List.nodup_append.mp (h.perm.nodup_iff.mpr h.nodup)).1

theorem trackedKeys_nodup (h : s.Balanced) : s.trackedKeys.Nodup :=
  (List.nodup_append.mp (h.perm.nodup_iff.mpr h.nodup)).2.1

theorem mem_transmitted (h : s.Balanced) {packet : FlowPacket} (hp : packet ∈ s.trackedKeys) :
    packet ∈ s.transmitted.map Prod.fst :=
  h.perm.subset (List.mem_append_right _ hp)

theorem start (now minTime : ℤ) : (MonitorRun.start now minTime).Balanced where
  enabled := rfl
  nodup := List.nodup_nil
  perm := .refl _
  firstSeen := nofun
  known := nofun
  account _ := .opened

end Balanced

end MonitorRun

end Ns3Noc
