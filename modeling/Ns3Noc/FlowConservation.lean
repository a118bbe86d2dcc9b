import Ns3Noc.FlowAccounts

/-!
# Conservation of packets in the flow monitor

Each report keeps the accounts of all flows balanced, and so does every run of reports.
-/
namespace Ns3Noc

open KeyedTables PartialRuns

def FlowStats.lose (stats : FlowStats) (n : ℕ) : FlowStats :=
  { stats with lostPackets := stats.lostPackets + UInt32.ofNat n }

namespace FlowMonitor

variable {m : FlowMonitor}

theorem getStatsForFlow_setStats (m : FlowMonitor) (flowId : UInt32) (stats : FlowStats)
    (flowId' : UInt32) : (m.setStats flowId stats).getStatsForFlow flowId' =
      if flowId' = flowId then stats else m.getStatsForFlow flowId' := by
  by_cases h : flowId' = flowId
  · subst h
    simp [getStatsForFlow, setStats]
  · simp [getStatsForFlow, setStats, h]

theorem isSome_setStats (m : FlowMonitor) (flowId : UInt32) (stats : FlowStats) {flowId' : UInt32}
    (h : (m.flowStats flowId').isSome) : ((m.setStats flowId stats).flowStats flowId').isSome := by
  by_cases heq : flowId' = flowId
  · simp [setStats, heq]
  · simpa [setStats, heq] using h

/-- Accounts where the statistics of one flow change -/
theorem account_setStats {flowId : UInt32} {stats : FlowStats} {t t' l l' : UInt32 → ℕ}
    {d d' : UInt32 → List ℤ} (h : ∀ f, OpenAccount (m.getStatsForFlow f) (t f) (l f) (d f))
    (hself : OpenAccount stats (t' flowId) (l' flowId) (d' flowId))
    (hother : ∀ f, f ≠ flowId → t' f = t f ∧ l' f = l f ∧ d' f = d f) (f : UInt32) :
    OpenAccount ((m.setStats flowId stats).getStatsForFlow f) (t' f) (l' f) (d' f) := by
  rw [getStatsForFlow_setStats]
  by_cases hf : f = flowId
  · subst hf
    rw [if_pos rfl]
    exact hself
  · obtain ⟨ht, hl, hd⟩ := hother f hf
    rw [if_neg hf, ht, hl, hd]
    exact h f

/-- A check takes the expired packets out and counts them in their flows. -/
theorem loseExpired_eq (now maxDelay : ℤ) (rows : List (FlowPacket × TrackedPacket))
    (flowStats : UInt32 → Option FlowStats) (hknown : ∀ row ∈ rows, (flowStats row.1.1).isSome) :
    ∃ flowStats', loseExpired now maxDelay rows flowStats =
        some (rows.filter fun row => !row.2.expired now maxDelay, flowStats') ∧
      ∀ flowId, flowStats' flowId = (flowStats flowId).map fun stats => stats.lose
        (ofFlow flowId ((rows.filter fun row => row.2.expired now maxDelay).map Prod.fst)) := by
  induction rows generalizing flowStats with
  | nil =>
    refine ⟨flowStats, rfl, fun flowId => ?_⟩
    cases flowStats flowId with
    | none => rfl
    | some stats => simp [ofFlow, FlowStats.lose]
  | cons row rows ih =>
    obtain ⟨key, tracked⟩ := row
    rw [loseExpired]
    cases hexp : tracked.expired now maxDelay with
    | false =>
      obtain ⟨flowStats', heq, hcount⟩ :=
        ih flowStats fun row hrow => hknown row (List.mem_cons_of_mem _ hrow)
      refine ⟨flowStats', ?_, fun flowId => ?_⟩
      · simp [hexp, heq]
      · rw [hcount]
        simp [hexp]
    | true =>
      obtain ⟨stats, hstats⟩ := Option.isSome_iff_exists.mp (hknown (key, tracked) List.mem_cons_self)
      obtain ⟨flowStats', heq, hcount⟩ := ih
        (Function.update flowStats key.1 (some { stats with lostPackets := stats.lostPackets + 1 }))
        fun row hrow => by
          by_cases hkey : row.1.1 = key.1
          · simp [hkey]
          · simpa [hkey] using hknown row (List.mem_cons_of_mem _ hrow)
      refine ⟨flowStats', ?_, fun flowId => ?_⟩
      · simpa [hexp, hstats] using heq
      · rw [hcount]
        by_cases hkey : key.1 = flowId
        · subst hkey
          rw [Function.update_self, hstats]
          simp only [Option.map_some, hexp, List.filter_cons_of_pos, List.map_cons, ofFlow,
            List.countP_cons_of_pos, decide_true]
          rw [FlowStats.lose, FlowStats.lose, add_assoc, UInt32.ofNat_add, add_comm (UInt32.ofNat _)]
          rfl
        · rw [Function.update_of_ne (Ne.symm hkey)]
          simp [hexp, ofFlow, hkey]

/-- A drop with an entry for its reason -/
theorem reportDrop_eq (henabled : m.enabled = true) (probe : ℕ)
    (flowId packetId packetSize : UInt32) {reasonCode : UInt32}
    (hreason : reasonCode.toNat + 1 < 2 ^ 32) :
    ∃ probes dropped, m.reportDrop probe flowId packetId packetSize reasonCode =
      some (({ m with
        probes, trackedPackets := remove m.trackedPackets (flowId, packetId) }).setStats flowId
          { m.getStatsForFlow flowId with
            lostPackets := (m.getStatsForFlow flowId).lostPackets + 1, dropped }) := by
  obtain ⟨probeDropped, hprobe⟩ := Option.isSome_iff_exists.mp
    ((m.probes probe flowId).dropped.add_isSome packetSize hreason)
  obtain ⟨dropped, hdropped⟩ := Option.isSome_iff_exists.mp
    ((m.getStatsForFlow flowId).dropped.add_isSome packetSize hreason)
  refine ⟨Function.update m.probes probe (Function.update (m.probes probe) flowId
    { m.probes probe flowId with dropped := probeDropped }), dropped, ?_⟩
  have hsame : ∀ probes, ({ m with probes } : FlowMonitor).getStatsForFlow flowId =
      m.getStatsForFlow flowId := fun _ => rfl
  rw [reportDrop, if_neg (by simp [henabled]), FlowProbe.addPacketDropStats, hprobe]
  simp only [Option.map_some, Option.bind_eq_bind, Option.bind_some, hsame, hdropped]
  rfl

end FlowMonitor

namespace MonitorRun.Balanced

variable {s : MonitorRun} {flowId packetId : UInt32}

theorem find_append_of_mem {l l' : List (FlowPacket × ℤ)} {packet : FlowPacket}
    (h : packet ∈ l.map Prod.fst) : find (l ++ l') packet = find l packet := by
  obtain ⟨row, hrow, rfl⟩ := List.mem_map.mp h
  rw [find, find, List.find?_append]
  cases hfind : l.find? (·.1 = row.1) with
  | none => exact absurd (decide_eq_true rfl) (List.find?_eq_none.mp hfind row hrow)
  | some row' => rfl

/-- A new transmission says nothing about the delays of received packets. -/
theorem delays_transmitted (h : s.Balanced) (packet : FlowPacket) (m : FlowMonitor)
    (f : UInt32) : MonitorRun.delays { s with
      monitor := m, transmitted := s.transmitted ++ [(packet, s.now)] } f = s.delays f := by
  rw [delays, delays]
  apply List.map_congr_left
  intro row hrow
  have hmem : row.1 ∈ s.transmitted.map Prod.fst := by
    apply h.perm.subset
    apply List.mem_append_left
    apply List.mem_append_left
    exact List.mem_map_of_mem (List.mem_filter.mp hrow).1
  rw [firstTxTime, firstTxTime, find_append_of_mem hmem]

theorem delays_received (s : MonitorRun) (flowId packetId : UInt32) (m : FlowMonitor)
    (f : UInt32) : MonitorRun.delays { s with
      monitor := m, received := s.received ++ [((flowId, packetId), s.now)] } f =
        s.delays f ++ if f = flowId then [s.now - s.firstTxTime (flowId, packetId)] else [] := by
  rw [delays, delays, List.filter_append, List.map_append]
  congr 1
  by_cases hf : f = flowId
  · subst hf
    simp [firstTxTime]
  · simp [hf, Ne.symm hf]

theorem firstTx (h : s.Balanced) (hnew : (flowId, packetId) ∉ s.transmitted.map Prod.fst)
    (hlt : (s.monitor.getStatsForFlow flowId).txPackets.toNat + 1 < 2 ^ 32) (probe : ℕ)
    (packetSize : UInt32) :
    ({ s with
      monitor := s.monitor.reportFirstTx s.now probe flowId packetId packetSize
      transmitted := s.transmitted ++ [((flowId, packetId), s.now)] } : MonitorRun).Balanced := by
  have huntracked : (find s.monitor.trackedPackets (flowId, packetId)).isSome = false := by
    by_contra hsome
    obtain ⟨tracked, hfind⟩ := Option.isSome_iff_exists.mp (Bool.eq_true_of_not_eq_false hsome)
    exact hnew (h.mem_transmitted (List.mem_map_of_mem (mem_of_find hfind)))
  have hmonitor : s.monitor.reportFirstTx s.now probe flowId packetId packetSize =
      ({ s.monitor with
        trackedPackets := s.monitor.trackedPackets ++ 
          [((flowId, packetId), (⟨s.now, s.now, 0⟩ : TrackedPacket))]
        probes := Function.update s.monitor.probes probe
          (FlowProbe.addPacketStats (s.monitor.probes probe) flowId packetSize 0) }).setStats flowId
        ((s.monitor.getStatsForFlow flowId).transmit s.now packetSize) := by
    rw [FlowMonitor.reportFirstTx, if_neg (by simp [h.enabled]), FlowMonitor.track, huntracked]
    rfl
  have hdelays := fun m f => h.delays_transmitted (flowId, packetId) m f
  constructor
  · rw [hmonitor]
    exact h.enabled
  · rw [List.map_append]
    exact h.nodup.append (List.nodup_singleton _) (by simpa using hnew)
  · rw [trackedKeys, hmonitor, List.map_append]
    simp only [FlowMonitor.setStats, List.map_append, ← List.append_assoc]
    exact h.perm.append_right _
  · intro row hrow
    rw [hmonitor] at hrow
    rcases List.mem_append.mp hrow with hold | hrow
    · rw [find_append_of_mem (h.mem_transmitted (List.mem_map_of_mem hold)), h.firstSeen row hold]
    · obtain rfl := List.mem_singleton.mp hrow
      exact (find_append_of_not_mem hnew).trans (find_cons_self _ _ _)
  · intro packet hpacket
    rw [trackedKeys, hmonitor] at hpacket
    rw [hmonitor]
    simp only [FlowMonitor.setStats, List.map_append, List.mem_append] at hpacket
    rcases hpacket with hold | hpacket
    · exact FlowMonitor.isSome_setStats _ _ _ (h.known packet hold)
    · obtain rfl := List.mem_singleton.mp hpacket
      simp [FlowMonitor.setStats]
  · rw [hmonitor]
    rw [(h.account flowId).txPackets] at hlt
    refine FlowMonitor.account_setStats h.account ?_ fun f hf => ⟨?_, rfl, hdelays _ f⟩
    · rw [hdelays, List.map_append, ofFlow_append, List.map_singleton, ofFlow_singleton, if_pos rfl]
      exact (h.account flowId).transmit hlt _ _
    · rw [List.map_append, ofFlow_append, List.map_singleton, ofFlow_singleton, if_neg (Ne.symm hf),
        add_zero]

theorem forwarding (h : s.Balanced) (probe : ℕ) (packetSize : UInt32) :
    ({ s with monitor :=
        s.monitor.reportForwarding s.now probe flowId packetId packetSize } : MonitorRun).Balanced := by
  cases hfind : find s.monitor.trackedPackets (flowId, packetId) with
  | none =>
    have hmonitor : s.monitor.reportForwarding s.now probe flowId packetId packetSize =
        s.monitor := by
      rw [FlowMonitor.reportForwarding, if_neg (by simp [h.enabled]), hfind]
    rw [hmonitor]
    exact h
  | some tracked =>
    have hkeys : ∀ tracked', (put s.monitor.trackedPackets (flowId, packetId) tracked').map Prod.fst =
        s.trackedKeys := fun tracked' => keys_put _ _ _
    rw [FlowMonitor.reportForwarding, if_neg (by simp [h.enabled]), hfind]
    constructor
    · exact h.enabled
    · exact h.nodup
    · rw [trackedKeys]
      simp only [FlowMonitor.addPacketStats, hkeys]
      exact h.perm
    · intro row hrow
      rcases mem_put hrow with rfl | ⟨hold, -⟩
      · exact h.firstSeen ((flowId, packetId), tracked) (mem_of_find hfind)
      · exact h.firstSeen row hold
    · intro packet hpacket
      rw [trackedKeys] at hpacket
      simp only [FlowMonitor.addPacketStats, hkeys] at hpacket
      exact h.known packet hpacket
    · exact h.account

theorem lastRx (h : s.Balanced) (probe : ℕ) (packetSize : UInt32) :
    ({ s with
      monitor := s.monitor.reportLastRx s.now probe flowId packetId packetSize
      received :=
        if (find s.monitor.trackedPackets (flowId, packetId)).isSome then
          s.received ++ [((flowId, packetId), s.now)]
        else s.received } : MonitorRun).Balanced := by
  cases hfind : find s.monitor.trackedPackets (flowId, packetId) with
  | none =>
    have hmonitor : s.monitor.reportLastRx s.now probe flowId packetId packetSize =
        s.monitor := by
      rw [FlowMonitor.reportLastRx, if_neg (by simp [h.enabled]), hfind]
    rw [hmonitor]
    exact h
  | some tracked =>
    obtain ⟨rest, hrows, -, hremove⟩ := perm_of_find h.trackedKeys_nodup hfind
    have hseen := h.firstSeen _ (mem_of_find hfind)
    have hkeys : s.trackedKeys.Perm ((flowId, packetId) :: rest.map Prod.fst) :=
      hrows.map Prod.fst
    have hlt : (s.delays flowId).length + 1 < 2 ^ 32 := by
      have htotal := h.total flowId
      have hpos : 0 < ofFlow flowId s.trackedKeys := by
        rw [ofFlow, hkeys.countP_eq]
        simp
      have hbound := UInt32.toNat_lt (s.monitor.getStatsForFlow flowId).txPackets
      rw [(h.account flowId).txPackets] at hbound
      omega
    rw [FlowMonitor.reportLastRx, if_neg (by simp [h.enabled]), hfind, Option.isSome_some,
      if_pos rfl]
    constructor
    · exact h.enabled
    · exact h.nodup
    · rw [trackedKeys, List.map_append]
      refine List.Perm.trans ?_ h.perm
      refine List.Perm.trans ((List.Perm.refl _).append (hremove.map Prod.fst)) ?_
      refine List.Perm.trans ?_ ((List.Perm.refl _).append hkeys.symm)
      simp only [List.append_assoc]
      apply List.Perm.append_left
      rw [List.map_singleton, List.singleton_append]
      exact List.perm_middle.symm
    · intro row hrow
      exact h.firstSeen row (mem_remove hrow)
    · intro packet hpacket
      obtain ⟨row, hrow, rfl⟩ := List.mem_map.mp hpacket
      exact FlowMonitor.isSome_setStats _ _ _
        (h.known row.1 (List.mem_map_of_mem (mem_remove hrow)))
    · refine FlowMonitor.account_setStats h.account ?_ fun f hf => ⟨rfl, rfl, ?_⟩
      · have hdelay : firstTxTime s (flowId, packetId) = tracked.firstSeenTime := by
          rw [firstTxTime, hseen]
          rfl
        rw [delays_received, if_pos rfl, hdelay]
        exact (h.account flowId).receive hlt _ _ _ _ _
      · rw [delays_received, if_neg hf, List.append_nil]

/-- No more packets of a flow are lost than the counter holds. -/
theorem lost_lt (h : s.Balanced) {n : ℕ} (hn : n ≤ ofFlow flowId s.trackedKeys) :
    ofFlow flowId s.lost + n < 2 ^ 32 := by
  have htotal := h.total flowId
  have hbound := UInt32.toNat_lt (s.monitor.getStatsForFlow flowId).txPackets
  rw [(h.account flowId).txPackets] at hbound
  omega

theorem drop (h : s.Balanced) (htracked : (flowId, packetId) ∈ s.trackedKeys) {reasonCode : UInt32}
    (hreason : reasonCode.toNat + 1 < 2 ^ 32) (probe : ℕ) (packetSize : UInt32) :
    ∃ monitor, s.monitor.reportDrop probe flowId packetId packetSize reasonCode = some monitor ∧
      ({ s with monitor, lost := s.lost ++ [(flowId, packetId)] } : MonitorRun).Balanced := by
  obtain ⟨⟨key, tracked⟩, hrow, rfl : key = (flowId, packetId)⟩ := List.mem_map.mp htracked
  have hfind := find_of_mem h.trackedKeys_nodup hrow
  obtain ⟨rest, hrows, -, hremove⟩ := perm_of_find h.trackedKeys_nodup hfind
  have hkeys : s.trackedKeys.Perm ((flowId, packetId) :: rest.map Prod.fst) := hrows.map Prod.fst
  have hpos : 1 ≤ ofFlow flowId s.trackedKeys := by
    rw [ofFlow, hkeys.countP_eq]
    simp
  obtain ⟨probes, dropped, hdrop⟩ :=
    FlowMonitor.reportDrop_eq h.enabled probe flowId packetId packetSize hreason
  refine ⟨_, hdrop, ?_⟩
  constructor
  · exact h.enabled
  · exact h.nodup
  · rw [trackedKeys]
    refine List.Perm.trans ?_ h.perm
    refine List.Perm.trans ((List.Perm.refl _).append (hremove.map Prod.fst)) ?_
    refine List.Perm.trans ?_ ((List.Perm.refl _).append hkeys.symm)
    simp only [List.append_assoc, List.singleton_append]
    rfl
  · intro row hrow
    exact h.firstSeen row (mem_remove hrow)
  · intro packet hpacket
    obtain ⟨row, hrow, rfl⟩ := List.mem_map.mp hpacket
    exact FlowMonitor.isSome_setStats _ _ _
      (h.known row.1 (List.mem_map_of_mem (mem_remove hrow)))
  · refine FlowMonitor.account_setStats h.account ?_ fun f hf => ⟨rfl, ?_, rfl⟩
    · rw [ofFlow_append, ofFlow_singleton, if_pos rfl]
      exact (h.account flowId).lose (h.lost_lt hpos) dropped
    · rw [ofFlow_append, ofFlow_singleton, if_neg (Ne.symm hf), add_zero]

theorem checkForLostPackets (h : s.Balanced) (maxDelay : ℤ) :
    ∃ monitor, s.monitor.checkForLostPackets s.now maxDelay = some monitor ∧
      ({ s with monitor, lost := s.lost ++ s.expired maxDelay } : MonitorRun).Balanced := by
  obtain ⟨flowStats, hloop, hcount⟩ := FlowMonitor.loseExpired_eq s.now maxDelay
    s.monitor.trackedPackets s.monitor.flowStats fun row hrow =>
      h.known row.1 (List.mem_map_of_mem hrow)
  have hsplit : (s.expired maxDelay ++ (s.monitor.trackedPackets.filter fun row =>
      !row.2.expired s.now maxDelay).map Prod.fst).Perm s.trackedKeys := by
    rw [expired, ← List.map_append]
    exact (List.filter_append_perm _ _).map Prod.fst
  refine ⟨_, by rw [FlowMonitor.checkForLostPackets, hloop]; rfl, ?_⟩
  constructor
  · exact h.enabled
  · exact h.nodup
  · refine List.Perm.trans ?_ h.perm
    refine List.Perm.trans ?_ ((List.Perm.refl _).append hsplit)
    rw [trackedKeys]
    simp only [List.append_assoc]
    rfl
  · intro row hrow
    exact h.firstSeen row (List.mem_filter.mp hrow).1
  · intro packet hpacket
    obtain ⟨row, hrow, rfl⟩ := List.mem_map.mp hpacket
    have hknown : (flowStats row.1.1).isSome := by
      rw [hcount, Option.isSome_map]
      exact h.known row.1 (List.mem_map_of_mem (List.mem_filter.mp hrow).1)
    exact hknown
  · intro flowId
    have haccount := h.account flowId
    have hle : ofFlow flowId (s.expired maxDelay) ≤ ofFlow flowId s.trackedKeys := by
      have hsum := ofFlow_append flowId (s.expired maxDelay)
        ((s.monitor.trackedPackets.filter fun row =>
          !row.2.expired s.now maxDelay).map Prod.fst)
      rw [ofFlow, hsplit.countP_eq] at hsum
      rw [ofFlow, ofFlow, hsum]
      exact Nat.le_add_right _ _
    have hopen : OpenAccount ((flowStats flowId).getD {})
        (ofFlow flowId (s.transmitted.map Prod.fst))
        (ofFlow flowId s.lost + ofFlow flowId (s.expired maxDelay)) (s.delays flowId) := by
      rw [hcount]
      rw [FlowMonitor.getStatsForFlow] at haccount
      cases hstats : s.monitor.flowStats flowId with
      | some stats =>
        rw [hstats] at haccount
        exact haccount.lose (h.lost_lt hle) stats.dropped
      | none =>
        have hzero : ofFlow flowId (s.expired maxDelay) = 0 := by
          refine List.countP_eq_zero.mpr fun packet hpacket hflow => ?_
          have hknown := h.known packet (hsplit.subset (List.mem_append_left _ hpacket))
          rw [of_decide_eq_true hflow, hstats] at hknown
          cases hknown
        rw [hstats] at haccount
        rw [hzero, add_zero]
        exact haccount
    rw [ofFlow_append]
    exact hopen

theorem wait (h : s.Balanced) (time : ℕ) :
    ({ s with now := s.now + time } : MonitorRun).Balanced :=
  ⟨h.enabled, h.nodup, h.perm, h.firstSeen, h.known, h.account⟩

/-- Every sound report keeps the accounts balanced. -/
theorem step (h : s.Balanced) {report : FlowReport} (hlegal : s.Legal report)
    (hsound : s.Sound report) : ∃ s', s.step report = some s' ∧ s'.Balanced := by
  cases report with
  | firstTx probe flowId packetId packetSize =>
    exact ⟨_, rfl, h.firstTx hlegal hsound probe packetSize⟩
  | forwarding probe flowId packetId packetSize => exact ⟨_, rfl, h.forwarding probe packetSize⟩
  | lastRx probe flowId packetId packetSize => exact ⟨_, rfl, h.lastRx probe packetSize⟩
  | drop probe flowId packetId packetSize reasonCode =>
    obtain ⟨monitor, hmonitor, hbalanced⟩ := h.drop hsound.1 hsound.2 probe packetSize
    exact ⟨_, by rw [MonitorRun.step, hmonitor, Option.map_some], hbalanced⟩
  | checkForLostPackets maxDelay =>
    obtain ⟨monitor, hmonitor, hbalanced⟩ := h.checkForLostPackets maxDelay
    exact ⟨_, by rw [MonitorRun.step, hmonitor, Option.map_some], hbalanced⟩
  | wait time => exact ⟨_, rfl, h.wait time⟩

end MonitorRun.Balanced

instance MonitorRun.Legal.decidable (s : MonitorRun) (report : FlowReport) :
    Decidable (s.Legal report) :=
  match report with
  | .firstTx _ flowId packetId _ =>
    inferInstanceAs (Decidable ((flowId, packetId) ∉ s.transmitted.map Prod.fst))
  | .forwarding .. | .lastRx .. | .drop .. | .checkForLostPackets _ | .wait _ => .isTrue True.intro

instance MonitorRun.Sound.decidable (s : MonitorRun) (report : FlowReport) :
    Decidable (s.Sound report) :=
  match report with
  | .firstTx _ flowId _ _ => inferInstanceAs
      (Decidable ((s.monitor.getStatsForFlow flowId).txPackets.toNat + 1 < 2 ^ 32))
  | .drop _ flowId packetId _ reasonCode => inferInstanceAs
      (Decidable ((flowId, packetId) ∈ s.trackedKeys ∧ reasonCode.toNat + 1 < 2 ^ 32))
  | .forwarding .. | .lastRx .. | .checkForLostPackets _ | .wait _ => .isTrue True.intro

end Ns3Noc
