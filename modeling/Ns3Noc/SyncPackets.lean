import Mathlib
import Ns3Noc.PartialRuns
import Ns3Noc.SyncApplication

/-!
# Packets of the synchronous application

A packet is one head flit, data flits and one tail flit, all with the uid of the head flit and with
the same destination. The application injects packet after packet as long as no draw declines a
packet and neither a limit nor a stop comes within one.
-/
namespace Ns3Noc.SyncApplication
open PartialRuns

/-- The flit at a place of a packet of `n` flits; `p` is the uid of the head flit with the
destination. -/
def packetFlit (n : ℕ) (p : ℕ × ℕ) (index : ℕ) : SyncFlit :=
  if index = 0 then ⟨.head, p.1, p.2⟩
  else if index + 1 = n then ⟨.tail, p.1, p.2⟩ else ⟨.data, p.1, p.2⟩

/-- A head flit, `n - 2` data flits and a tail flit. -/
def packet (n : ℕ) (p : ℕ × ℕ) : List SyncFlit :=
  ⟨.head, p.1, p.2⟩ :: (List.replicate (n - 2) ⟨.data, p.1, p.2⟩ ++ [⟨.tail, p.1, p.2⟩])

/-- The flits counted are the flits injected, and these are complete packets of `n` flits followed by
the first `k` flits of a packet, by none if no further flit is scheduled. -/
structure InjectsPackets (n : ℕ) (s : SyncState) : Prop where
  totFlits_eq : s.totFlits = s.injected.length % 2 ^ 32
  packets : ∃ (done : List (ℕ × ℕ)) (p : ℕ × ℕ) (k : ℕ), k < n ∧
    s.injected = (done.map (packet n)).flatten ++ (packet n p).take k ∧
    (s.pending = false → k = 0)

namespace SyncConfig

variable (cfg : SyncConfig)

/-- The draw for a packet is accepted and no limit is reached within a packet, unless the node is
its own destination; and the application is not stopped within a packet. -/
def Undisturbed (s : SyncState) : Event → Prop
  | .startApplication => True
  | .stopApplication => s.currentFlitIndex = 0
  | .sendFlit draws randomValue _ =>
    cfg.destination (cfg.redraw draws s) = some cfg.sourceNodeId ∨
      (s.currentFlitIndex = 0 → cfg.Accepts randomValue) ∧
        (s.currentFlitIndex + 1 < cfg.numberOfFlits →
          cfg.WithinLimits ((s.totBytes + cfg.flitBytes s.currentFlitIndex) % 2 ^ 32)
            ((s.totFlits + 1) % 2 ^ 32))

end SyncConfig

/-! ## Packets -/

section

variable {n : ℕ} (hn : 2 ≤ n) (p : ℕ × ℕ)

include hn

theorem length_packet : (packet n p).length = n := by
  simp [packet]
  omega

theorem getElem?_packet {k : ℕ} (hk : k < n) : (packet n p)[k]? = some (packetFlit n p k) := by
  cases k with
  | zero => rfl
  | succ k =>
    rw [packet, List.getElem?_cons_succ, packetFlit, if_neg (Nat.succ_ne_zero k)]
    by_cases hlast : k + 1 + 1 = n
    · rw [if_pos hlast, List.getElem?_append_right (by simp; omega), List.length_replicate,
        show k - (n - 2) = 0 by omega]
      rfl
    · have hlt : k < n - 2 := by omega
      rw [if_neg hlast, List.getElem?_append_left (by simpa using hlt), List.getElem?_replicate,
        if_pos hlt]

theorem take_succ_packet {k : ℕ} (hk : k < n) :
    (packet n p).take (k + 1) = (packet n p).take k ++ [packetFlit n p k] := by
  rw [List.take_add_one, getElem?_packet hn p hk]
  rfl

theorem length_packets_append {k : ℕ} (hk : k < n) (done : List (ℕ × ℕ)) :
    ((done.map (packet n)).flatten ++ (packet n p).take k).length % n = k := by
  have hdone : (done.map (packet n)).flatten.length = n * done.length := by
    induction done with
    | nil => rfl
    | cons q done ih =>
      rw [List.map_cons, List.flatten_cons, List.length_append, ih, length_packet hn,
        List.length_cons]
      ring
  rw [List.length_append, hdone, List.length_take, length_packet hn, Nat.mul_add_mod,
    Nat.min_eq_left hk.le, Nat.mod_eq_of_lt hk]

end

/-! ## Steps -/

variable {cfg : SyncConfig} {s s' : SyncState}

/-- What holds between the events: within a packet the next flit is scheduled, no limit is reached
and the destination is the one of the head flit. -/
structure Sending (cfg : SyncConfig) (s : SyncState) : Prop where
  totFlits_eq : s.totFlits = s.injected.length % 2 ^ 32
  index_lt : s.currentFlitIndex < cfg.numberOfFlits
  percent_ne : s.pending = true → cfg.injectionPercent ≠ 0
  packets : ∃ (done : List (ℕ × ℕ)) (p : ℕ × ℕ),
    s.injected = (done.map (packet cfg.numberOfFlits)).flatten ++
      (packet cfg.numberOfFlits p).take s.currentFlitIndex ∧
    (s.currentFlitIndex ≠ 0 → s.pending = true ∧ cfg.WithinLimits s.totBytes s.totFlits ∧
      s.currentHeadFlit = p.1 ∧ cfg.destination s.uniformDestination = some p.2 ∧
      cfg.sourceNodeId ≠ p.2)

theorem Sending.injectsPackets (hs : Sending cfg s) : InjectsPackets cfg.numberOfFlits s where
  totFlits_eq := hs.totFlits_eq
  packets := by
    obtain ⟨done, p, hinjected, hpart⟩ := hs.packets
    refine ⟨done, p, _, hs.index_lt, hinjected, fun hpending => ?_⟩
    by_contra hindex
    have hscheduled := (hpart hindex).1
    rw [hpending] at hscheduled
    cases hscheduled

/-- An application that has not sent the last flit of a packet and has nothing scheduled leaves the
packet incomplete. -/
theorem not_injectsPackets_of_stopped {n : ℕ} (hn : 2 ≤ n) {k : ℕ} (hpos : k ≠ 0)
    (hpending : s.pending = false) (hlength : s.injected.length % n = k) :
    ¬InjectsPackets n s := by
  rintro ⟨-, done, p, j, hj, hinjected, hstop⟩
  rw [hinjected, length_packets_append hn p hj, hstop hpending] at hlength
  exact hpos hlength.symm

theorem Sending.length_mod (hn : 2 ≤ cfg.numberOfFlits) (hs : Sending cfg s) :
    s.injected.length % cfg.numberOfFlits = s.currentFlitIndex := by
  obtain ⟨done, p, hinjected, -⟩ := hs.packets
  rw [hinjected, length_packets_append hn p hs.index_lt]

theorem scheduleNextTx_eq (h : cfg.scheduleNextTx s = some s') :
    s' = { s with
      pending := decide (cfg.injectionPercent ≠ 0 ∧ cfg.WithinLimits s.totBytes s.totFlits) } := by
  rw [SyncConfig.scheduleNextTx] at h
  split at h
  · rename_i hpercent
    obtain rfl := Option.some.inj h
    simp [SyncConfig.stopApplication, hpercent]
  · rename_i hpercent
    split at h
    · rename_i hlimits
      obtain ⟨-, h⟩ := Option.ite_none_left_eq_some.mp h
      obtain rfl := Option.some.inj h
      simp [hpercent, hlimits]
    · rename_i hlimits
      obtain rfl := Option.some.inj h
      simp [SyncConfig.stopApplication, hlimits]

/-- The flit that is created for the index, unless the draw declines. -/
theorem createFlit_cases (hn : cfg.m_numberOfFlits = cfg.numberOfFlits) {d randomValue uid : ℕ}
    (h : cfg.createFlit d randomValue uid s = some s') :
    (s.currentFlitIndex = 0 ∧ ¬cfg.Accepts randomValue ∧ s' = s) ∨
    ((s.currentFlitIndex = 0 → cfg.Accepts randomValue) ∧
      ∃ headUid, (s.currentFlitIndex ≠ 0 → headUid = s.currentHeadFlit) ∧
        s' = { s with
          currentFlitIndex := (s.currentFlitIndex + 1) % 2 ^ 16
          currentHeadFlit := headUid
          totBytes := (s.totBytes + cfg.flitBytes s.currentFlitIndex) % 2 ^ 32
          injected := s.injected ++
            [packetFlit cfg.numberOfFlits (headUid, d) s.currentFlitIndex] }) := by
  rw [SyncConfig.createFlit] at h
  split at h
  · rename_i hindex
    split at h
    · rename_i haccepts
      obtain ⟨-, h⟩ := Option.ite_none_left_eq_some.mp h
      obtain ⟨-, h⟩ := Option.ite_none_right_eq_some.mp h
      obtain rfl := Option.some.inj h
      refine .inr ⟨fun _ => haccepts, uid, fun h => absurd hindex h, ?_⟩
      simp [packetFlit, hindex]
    · rename_i hdeclined
      exact .inl ⟨hindex, hdeclined, (Option.some.inj h).symm⟩
  · rename_i hindex
    refine .inr ⟨fun h => absurd h hindex, s.currentHeadFlit, fun _ => rfl, ?_⟩
    split at h
    · rename_i hlast
      obtain ⟨-, h⟩ := Option.ite_none_right_eq_some.mp h
      obtain rfl := Option.some.inj h
      rw [hn] at hlast
      simp [packetFlit, hindex, hlast]
    · rename_i hlast
      obtain ⟨-, h⟩ := Option.ite_none_right_eq_some.mp h
      obtain rfl := Option.some.inj h
      rw [hn] at hlast
      simp [packetFlit, hindex, hlast]

/-- What one run of `SendFlit` does: nothing where the node is its own destination, a count without
a flit where the draw declines, and otherwise the next flit of the packet. -/
theorem sendFlit_cases (hn : cfg.m_numberOfFlits = cfg.numberOfFlits) {draws : List ℕ}
    {randomValue uid : ℕ} (h : cfg.sendFlit draws randomValue uid s = some s') :
    s.pending = true ∧ ∃ d, cfg.destination (cfg.redraw draws s) = some d ∧
      ((cfg.sourceNodeId = d ∧ s'.injected = s.injected ∧ s'.totFlits = s.totFlits ∧
          s'.currentFlitIndex = s.currentFlitIndex) ∨
        cfg.sourceNodeId ≠ d ∧
        ((s.currentFlitIndex = 0 ∧ ¬cfg.Accepts randomValue ∧ s'.injected = s.injected ∧
            s'.totFlits = (s.totFlits + 1) % 2 ^ 32) ∨
          ((s.currentFlitIndex = 0 → cfg.Accepts randomValue) ∧
            ∃ headUid, (s.currentFlitIndex ≠ 0 → headUid = s.currentHeadFlit) ∧
              s'.currentHeadFlit = headUid ∧
              s'.injected = s.injected ++
                [packetFlit cfg.numberOfFlits (headUid, d) s.currentFlitIndex] ∧
              s'.currentFlitIndex =
                (if (s.currentFlitIndex + 1) % 2 ^ 16 = cfg.numberOfFlits then 0
                  else (s.currentFlitIndex + 1) % 2 ^ 16) ∧
              s'.uniformDestination = cfg.redraw draws s ∧
              s'.totBytes = (s.totBytes + cfg.flitBytes s.currentFlitIndex) % 2 ^ 32 ∧
              s'.totFlits = (s.totFlits + 1) % 2 ^ 32 ∧
              s'.pending = decide (cfg.injectionPercent ≠ 0 ∧
                cfg.WithinLimits s'.totBytes s'.totFlits)))) := by
  obtain ⟨hpending, h⟩ := Option.ite_none_right_eq_some.mp h
  obtain ⟨d, hd, h⟩ := Option.bind_eq_some_iff.mp h
  refine ⟨hpending, d, hd, ?_⟩
  by_cases hself : cfg.sourceNodeId = d
  · left
    rw [if_pos hself] at h
    split at h
    · obtain rfl := scheduleNextTx_eq h
      exact ⟨hself, rfl, rfl, rfl⟩
    · obtain rfl := Option.some.inj h
      exact ⟨hself, rfl, rfl, rfl⟩
  · right
    rw [if_neg hself] at h
    obtain ⟨-, h⟩ := Option.ite_none_left_eq_some.mp h
    obtain ⟨t, ht, h⟩ := Option.bind_eq_some_iff.mp h
    have hfinish := scheduleNextTx_eq h
    rw [hn] at hfinish
    refine ⟨hself, ?_⟩
    rcases createFlit_cases hn ht with ⟨hindex, hdeclined, rfl⟩ | ⟨haccepts, headUid, huid, rfl⟩
    · exact .inl ⟨hindex, hdeclined, by rw [hfinish], by rw [hfinish]⟩
    · refine .inr ⟨haccepts, headUid, huid, ?_⟩
      subst hfinish
      exact ⟨rfl, rfl, rfl, rfl, rfl, rfl, rfl⟩

/-- Within a packet the random destination is not drawn again. -/
theorem Sending.index_eq_zero (hs : Sending cfg s) {draws : List ℕ}
    (h : cfg.destination (cfg.redraw draws s) = some cfg.sourceNodeId) :
    s.currentFlitIndex = 0 := by
  by_contra hindex
  obtain ⟨done, p, -, hpart⟩ := hs.packets
  obtain ⟨-, -, -, hd, hne⟩ := hpart hindex
  rw [SyncConfig.redraw, if_neg fun h => hindex h.2, hd] at h
  exact hne (Option.some.inj h).symm

section

variable (hn : 2 ≤ cfg.numberOfFlits) (hmax : cfg.numberOfFlits < 2 ^ 16)

include hmax in
theorem m_numberOfFlits_eq : cfg.m_numberOfFlits = cfg.numberOfFlits := Nat.mod_eq_of_lt hmax

include hn hmax

theorem Sending.sendFlit (hs : Sending cfg s) {draws : List ℕ} {randomValue uid : ℕ}
    (hok : cfg.Undisturbed s (.sendFlit draws randomValue uid))
    (h : cfg.sendFlit draws randomValue uid s = some s') : Sending cfg s' := by
  obtain ⟨hpending, d, hd, hcases⟩ := sendFlit_cases (m_numberOfFlits_eq hmax) h
  have hpercent := hs.percent_ne hpending
  have htot := hs.totFlits_eq
  have hlt := hs.index_lt
  obtain ⟨done, p, hinjected, hpart⟩ := hs.packets
  rcases hcases with ⟨rfl, hinj', htot', hindex'⟩ | ⟨hself, ⟨hindex, hdeclined, -, -⟩ |
    ⟨-, headUid, huid, hhead', hinj', hindex', huniform', hbytes', htot', hpending'⟩⟩
  · -- the node is its own destination
    have hindex := hs.index_eq_zero hd
    refine ⟨by rw [htot', hinj', htot], by rw [hindex']; exact hlt, fun _ => hpercent, done, p, ?_, ?_⟩
    · rw [hinj', hindex', hinjected]
    · intro hne
      exact absurd (hindex'.trans hindex) hne
  · rcases hok with hsource | ⟨haccepts, -⟩
    · exact absurd (Option.some.inj (hsource.symm.trans hd)) hself
    · exact absurd (haccepts hindex) hdeclined
  · have hlimits := (hok.resolve_left fun hsource =>
      hself (Option.some.inj (hsource.symm.trans hd))).2
    rw [Nat.mod_eq_of_lt (by omega)] at hindex'
    -- the packet under way, or the one that the head flit starts
    obtain ⟨q, hq, hinjected⟩ : ∃ q, q = (headUid, d) ∧
        s.injected = (done.map (packet cfg.numberOfFlits)).flatten ++
          (packet cfg.numberOfFlits q).take s.currentFlitIndex := by
      refine ⟨(headUid, d), rfl, ?_⟩
      by_cases hindex : s.currentFlitIndex = 0
      · rw [hinjected, hindex, List.take_zero, List.take_zero]
      · obtain ⟨-, -, hheadUid, hdest, -⟩ := hpart hindex
        rw [SyncConfig.redraw, if_neg fun h => hindex h.2, hdest] at hd
        rw [huid hindex, hheadUid, ← Option.some.inj hd]
        exact hinjected
    have happend : s'.injected = (done.map (packet cfg.numberOfFlits)).flatten ++
        (packet cfg.numberOfFlits q).take (s.currentFlitIndex + 1) := by
      rw [hinj', hinjected, take_succ_packet hn q hlt, hq, List.append_assoc]
    have htotal : s'.totFlits = s'.injected.length % 2 ^ 32 := by
      rw [htot', hinj', htot, List.length_append, List.length_singleton]
      omega
    by_cases hlast : s.currentFlitIndex + 1 = cfg.numberOfFlits
    · rw [if_pos hlast] at hindex'
      refine ⟨htotal, by omega, fun _ => hpercent, done ++ [q], q, ?_, fun h => absurd hindex' h⟩
      rw [happend, hlast, hindex', List.take_of_length_le (length_packet hn q).le]
      simp
    · rw [if_neg hlast] at hindex'
      refine ⟨htotal, by omega, fun _ => hpercent, done, q, by rw [happend, hindex'], fun _ => ?_⟩
      have hwithin : cfg.WithinLimits s'.totBytes s'.totFlits := by
        rw [hbytes', htot']
        exact hlimits (by omega)
      refine ⟨by simp [hpending', hpercent, hwithin], hwithin, by rw [hhead', hq], ?_, ?_⟩
      · rw [huniform', hd, hq]
      · rw [hq]
        exact hself

theorem Sending.step (hs : Sending cfg s) {e : SyncConfig.Event} (hok : cfg.Undisturbed s e)
    (h : cfg.step s e = some s') : Sending cfg s' := by
  obtain ⟨done, p, hinjected, hpart⟩ := hs.packets
  cases e with
  | startApplication =>
    obtain rfl := scheduleNextTx_eq h
    refine ⟨hs.totFlits_eq, hs.index_lt, fun h => (of_decide_eq_true h).1, done, p, hinjected, ?_⟩
    intro hindex
    obtain ⟨hpending, hlimits, hrest⟩ := hpart hindex
    exact ⟨decide_eq_true ⟨hs.percent_ne hpending, hlimits⟩, hlimits, hrest⟩
  | stopApplication =>
    obtain rfl := Option.some.inj h
    exact ⟨hs.totFlits_eq, hs.index_lt, fun h => Bool.noConfusion h, done, p, hinjected,
      fun hindex => absurd hok hindex⟩
  | sendFlit draws randomValue uid => exact hs.sendFlit hn hmax hok h

/-- Any other event that goes through loses a packet or counts a flit too many. -/
theorem Sending.not_injectsPackets (hs : Sending cfg s) {e : SyncConfig.Event}
    (hno : ¬cfg.Undisturbed s e) (h : cfg.step s e = some s') :
    ¬InjectsPackets cfg.numberOfFlits s' := by
  have hlength := hs.length_mod hn
  cases e with
  | startApplication => exact absurd trivial hno
  | stopApplication =>
    obtain rfl := Option.some.inj h
    exact not_injectsPackets_of_stopped hn hno rfl hlength
  | sendFlit draws randomValue uid =>
    obtain ⟨hself, hno⟩ := not_or.mp hno
    obtain ⟨hpending, d, hd, hcases⟩ := sendFlit_cases (m_numberOfFlits_eq hmax) h
    have hlt := hs.index_lt
    rcases hcases with ⟨rfl, -⟩ | ⟨-, ⟨-, -, hinj', htot'⟩ |
      ⟨haccepts, headUid, -, -, hinj', hindex', -, hbytes', htot', hpending'⟩⟩
    · exact absurd hd hself
    · intro hs'
      have hcount := hs'.totFlits_eq
      rw [htot', hinj', ← hs.totFlits_eq] at hcount
      have hbound : s.totFlits < 2 ^ 32 := hs.totFlits_eq ▸ Nat.mod_lt _ (Nat.two_pow_pos 32)
      omega
    · have hlimit : s.currentFlitIndex + 1 < cfg.numberOfFlits ∧
          ¬cfg.WithinLimits s'.totBytes s'.totFlits := by
        rw [hbytes', htot']
        exact Classical.not_imp.mp fun h => hno ⟨haccepts, h⟩
      have hstopped : s'.pending = false := by
        rw [hpending']
        exact decide_eq_false fun h => hlimit.2 h.2
      refine not_injectsPackets_of_stopped hn (Nat.succ_ne_zero s.currentFlitIndex) hstopped ?_
      rw [hinj', List.length_append, List.length_singleton, ← Nat.mod_add_mod, hlength,
        Nat.mod_eq_of_lt hlimit.1]

omit hmax in
theorem sending_init : Sending cfg SyncState.init where
  totFlits_eq := rfl
  index_lt := Nat.lt_of_lt_of_le Nat.two_pos hn
  percent_ne h := Bool.noConfusion h
  packets := ⟨[], (0, 0), rfl, fun h => absurd rfl h⟩

end

/-- With a number of flits that fits in 16 bits, the application injects complete packets and counts
their flits in every state of a run exactly when every event that goes through is undisturbed. -/
theorem injectsPackets_iff (cfg : SyncConfig) (hn : 2 ≤ cfg.numberOfFlits)
    (hmax : cfg.numberOfFlits < 2 ^ 16) (events : List SyncConfig.Event) :
    Always cfg.step (InjectsPackets cfg.numberOfFlits) SyncState.init events ↔
      Allowed cfg.step (fun s e => (cfg.step s e).isSome → cfg.Undisturbed s e) SyncState.init
        events := by
  have hstep : ∀ s e s', Sending cfg s → ((cfg.step s e).isSome → cfg.Undisturbed s e) →
      cfg.step s e = some s' → Sending cfg s' := by
    intro s e s' hs hok h
    exact hs.step hn hmax (hok (by rw [h]; rfl)) h
  have hbreak : ∀ s e, Sending cfg s → ¬((cfg.step s e).isSome → cfg.Undisturbed s e) →
      ∃ s', cfg.step s e = some s' ∧ ¬InjectsPackets cfg.numberOfFlits s' := by
    intro s e hs hno
    obtain ⟨hsome, hno⟩ := Classical.not_imp.mp hno
    obtain ⟨s', h⟩ := Option.isSome_iff_exists.mp hsome
    exact ⟨s', h, hs.not_injectsPackets hn hmax hno h⟩
  exact always_iff_allowed (fun _ hs => hs.injectsPackets) hstep hbreak (sending_init hn) events

/-- A 2 x 2 mesh whose node 0 sends packets of three flits to node 3. -/
def cornerConfig (injectionPercent : ℚ) : SyncConfig where
  injectionPercent := injectionPercent
  m_size := [2, 2]
  numberOfFlits := 3
  maxBytes := 0
  maxFlits := 3
  flitSize := 8
  headerSize := 4
  trafficPattern := .bits .bitComplement
  destinationNodeId := 0
  sourceNodeId := 0
  devices := [0, 1, 2, 3]
  globalClock := 1000

theorem injectsPackets_iff_corner :
    Always (cornerConfig 100).step (InjectsPackets 3) SyncState.init
        [.startApplication, .sendFlit [] 0 7, .sendFlit [] 0 8, .sendFlit [] 0 9] ↔
      Allowed (cornerConfig 100).step
        (fun s e => ((cornerConfig 100).step s e).isSome → (cornerConfig 100).Undisturbed s e)
        SyncState.init
        [.startApplication, .sendFlit [] 0 7, .sendFlit [] 0 8, .sendFlit [] 0 9] :=
  injectsPackets_iff (cornerConfig 100) (by decide) (by decide) _

/-- A draw that declines a packet is counted as a flit. -/
theorem not_always_injectsPackets_declined :
    ¬∀ cfg : SyncConfig, 2 ≤ cfg.numberOfFlits → ∀ events : List SyncConfig.Event,
      Always cfg.step (InjectsPackets cfg.numberOfFlits) SyncState.init events := by
  intro h
  have hrun : run (cornerConfig 50).step SyncState.init [.startApplication, .sendFlit [] 59 7] =
      some ⟨0, 0, 0, 1, [], true, []⟩ := by decide
  have hlast := (h (cornerConfig 50) (by decide) _).last hrun
  exact absurd hlast.totFlits_eq (by decide)

end Ns3Noc.SyncApplication
