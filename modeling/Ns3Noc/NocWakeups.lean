import Mathlib
import Ns3Noc.NocNetwork

/-!
# Wake-ups of net devices

`ProcessBufferedPackets` schedules its next run while the in-queue is not empty, but only one run for
each time that it computes from the clock and the speedup. Flits may be injected and transmissions may
end at any time; a scheduled run happens at its own time.
-/
namespace Ns3Noc

open PartialRuns

/-- `GlobalClock` and `DataPacketSpeedup` -/
structure ClockAttributes where
  globalClock : ℚ
  dataPacketSpeedup : ℕ
  globalClock_pos : 0 < globalClock
  one_le_dataPacketSpeedup : 1 ≤ dataPacketSpeedup

namespace ClockAttributes

variable (clock : ClockAttributes)

def speedup (packet : NocPacket) : ℕ :=
  if packet.packetType = .head then clock.dataPacketSpeedup else 1

/-- `globalClock / Scalar (speedup)` -/
def period (packet : NocPacket) : ℚ := clock.globalClock / clock.speedup packet

/-- The time until the next network clock cycle -/
def nextClock (now : ℚ) : ℚ :=
  let clockMultiplier := 1 + ⌈now / clock.globalClock⌉₊
  clock.globalClock * clockMultiplier - now

theorem period_pos (packet : NocPacket) : 0 < clock.period packet := by
  have hspeedup : 1 ≤ clock.speedup packet := by
    rw [speedup]
    split
    · exact clock.one_le_dataPacketSpeedup
    · exact le_refl 1
  exact div_pos clock.globalClock_pos (by exact_mod_cast hspeedup)

theorem period_le (packet : NocPacket) : clock.period packet ≤ clock.globalClock := by
  have hspeedup : 1 ≤ clock.speedup packet := by
    rw [speedup]
    split
    · exact clock.one_le_dataPacketSpeedup
    · exact le_refl 1
  exact div_le_self clock.globalClock_pos.le (by exact_mod_cast hspeedup)

/-- The next cycle is at least a whole period away. -/
theorem globalClock_le_nextClock (now : ℚ) : clock.globalClock ≤ clock.nextClock now := by
  have hceil := Nat.le_ceil (now / clock.globalClock)
  rw [div_le_iff₀ clock.globalClock_pos] at hceil
  rw [nextClock]
  push_cast
  linarith

end ClockAttributes

/-- A scheduled `ProcessBufferedPackets` -/
structure ProcessEvent (δ : Type) where
  time : ℚ
  device : δ

/-- The members that decide when `ProcessBufferedPackets` runs -/
structure TimedNetwork (δ γ σ : Type) where
  network : NetworkState δ γ σ
  now : ℚ
  lastScheduledEvent : δ → ℚ
  events : List (ProcessEvent δ)

/-- The clock advances, or something happens to a flit. -/
inductive TimedStep (δ : Type) where
  | advance (time : ℚ)
  | injectPacket (d : δ) (new : NewPacket) (uid destination : ℕ) (route : RouteReply δ)
  | processEvent (n : ℕ)
  | transmitEnd (n : ℕ) (route : RouteReply δ)

namespace TimedNetwork

variable {δ γ σ : Type} [DecidableEq δ] [DecidableEq γ]

def start (switching : ℕ → σ) : TimedNetwork δ γ σ := ⟨{ switching }, 0, fun _ => 0, []⟩

section
variable (clock : ClockAttributes)

/-- The end of `ProcessBufferedPackets` -/
def scheduleNext (s : TimedNetwork δ γ σ) (d : δ) : Option (TimedNetwork δ γ σ) :=
  match s.network.inQueue d with
  | [] => some s
  | front :: _ =>
    if s.lastScheduledEvent d ≠ s.now + clock.period front.packet then
      if 0 < clock.nextClock s.now then
        some { s with
          lastScheduledEvent :=
            Function.update s.lastScheduledEvent d (s.now + clock.period front.packet)
          events := s.events ++ [⟨s.now + clock.nextClock s.now, d⟩] }
      else none
    else some s

/-- The run is not scheduled, since one was already scheduled for the same time. -/
def Skips (s : TimedNetwork δ γ σ) (d : δ) : Prop :=
  ∃ front rest, s.network.inQueue d = front :: rest ∧
    s.lastScheduledEvent d = s.now + clock.period front.packet

variable (net : NocNetwork δ γ) (protocol : SwitchingProtocol σ)

/-- The device that sends a transmitted flit on, unless the flit has arrived -/
def forwarder (s : NetworkState δ γ σ) (n : ℕ) : Option δ :=
  (s.pending[n]?).bind fun e =>
    if e.destination = some e.destNocNetDevice then none else some e.destNocNetDevice

/-- A step up to the end of `ProcessBufferedPackets`, and the device that runs it. Nothing happens
after a scheduled run is due and before it happens. -/
def beforeNext (s : TimedNetwork δ γ σ) : TimedStep δ → Option (TimedNetwork δ γ σ × Option δ)
  | .advance time =>
    if s.now ≤ time ∧ ∀ e ∈ s.events, time ≤ e.time then some ({ s with now := time }, none)
    else none
  | .injectPacket d new uid destination route =>
    (net.injectPacket protocol s.network d new uid destination route).map fun network =>
      ({ s with network }, some d)
  | .processEvent n =>
    (s.events[n]?).bind fun e =>
      if e.time = s.now then
        (net.processBufferedPackets protocol s.network e.device none).map fun network =>
          ({ s with network, events := s.events.eraseIdx n }, some e.device)
      else none
  | .transmitEnd n route =>
    (net.transmitEnd protocol s.network n route).map fun network =>
      ({ s with network }, forwarder s.network n)

def step (s : TimedNetwork δ γ σ) (l : TimedStep δ) : Option (TimedNetwork δ γ σ) :=
  (beforeNext net protocol s l).bind fun r =>
    match r.2 with
    | none => some r.1
    | some d => r.1.scheduleNext clock d

end

end TimedNetwork

/-! ## Where packets are queued -/

namespace NocNetwork

variable {δ γ σ : Type} [DecidableEq δ] [DecidableEq γ] {net : NocNetwork δ γ}
  {protocol : SwitchingProtocol σ} {s s' : NetworkState δ γ σ} {d : δ}

omit [DecidableEq γ] in
theorem length_markHeadPacketAsBlocked (s : NetworkState δ γ σ) (d : δ) (ptr : ℕ) (d' : δ) :
    ((s.markHeadPacketAsBlocked d ptr).inQueue d').length = (s.inQueue d').length := by
  by_cases h : d' = d
  · simp [NetworkState.markHeadPacketAsBlocked, h]
  · simp [NetworkState.markHeadPacketAsBlocked, h]

omit [DecidableEq γ] in
theorem length_flowControl {c : γ} {via : Option δ} {packet : Option QueuedPacket} {answer : Bool}
    (h : net.flowControl protocol s d c via packet = some (answer, s')) (d' : δ) :
    (s'.inQueue d').length = (s.inQueue d').length := by
  cases packet with
  | none =>
    obtain ⟨-, rfl⟩ := Prod.mk.inj (Option.some.inj h)
    rfl
  | some q =>
    obtain ⟨v, -, h⟩ := Option.bind_eq_some_iff.mp h
    obtain ⟨srcId, -, h⟩ := Option.bind_eq_some_iff.mp h
    obtain ⟨-, rfl⟩ := Prod.mk.inj (Option.some.inj h)
    dsimp only
    split
    · exact length_markHeadPacketAsBlocked _ _ _ _
    · rfl

omit [DecidableEq δ] in
theorem inQueue_transmitStart (original : δ) (p : NocPacket) (c : γ) (srcId : Fin 2) :
    (net.transmitStart s original p c srcId).2.inQueue = s.inQueue := by
  simp only [transmitStart]
  split
  · rfl
  · split <;> rfl

theorem inQueue_send {c : γ} {srcDest : SrcDest δ} (h : net.send s c srcDest = some s') :
    s'.inQueue = s.inQueue := by
  obtain ⟨sender, -, h⟩ := Option.bind_eq_some_iff.mp h
  obtain ⟨srcId, -, h⟩ := Option.bind_eq_some_iff.mp h
  obtain ⟨dest, -, h⟩ := Option.bind_eq_some_iff.mp h
  split at h
  · obtain rfl := Option.some.inj h
    rfl
  · cases h

theorem length_processBufferedPackets {packet : Option QueuedPacket}
    (h : net.processBufferedPackets protocol s d packet = some s') (d' : δ) :
    (s'.inQueue d').length = (s.inQueue d').length := by
  rw [processBufferedPackets] at h
  split at h
  · rw [Option.some.inj h]
  · obtain ⟨c, -, h⟩ := Option.bind_eq_some_iff.mp h
    obtain ⟨⟨canDoRouting, t⟩, hflow, h⟩ := Option.bind_eq_some_iff.mp h
    have ht := length_flowControl hflow d'
    dsimp only at h
    split at h
    · split at h
      · obtain ⟨u, hsend, rfl⟩ := Option.map_eq_some_iff.mp h
        have hu := inQueue_send hsend
        rw [inQueue_transmitStart] at hu
        exact (congrArg (fun q => (q d').length) hu).trans ht
      · obtain rfl := Option.some.inj h
        rw [inQueue_transmitStart]
        exact ht
    · obtain rfl := Option.some.inj h
      exact ht

theorem length_sendFrom {packet : NocPacket} {dest : δ}
    (h : net.sendFrom protocol s d packet dest = some s') {d' : δ} (hd : d' ≠ d) :
    (s'.inQueue d').length = (s.inQueue d').length := by
  rw [sendFrom] at h
  split at h
  · rw [length_processBufferedPackets h]
    simp [NetworkState.enqueue, hd]
  · rw [length_processBufferedPackets h]

theorem length_nodeSend {packet : NocPacket} {destination : ℕ} {route : RouteReply δ}
    (h : net.nodeSend protocol s d packet destination route = some s') {d' : δ} (hd : d' ≠ d) :
    (s'.inQueue d').length = (s.inQueue d').length := by
  rw [nodeSend] at h
  split at h
  · cases h
  · rw [length_sendFrom h hd]

theorem length_injectPacket {new : NewPacket} {uid destination : ℕ} {route : RouteReply δ}
    (h : net.injectPacket protocol s d new uid destination route = some s') {d' : δ}
    (hd : d' ≠ d) : (s'.inQueue d').length = (s.inQueue d').length := by
  rw [injectPacket] at h
  split at h
  · rw [length_nodeSend h hd]
    rfl
  · cases h

theorem length_dequeueTransmitted {e : TransmitEndEvent δ γ} {packet : NocPacket} {w : γ × Fin 2}
    (h : net.dequeueTransmitted s e = some (s', packet, w)) (d' : δ) :
    (s'.inQueue d').length ≤ (s.inQueue d').length := by
  obtain ⟨srcId, -, h⟩ := Option.bind_eq_some_iff.mp h
  obtain ⟨currentPkt, -, h⟩ := Option.bind_eq_some_iff.mp h
  obtain ⟨original, -, h⟩ := Option.bind_eq_some_iff.mp h
  obtain ⟨⟨q, t⟩, hdequeue, h⟩ := Option.bind_eq_some_iff.mp h
  dsimp only at h
  split at h
  · obtain ⟨rfl, -⟩ := Prod.mk.inj (Option.some.inj h)
    rw [NetworkState.dequeuePacketFromInQueue] at hdequeue
    split at hdequeue
    · cases hdequeue
    · rename_i rest hqueue
      obtain ⟨-, rfl⟩ := Prod.mk.inj (Option.some.inj hdequeue)
      by_cases hd : d' = original
      · simp [NetworkState.setLink, hd, hqueue]
      · simp [NetworkState.setLink, hd]
  · cases h

/-- A queue only grows where a transmitted flit is sent on. -/
theorem length_transmitEnd {n : ℕ} {route : RouteReply δ}
    (h : net.transmitEnd protocol s n route = some s') {d' : δ}
    (hd : TimedNetwork.forwarder s n ≠ some d') :
    (s'.inQueue d').length ≤ (s.inQueue d').length := by
  obtain ⟨e, he, h⟩ := Option.bind_eq_some_iff.mp h
  obtain ⟨⟨t, packet, w⟩, hdequeue, h⟩ := Option.bind_eq_some_iff.mp h
  obtain ⟨u, hreceive, h⟩ := Option.bind_eq_some_iff.mp h
  obtain rfl := Option.some.inj h
  refine le_trans (le_of_eq ?_) (length_dequeueTransmitted hdequeue d')
  rw [TimedNetwork.forwarder, he, Option.bind_some] at hd
  obtain ⟨dest, hdest, hreceive⟩ := Option.bind_eq_some_iff.mp hreceive
  split at hreceive
  · rename_i heq
    obtain rfl := Option.some.inj hreceive
    rfl
  · rename_i heq
    rw [if_neg (by rw [hdest]; simpa using heq)] at hd
    exact length_nodeSend hreceive fun heq => hd (congrArg some heq.symm)

end NocNetwork

/-! ## Reachable states -/

namespace TimedNetwork

variable {δ γ σ : Type} [DecidableEq δ] [DecidableEq γ] {clock : ClockAttributes}
  {net : NocNetwork δ γ} {protocol : SwitchingProtocol σ} {s t : TimedNetwork δ γ σ} {d : δ}

/-- Where a queue is not empty a run is pending, and no run is skipped without one. -/
structure Awake (clock : ClockAttributes) (net : NocNetwork δ γ) (protocol : SwitchingProtocol σ)
    (s : TimedNetwork δ γ σ) : Prop where
  pending : ∀ d, s.network.inQueue d ≠ [] → ∃ e ∈ s.events, e.device = d ∧ s.now ≤ e.time
  skipped : ∀ l t d, beforeNext net protocol s l = some (t, some d) → Skips clock t d →
    ∃ e ∈ t.events, e.device = d ∧ t.now < e.time

/-- A time that is remembered and not over has an event that is not before it. -/
structure Scheduled (s : TimedNetwork δ γ σ) : Prop where
  pending : ∀ d, s.network.inQueue d ≠ [] → ∃ e ∈ s.events, e.device = d ∧ s.now ≤ e.time
  remembered : ∀ d, s.now < s.lastScheduledEvent d →
    ∃ e ∈ s.events, e.device = d ∧ s.lastScheduledEvent d ≤ e.time

/-- The same before the next run of one device is scheduled -/
structure Scheduling (s : TimedNetwork δ γ σ) (d : Option δ) : Prop where
  pending : ∀ d', d ≠ some d' → s.network.inQueue d' ≠ [] →
    ∃ e ∈ s.events, e.device = d' ∧ s.now ≤ e.time
  remembered : ∀ d', s.now < s.lastScheduledEvent d' →
    ∃ e ∈ s.events, e.device = d' ∧ s.lastScheduledEvent d' ≤ e.time

omit [DecidableEq δ] [DecidableEq γ] in
theorem Scheduled.of_network (h : s.Scheduled) {network : NetworkState δ γ σ} {d : Option δ}
    (hlength : ∀ d', d ≠ some d' →
      (network.inQueue d').length ≤ (s.network.inQueue d').length) :
    Scheduling { s with network } d where
  pending d' hd hqueue := by
    refine h.pending d' fun hnil => hqueue ?_
    have hle := hlength d' hd
    rw [hnil] at hle
    exact List.length_eq_zero_iff.mp (Nat.le_zero.mp hle)
  remembered := h.remembered

theorem Scheduled.beforeNext (h : s.Scheduled) {l : TimedStep δ} {d : Option δ}
    (hstep : beforeNext net protocol s l = some (t, d)) : t.Scheduling d := by
  cases l with
  | advance time =>
    rw [TimedNetwork.beforeNext] at hstep
    split at hstep
    · rename_i htime
      obtain ⟨rfl, rfl⟩ := Prod.mk.inj (Option.some.inj hstep)
      refine ⟨fun d' _ hqueue => ?_, fun d' hlast => ?_⟩
      · obtain ⟨e, he, hdevice, -⟩ := h.pending d' hqueue
        exact ⟨e, he, hdevice, htime.2 e he⟩
      · exact h.remembered d' (lt_of_le_of_lt htime.1 hlast)
    · cases hstep
  | injectPacket d₀ new uid destination route =>
    obtain ⟨network, hnetwork, heq⟩ := Option.map_eq_some_iff.mp hstep
    obtain ⟨rfl, rfl⟩ := Prod.mk.inj heq
    refine h.of_network fun d' hd => ?_
    exact (NocNetwork.length_injectPacket hnetwork fun heq => hd (congrArg some heq.symm)).le
  | processEvent n =>
    obtain ⟨e, he, hstep⟩ := Option.bind_eq_some_iff.mp hstep
    split at hstep
    · rename_i htime
      obtain ⟨network, hnetwork, heq⟩ := Option.map_eq_some_iff.mp hstep
      obtain ⟨rfl, rfl⟩ := Prod.mk.inj heq
      have hrest : ∀ e' ∈ s.events, e' ≠ e → e' ∈ s.events.eraseIdx n := by
        intro e' he' hne
        obtain ⟨i, hi⟩ := List.mem_iff_getElem?.mp he'
        refine List.mem_eraseIdx_iff_getElem?.mpr ⟨i, fun hin => hne ?_, hi⟩
        rw [hin, he] at hi
        exact (Option.some.inj hi).symm
      refine ⟨fun d' hd hqueue => ?_, fun d' hlast => ?_⟩
      · have hne : s.network.inQueue d' ≠ [] := by
          intro hnil
          have hlength := NocNetwork.length_processBufferedPackets hnetwork d'
          rw [hnil] at hlength
          exact hqueue (List.length_eq_zero_iff.mp hlength)
        obtain ⟨e', he', hdevice, hle⟩ := h.pending d' hne
        refine ⟨e', hrest e' he' fun heq => hd ?_, hdevice, hle⟩
        rw [← hdevice, heq]
      · obtain ⟨e', he', hdevice, hle⟩ := h.remembered d' hlast
        refine ⟨e', hrest e' he' fun heq => ?_, hdevice, hle⟩
        rw [heq, htime] at hle
        exact absurd hlast (not_lt.mpr hle)
    · cases hstep
  | transmitEnd n route =>
    obtain ⟨network, hnetwork, heq⟩ := Option.map_eq_some_iff.mp hstep
    obtain ⟨rfl, rfl⟩ := Prod.mk.inj heq
    exact h.of_network fun d' hd => NocNetwork.length_transmitEnd hnetwork hd

omit [DecidableEq δ] [DecidableEq γ] in
/-- A skipped run remembers a time that is not over, so an event is pending. -/
theorem Scheduling.skipped (h : s.Scheduling (some d)) (hskip : Skips clock s d) :
    ∃ e ∈ s.events, e.device = d ∧ s.now < e.time := by
  obtain ⟨front, rest, -, hlast⟩ := hskip
  have hlt : s.now < s.lastScheduledEvent d := by
    rw [hlast]
    linarith [clock.period_pos front.packet]
  obtain ⟨e, he, hdevice, hle⟩ := h.remembered d hlt
  exact ⟨e, he, hdevice, lt_of_lt_of_le hlt hle⟩

omit [DecidableEq γ] in
theorem Scheduling.scheduleNext (h : s.Scheduling (some d))
    (hstep : s.scheduleNext clock d = some t) : t.Scheduled := by
  rw [TimedNetwork.scheduleNext] at hstep
  split at hstep
  · rename_i hnil
    obtain rfl := Option.some.inj hstep
    refine ⟨fun d' hqueue => ?_, h.remembered⟩
    by_cases hd : d' = d
    · exact absurd (hd ▸ hnil) hqueue
    · exact h.pending d' (fun heq => hd (Option.some.inj heq).symm) hqueue
  rename_i front rest hcons
  split at hstep
  · split at hstep
    · rename_i hpos
      obtain rfl := Option.some.inj hstep
      have hperiod := clock.period_le front.packet
      have hnext := clock.globalClock_le_nextClock s.now
      refine ⟨fun d' hqueue => ?_, fun d' hlast => ?_⟩
      · by_cases hd : d' = d
        · refine ⟨_, List.mem_append_right _ (List.mem_singleton_self _), hd.symm, ?_⟩
          exact le_add_of_nonneg_right hpos.le
        · obtain ⟨e, he, hdevice, hle⟩ :=
            h.pending d' (fun heq => hd (Option.some.inj heq).symm) hqueue
          exact ⟨e, List.mem_append_left _ he, hdevice, hle⟩
      · by_cases hd : d' = d
        · subst hd
          refine ⟨_, List.mem_append_right _ (List.mem_singleton_self _), rfl, ?_⟩
          simp only [Function.update_self]
          linarith
        · simp only [Function.update_of_ne hd] at hlast ⊢
          obtain ⟨e, he, hdevice, hle⟩ := h.remembered d' hlast
          exact ⟨e, List.mem_append_left _ he, hdevice, hle⟩
    · cases hstep
  · rename_i hlast
    obtain rfl := Option.some.inj hstep
    refine ⟨fun d' hqueue => ?_, h.remembered⟩
    by_cases hd : d' = d
    · subst hd
      obtain ⟨e, he, hdevice, hlt⟩ := h.skipped ⟨front, rest, hcons, not_not.mp hlast⟩
      exact ⟨e, he, hdevice, hlt.le⟩
    · exact h.pending d' (fun heq => hd (Option.some.inj heq).symm) hqueue

theorem Scheduled.step (h : s.Scheduled) {l : TimedStep δ}
    (hstep : step clock net protocol s l = some t) : t.Scheduled := by
  obtain ⟨⟨u, d⟩, hbefore, hstep⟩ := Option.bind_eq_some_iff.mp hstep
  have hu := h.beforeNext hbefore
  cases d with
  | none =>
    obtain rfl := Option.some.inj hstep
    exact ⟨fun d' => hu.pending d' nofun, hu.remembered⟩
  | some d => exact hu.scheduleNext hstep

theorem Scheduled.awake (h : s.Scheduled) : Awake clock net protocol s where
  pending := h.pending
  skipped _ _ _ hbefore hskip := (h.beforeNext hbefore).skipped hskip

omit [DecidableEq δ] [DecidableEq γ] in
theorem start_scheduled (switching : ℕ → σ) :
    (start switching : TimedNetwork δ γ σ).Scheduled where
  pending _ hqueue := absurd rfl hqueue
  remembered _ hlast := absurd hlast (lt_irrefl _)

omit [DecidableEq γ] in
/-- The assertion that the next clock is in the future never fails. -/
theorem scheduleNext_isSome (clock : ClockAttributes) (s : TimedNetwork δ γ σ) (d : δ) :
    (s.scheduleNext clock d).isSome := by
  have hpos := lt_of_lt_of_le clock.globalClock_pos (clock.globalClock_le_nextClock s.now)
  rw [scheduleNext]
  split
  · rfl
  · rw [if_pos hpos]
    split <;> rfl

/-- No wake-up is lost, whatever happens to flits and in whatever order. -/
theorem always_awake (clock : ClockAttributes) (net : NocNetwork δ γ)
    (protocol : SwitchingProtocol σ) (switching : ℕ → σ) (ls : List (TimedStep δ)) :
    Always (step clock net protocol) (Awake clock net protocol) (start switching) ls :=
  (Always.of_invariant (fun _ _ _ h _ hstep => Scheduled.step h hstep)
    (start_scheduled switching) (Allowed.trivial _ _ ls)).mono fun _ h => h.awake

end TimedNetwork

end Ns3Noc
