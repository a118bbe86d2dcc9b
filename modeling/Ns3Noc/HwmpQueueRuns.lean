import Ns3Noc.HwmpRequests
import Ns3Noc.PartialRuns

/-!
# Runs of HWMP at one mesh point

No packet is stranded in a run that never queues a packet at the full queue and in which no number
of a retry wraps.
-/
namespace Ns3Noc.Hwmp.HwmpProtocol

open PartialActs PartialRuns HwmpRtable

/-- The queue has room for one packet more than its size, and a number of a retry is 0 after 255. -/
def Safe (s : HwmpProtocol) : Event → Prop
  | .requestRoute sourceIface _ d packet _ =>
    sourceIface = s.attributes.ifIndex → packet.tag = none → s.rtable.Unresolved s.now d →
      s.rqueue.length ≠ s.attributes.maxQueueSize
  | .retryPathDiscovery id =>
    ∀ event ∈ s.events, event.id = id → event.time = s.now →
      s.rtable.Unresolved s.now event.dst → event.numOfRetry ≠ 0
  | _ => True

instance Safe.decidable (s : HwmpProtocol) (event : Event) : Decidable (s.Safe event) :=
  match event with
  | .requestRoute sourceIface _ d packet _ =>
    inferInstanceAs (Decidable (sourceIface = s.attributes.ifIndex → packet.tag = none →
      s.rtable.Unresolved s.now d → s.rqueue.length ≠ s.attributes.maxQueueSize))
  | .retryPathDiscovery id =>
    inferInstanceAs (Decidable (∀ event ∈ s.events, event.id = id → event.time = s.now →
      s.rtable.Unresolved s.now event.dst → event.numOfRetry ≠ 0))
  | .receivePreq .. => .isTrue trivial
  | .receivePrep .. => .isTrue trivial
  | .receivePerr .. => .isTrue trivial
  | .peerLinkStatus .. => .isTrue trivial
  | .sendProactivePreq => .isTrue trivial
  | .tick _ => .isTrue trivial

/-- A queued packet is replied to once, and not later than the last retry of its discovery. -/
structure Served (s : HwmpProtocol) : Prop where
  capacity : s.rqueue.length ≤ s.attributes.maxQueueSize
  pending : ∀ p ∈ s.rqueue, ∃ entry, s.preqTimeouts p.dst = some entry ∧
    ∃ event ∈ s.events, event.id = entry.preqTimeout ∧ event.dst = p.dst ∧ s.now ≤ event.time
  once : ∀ p time, .queued p time ∈ s.calls → s.replies p.reply + s.waiting p.reply = 1
  inTime : ∀ p time, .queued p time ∈ s.calls →
    time + retryTime s.attributes.netDiameterTraversalTime (s.attributes.maxPreqRetries + 1) < s.now →
      s.replies p.reply = 1
  requests : ∀ d entry, s.preqTimeouts d = some entry →
    entry.sent ≤ s.attributes.maxPreqRetries + 1

theorem Inv.served {s : HwmpProtocol} (h : Inv .none s) : s.Served := by
  refine ⟨h.capacity, fun p hp => ?_, fun p time hmem => (h.known p time hmem).2.2,
    fun p time hmem hlate => ?_, fun d entry he => (h.sent d entry he).2.1⟩
  · obtain ⟨entry, he, -⟩ := h.discovered p hp
    obtain ⟨event, hdisc⟩ := h.scheduled p.dst entry he nofun
    exact ⟨entry, he, event, hdisc.pending, hdisc.id, hdisc.dst, hdisc.future⟩
  · obtain ⟨-, -, hone⟩ := h.known p time hmem
    have hnone : s.waiting p.reply = 0 := by
      rw [waiting, List.countP_eq_zero]
      intro q hq hreply
      obtain ⟨entry, he, htime⟩ := h.discovered q hq
      obtain ⟨event, hdisc⟩ := h.scheduled q.dst entry he nofun
      have hwhen := htime p time hmem (of_decide_eq_true hreply).symm
      have hmono := retryTime_mono s.attributes.netDiameterTraversalTime (h.sent q.dst entry he).2.1
      have hfuture := hdisc.future
      have hevent := hdisc.time
      omega
    rw [hnone, Nat.add_zero] at hone
    exact hone

theorem inv_init (attributes : Attributes) : Inv .none (init attributes) :=
  ⟨Nat.zero_le _, nofun, nofun, nofun, nofun, nofun, nofun, nofun, nofun, nofun,
    fun _ _ => ⟨rfl, rfl⟩, nofun⟩

theorem handle_spec {s₀ : HwmpProtocol} (hs : Inv .none s₀) {event : Event} (hok : s₀.Safe event) :
    Triple (fun s => s = s₀) (handle event) fun _ => Inv .none := by
  have hpre : ∀ s, s = s₀ → Inv .none s := fun s heq => heq ▸ hs
  cases event with
  | requestRoute sourceIface source d packet protocolType =>
    apply Triple.bind (requestRoute_spec hs sourceIface source d packet protocolType hok)
    exact fun _ => Keeps.pure _
  | receivePreq => exact (keeps_receivePreq ..).pre hpre
  | receivePrep => exact (keeps_receivePrep ..).pre hpre
  | receivePerr => exact (keeps_receivePerr ..).pre hpre
  | peerLinkStatus => exact (keeps_peerLinkStatus ..).pre hpre
  | sendProactivePreq => exact keeps_sendProactivePreq.pre hpre
  | retryPathDiscovery id => exact fireRetry_spec hs hok
  | tick duration => exact (tick_spec duration).pre hpre

theorem inv_step {s s' : HwmpProtocol} {event : Event} (hs : Inv .none s) (hok : s.Safe event)
    (hr : step s event = some s') : Inv .none s' := by
  obtain ⟨⟨a, t⟩, hrun, rfl⟩ := Option.map_eq_some_iff.mp hr
  exact (handle_spec hs hok).run s rfl a t hrun

theorem never_stranded (attributes : Attributes) (events : List Event)
    (hok : Allowed step Safe (init attributes) events) :
    Always step Served (init attributes) events :=
  (Always.of_invariant (fun _ _ _ hs hok hr => inv_step hs hok hr) (inv_init attributes) hok).mono
    fun _ hs => hs.served

/-! ## Runs of one mesh point -/

/-- The defaults, with room for one packet -/
def onePacket : Attributes where
  address := 1
  ifIndex := 2
  interfaces := [1]
  maxQueueSize := 1
  maxPreqRetries := 3
  maxPreqRetries_lt := by decide
  activeRootTimeout := 5120000000
  netDiameterTraversalTime := 102400000
  maxTtl := 32

def untagged (uid : ℕ) : Packet := ⟨uid, none⟩

/-- One packet waits until its retry. -/
theorem one_packet_never_stranded :
    Always step Served (init onePacket)
      [.requestRoute 2 1 7 (untagged 0) 2048, .tick 204800000, .retryPathDiscovery 0] :=
  never_stranded onePacket _ (by decide +kernel)

/-- Two packets wait where there is room for one. -/
theorem queue_overfilled :
    ∃ s, run step (init onePacket)
        [.requestRoute 2 1 7 (untagged 0) 2048, .requestRoute 2 1 8 (untagged 1) 2048] = some s ∧
      s.attributes.maxQueueSize < s.rqueue.length :=
  ⟨_, rfl, by decide⟩

end Ns3Noc.Hwmp.HwmpProtocol
