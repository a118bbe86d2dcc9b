import Ns3Noc.HwmpRetries

/-!
# Requests that are routed

A packet is replied to at once where a path is known. Any other packet of the mesh point itself is
queued, and its discovery is started or under way.
-/
namespace Ns3Noc.Hwmp.HwmpProtocol

open PartialActs HwmpRtable

abbrev Work.routing (reply : ℕ) : Work := { Work.none with request := some reply }

variable {reply : ℕ}

theorem Inv.requestDone {s : HwmpProtocol} (h : Inv (.routing reply) s) : Inv .none s :=
  ⟨h.capacity, h.tagged, h.unresolved, h.discovered, h.sent, h.scheduled, h.entered, h.one,
    h.retried, nofun, fun r hr => h.fresh r (.inl (hr.resolve_right nofun)), fun p time hmem =>
    ⟨(h.known p time hmem).1, nofun, (h.known p time hmem).2.2⟩⟩

theorem Inv.replied {s : HwmpProtocol} (h : Inv (.routing reply) s) (success : Bool)
    (packet : Packet) (source destination : Address) (protocolType outInterface : ℕ) :
    Inv .none { s with
      calls := s.calls ++
        [.routeReply reply success packet source destination protocolType outInterface] } := by
  have hreplies : ∀ r, r ≠ reply → List.countP (isReplyTo r) (s.calls ++
      [.routeReply reply success packet source destination protocolType outInterface]) =
      s.replies r := by
    intro r hr
    rw [List.countP_append, List.countP_singleton, isReplyTo, if_neg (by simpa using hr.symm)]
    rfl
  have hqueued : ∀ p time, .queued p time ∈ s.calls ++
      [.routeReply reply success packet source destination protocolType outInterface] →
      .queued p time ∈ s.calls := by
    intro p time hmem
    exact (List.mem_append.mp hmem).resolve_right (by simp)
  refine ⟨h.capacity, h.tagged, h.unresolved, fun p hp => ?_, h.sent, h.scheduled, h.entered, h.one,
    h.retried, (fun r hr => by cases hr), fun r hr => ?_, fun p time hmem => ?_⟩
  · obtain ⟨entry, he, htime⟩ := h.discovered p hp
    exact ⟨entry, he, fun q time hmem => htime q time (hqueued q time hmem)⟩
  · have hle := hr.resolve_right fun heq => by cases heq
    have hne : r ≠ reply := fun heq => absurd (h.requested reply rfl) (heq ▸ hle.not_gt)
    obtain ⟨hzero, hwaiting⟩ := h.fresh r (.inl hle)
    exact ⟨(hreplies r hne).trans hzero, hwaiting⟩
  · obtain ⟨hlt, hne, hone⟩ := h.known p time (hqueued p time hmem)
    refine ⟨hlt, (fun heq => by cases heq), ?_⟩
    rw [replies, hreplies p.reply fun heq => hne (congrArg some heq.symm)]
    exact hone

theorem Inv.queued {s : HwmpProtocol} {packet : QueuedPacket} (h : Inv (.routing packet.reply) s)
    (htag : packet.pkt.tag.isSome) (hun : s.rtable.Unresolved s.now packet.dst)
    (hentry : (s.preqTimeouts packet.dst).isSome)
    (hlt : s.rqueue.length < s.attributes.maxQueueSize) :
    Inv .none { s with
      rqueue := s.rqueue ++ [packet]
      calls := s.calls ++ [.queued packet s.now] } := by
  have hreplies : ∀ r, List.countP (isReplyTo r) (s.calls ++ [.queued packet s.now]) =
      s.replies r := by
    intro r
    rw [List.countP_append, List.countP_singleton]
    rfl
  have hwaiting : ∀ r, List.countP (·.reply = r) (s.rqueue ++ [packet]) =
      s.waiting r + if packet.reply = r then 1 else 0 := by
    intro r
    rw [List.countP_append, List.countP_singleton, waiting]
    simp
  have hqueued : ∀ p time, .queued p time ∈ s.calls ++ [.queued packet s.now] →
      .queued p time ∈ s.calls ∨ p = packet ∧ time = s.now := by
    intro p time hmem
    simpa using hmem
  refine ⟨?_, fun p hp => ?_, fun p hp => ?_, fun p hp => ?_, h.sent, h.scheduled, h.entered, h.one,
    h.retried, (fun r hr => by cases hr), fun r hr => ?_, fun p time hmem => ?_⟩
  · rw [List.length_append]
    exact hlt
  · obtain hp | hp := List.mem_append.mp hp
    · exact h.tagged p hp
    · obtain rfl := List.mem_singleton.mp hp
      exact htag
  · obtain hp | hp := List.mem_append.mp hp
    · exact h.unresolved p hp
    · obtain rfl := List.mem_singleton.mp hp
      exact .inr hun
  · have hdiscovered : ∃ entry, s.preqTimeouts p.dst = some entry ∧
        ∀ q time, .queued q time ∈ s.calls → q.reply = p.reply → entry.whenScheduled ≤ time := by
      obtain hp | hp := List.mem_append.mp hp
      · exact h.discovered p hp
      · obtain rfl := List.mem_singleton.mp hp
        obtain ⟨entry, he⟩ := Option.isSome_iff_exists.mp hentry
        refine ⟨entry, he, fun q time hmem hreply => ?_⟩
        exact absurd (congrArg some hreply.symm) (h.known q time hmem).2.1
    obtain ⟨entry, he, htime⟩ := hdiscovered
    refine ⟨entry, he, fun q time hmem hreply => ?_⟩
    obtain hmem | ⟨-, rfl⟩ := hqueued q time hmem
    · exact htime q time hmem hreply
    · exact (h.sent _ entry he).2.2
  · have hle := hr.resolve_right fun heq => by cases heq
    have hne : packet.reply ≠ r := fun heq => absurd (h.requested _ rfl) (heq ▸ hle.not_gt)
    obtain ⟨hzero, hnone⟩ := h.fresh r (.inl hle)
    exact ⟨(hreplies r).trans hzero, by rw [waiting, hwaiting, hnone, if_neg hne]⟩
  · rw [replies, waiting, hreplies, hwaiting]
    obtain hmem | ⟨rfl, -⟩ := hqueued p time hmem
    · obtain ⟨hlt, hne, hone⟩ := h.known p time hmem
      refine ⟨hlt, (fun heq => by cases heq), ?_⟩
      rw [if_neg fun heq => hne (congrArg some heq)]
      exact hone
    · obtain ⟨hzero, hnone⟩ := h.fresh p.reply (.inr rfl)
      refine ⟨h.requested _ rfl, (fun heq => by cases heq), ?_⟩
      rw [hzero, hnone, if_pos rfl]

/-! ## The discovery -/

theorem shouldSendPreq_spec (d : Address) (s₀ : HwmpProtocol) :
    Triple (fun s => s = s₀) (shouldSendPreq d) fun send s =>
      if send then s₀.preqTimeouts d = none ∧ s = { s₀ with
        events := s₀.events ++
          [⟨s₀.nextEvent, s₀.now + s₀.attributes.netDiameterTraversalTime * 2, d, 1⟩]
        preqTimeouts := Function.update s₀.preqTimeouts d (some ⟨s₀.nextEvent, s₀.now, 0⟩)
        nextEvent := s₀.nextEvent + 1 }
      else (s₀.preqTimeouts d).isSome ∧ s = s₀ := by
  apply Triple.get_bind
  intro s
  apply Triple.of_state
  rintro s' ⟨h₁, rfl⟩
  obtain rfl : s' = s := h₁
  cases he : s'.preqTimeouts d with
  | some entry =>
    apply Triple.pure
    rintro s rfl
    exact ⟨rfl, rfl⟩
  | none =>
    refine Triple.bind (R := fun _ s => s = { s' with
        events := s'.events ++
          [⟨s'.nextEvent, s'.now + s'.attributes.netDiameterTraversalTime * 2, d, 1⟩]
        preqTimeouts := Function.update s'.preqTimeouts d (some ⟨s'.nextEvent, s'.now, 0⟩)
        nextEvent := s'.nextEvent + 1 }) ?_ fun _ => Triple.pure fun s hs => ⟨rfl, hs⟩
    apply Triple.modify
    rintro s rfl
    rfl

/-- After it a retry for the destination is pending. -/
theorem startDiscovery_spec (d : Address) {s₀ : HwmpProtocol} (hs : Inv (.routing reply) s₀) :
    Triple (fun s => s = s₀) (startDiscovery d) fun _ s =>
      Inv (.routing reply) s ∧ (s.preqTimeouts d).isSome ∧ s.rqueue = s₀.rqueue ∧
      s.rtable = s₀.rtable ∧ s.now = s₀.now ∧ s.attributes = s₀.attributes := by
  apply Triple.get_bind
  intro s
  apply Triple.of_state
  rintro s' ⟨h₁, rfl⟩
  obtain rfl : s' = s := h₁
  apply Triple.bind (shouldSendPreq_spec d s')
  intro send
  cases send with
  | false =>
    apply Triple.pure
    rintro s ⟨hsome, rfl⟩
    exact ⟨hs, hsome, rfl, rfl, rfl, rfl⟩
  | true =>
    constructor
    rintro _ ⟨hnone, rfl⟩ _ s hr
    obtain ⟨-, rfl⟩ := Prod.mk.inj (Option.some.inj hr)
    have hevents : ∀ event ∈ s'.events, event.dst ≠ d := by
      rintro event hmem rfl
      obtain ⟨-, -, entry, he, -⟩ := hs.entered event hmem
      exact nomatch hnone.symm.trans he
    have hqueue : ∀ p ∈ s'.rqueue, p.dst = d → ∀ q time, .queued q time ∈ s'.calls →
        q.reply = p.reply → s'.now ≤ time := by
      rintro p hp rfl
      obtain ⟨entry, he, -⟩ := hs.discovered p hp
      exact nomatch hnone.symm.trans he
    have hpos : 1 ≤ s'.attributes.maxPreqRetries + 1 := Nat.succ_pos _
    have htime : s'.now + s'.attributes.netDiameterTraversalTime * 2 ≤
        s'.now + retryTime s'.attributes.netDiameterTraversalTime 1 := le_rfl
    have h := hs.request nofun hevents hqueue le_rfl Nat.one_pos hpos htime
      (uint32 (s'.hwmpSeqno + 1)) (s'.drawn + 1) (uint32 (s'.hwmpSeqno + 1))
      (if (s'.rtable.lookupReactiveExpired s'.now d).retransmitter = none then 0
        else (s'.rtable.lookupReactiveExpired s'.now d).seqnum)
    refine ⟨?_, ?_, rfl, rfl, rfl, rfl⟩
    · simp only [Function.update_self, Option.map_some, Function.update_idem]
      exact h
    · simp only [Function.update_self, Option.map_some, Option.isSome_some]

theorem queuePacket_spec (packet : QueuedPacket) {s₀ : HwmpProtocol}
    (hlt : s₀.rqueue.length < s₀.attributes.maxQueueSize) :
    Triple (fun s => s = s₀) (queuePacket packet) fun isQueued s =>
      isQueued = true ∧ s = { s₀ with rqueue := s₀.rqueue ++ [packet] } := by
  apply Triple.get_bind
  intro s
  apply Triple.of_state
  rintro s' ⟨h₁, rfl⟩
  obtain rfl : s' = s := h₁
  apply Triple.ite
  · exact fun hgt => absurd hgt hlt.not_gt
  · intro _
    refine Triple.bind (R := fun _ s => s = { s' with rqueue := s'.rqueue ++ [packet] }) ?_
      fun _ => Triple.pure fun s hs => ⟨rfl, hs⟩
    apply Triple.modify
    rintro s rfl
    rfl

/-! ## Routing -/

/-- A packet without a path must not meet a full queue. -/
theorem forwardUnicast_spec {s₀ : HwmpProtocol} (hs : Inv (.routing reply) s₀) (sourceIface : ℕ)
    (source d : Address) (packet : Packet) (protocolType ttl : ℕ)
    (hok : sourceIface = s₀.attributes.ifIndex → s₀.rtable.Unresolved s₀.now d →
      s₀.rqueue.length ≠ s₀.attributes.maxQueueSize) :
    Triple (fun s => s = s₀) (forwardUnicast sourceIface source d packet protocolType reply ttl)
      fun _ => Inv .none := by
  have hlookup := (lookupPath_spec (w := .routing reply) d s₀).pre
    fun s heq => ⟨heq, heq ▸ hs⟩
  apply Triple.bind hlookup
  intro result
  apply Triple.of_state
  rintro s ⟨hs', hresult, hun, t, hstate⟩
  apply Triple.ite
  · intro _
    refine Triple.bind (R := fun _ => Inv .none) ?_ fun _ => Keeps.pure _
    apply Triple.modify
    rintro _ rfl
    exact hs'.replied ..
  intro hnone
  have hnone := not_not.mp hnone
  apply Triple.get_bind
  intro s₁
  apply Triple.of_state
  rintro s₂ ⟨h₁, rfl⟩
  obtain rfl : s₂ = s₁ := h₁
  have hattributes : s₂.attributes = s₀.attributes := by rw [hstate]
  have hrqueue : s₂.rqueue = s₀.rqueue := by rw [hstate]
  apply Triple.ite
  · intro _
    refine Triple.bind (R := fun _ => Inv (.routing reply)) ?_ fun _ =>
      Triple.pure fun _ h => h.requestDone
    refine (keeps_pathErrorFor d).pre ?_
    rintro _ rfl
    exact hs'
  intro hiface
  have hsource : sourceIface = s₀.attributes.ifIndex := hattributes ▸ not_not.mp hiface
  have hlt := lt_of_le_of_ne hs.capacity (hok hsource (hresult.mp hnone))
  apply Triple.bind (startDiscovery_spec d hs')
  intro _
  apply Triple.of_state
  rintro s₃ ⟨hs₃, hsome, hqueue, htable, hnow, hattributes'⟩
  have hlt₃ : s₃.rqueue.length < s₃.attributes.maxQueueSize := by
    rw [hqueue, hattributes', hrqueue, hattributes]
    exact hlt
  apply Triple.bind (queuePacket_spec _ hlt₃)
  intro isQueued
  apply Triple.of_state
  rintro s₄ ⟨rfl, rfl⟩
  refine Triple.bind (R := fun _ => Inv .none) ?_ fun _ => Keeps.pure _
  apply Triple.modify
  rintro _ rfl
  have hun₃ : s₃.rtable.Unresolved s₃.now d := by
    rw [htable, hnow]
    exact hun hnone
  let queuedPacket : QueuedPacket := ⟨{ packet with tag := some ⟨result.retransmitter, ttl, 0, 0⟩ },
    source, d, protocolType, sourceIface, reply⟩
  have h := @Inv.queued _ queuedPacket hs₃ rfl hun₃ hsome hlt₃
  rw [← hnow]
  exact h

theorem requestRoute_spec {s₀ : HwmpProtocol} (hs : Inv .none s₀) (sourceIface : ℕ)
    (source d : Address) (packet : Packet) (protocolType : ℕ)
    (hok : sourceIface = s₀.attributes.ifIndex → packet.tag = none → s₀.rtable.Unresolved s₀.now d →
      s₀.rqueue.length ≠ s₀.attributes.maxQueueSize) :
    Triple (fun s => s = s₀) (requestRoute sourceIface source d packet protocolType) fun _ =>
      Inv .none := by
  apply Triple.get_bind
  intro s
  apply Triple.of_state
  rintro s' ⟨h₁, rfl⟩
  obtain rfl : s' = s := h₁
  have hrouting : Inv (.routing s'.requests) { s' with requests := s'.requests + 1 } := by
    refine ⟨hs.capacity, hs.tagged, hs.unresolved, hs.discovered, hs.sent, hs.scheduled, hs.entered,
      hs.one, hs.retried, fun r hr => ?_, fun r hr => hs.fresh r (.inl ?_), fun p time hmem => ?_⟩
    · exact Nat.lt_succ_of_le (Option.some.inj hr).ge
    · obtain hle | heq := hr
      · exact Nat.le_of_succ_le hle
      · exact (Option.some.inj heq).le
    · obtain ⟨hlt, -, hone⟩ := hs.known p time hmem
      exact ⟨Nat.lt_succ_of_lt hlt, fun heq => hlt.ne' (Option.some.inj heq), hone⟩
  refine Triple.bind (R := fun _ s => s = { s' with requests := s'.requests + 1 }) ?_ fun _ => ?_
  · apply Triple.modify
    rintro s rfl
    rfl
  apply Triple.ite
  · intro hsource
    split
    · exact Triple.failure
    · rename_i htag
      exact forwardUnicast_spec hrouting sourceIface source d _ protocolType _ fun _ =>
        hok hsource htag
  · intro hsource
    split
    · exact Triple.failure
    rename_i tag _
    apply Triple.ite
    · intro _
      apply Triple.pure
      rintro s rfl
      exact hrouting.requestDone
    · intro _
      exact forwardUnicast_spec hrouting sourceIface source d _ protocolType _ fun h =>
        absurd h hsource

end Ns3Noc.Hwmp.HwmpProtocol
