import Ns3Noc.HwmpQueue

/-!
# What the actions of HWMP do to the packets that wait

One rule for each action. A path that is added and the flush that follows it are taken together.
-/
namespace Ns3Noc.Hwmp.HwmpProtocol

open PartialActs HwmpRtable

variable {w : Work}

/-! ## Actions that leave the queue alone -/

theorem Inv.counters {s : HwmpProtocol} (h : Inv w s) (hwmpSeqno drawn preqId : ℕ)
    (database : Address → Option (ℕ × ℕ)) :
    Inv w { s with
      hwmpSeqno := hwmpSeqno
      drawn := drawn
      preqId := preqId
      hwmpSeqnoMetricDatabase := database } :=
  ⟨h.capacity, h.tagged, h.unresolved, h.discovered, h.sent, h.scheduled, h.entered, h.one,
    h.retried, h.requested, h.fresh, h.known⟩

theorem keeps_call {c : Call} (hc : quiet c) : Keeps (Inv w) (call c) := by
  apply Triple.modify
  intro s hs
  refine hs.calls ?_
  simpa using hc

theorem keeps_callAll {c : ℕ → Call} (hc : ∀ i, quiet (c i)) : Keeps (Inv w) (callAll c) := by
  apply Triple.modify
  intro s hs
  apply hs.calls
  intro c' hmem
  obtain ⟨i, -, rfl⟩ := List.mem_map.mp hmem
  exact hc i

theorem keeps_assert (p : HwmpProtocol → Bool) : Keeps (Inv w) (assert p) := by
  apply Triple.get_bind
  intro s
  apply Triple.ite
  · exact fun _ => Triple.pure fun _ h => h.2
  · exact fun _ => Triple.failure

theorem keeps_getNextHwmpSeqno : Keeps (Inv w) getNextHwmpSeqno := by
  apply Keeps.bind
  · exact Triple.modify fun s hs => hs.counters _ _ _ _
  · exact fun _ => Keeps.bind Keeps.get fun _ => Keeps.pure _

theorem keeps_getNextPreqId : Keeps (Inv w) getNextPreqId := by
  apply Keeps.bind
  · exact Triple.modify fun s hs => hs.counters _ _ _ _
  · exact fun _ => Keeps.bind Keeps.get fun _ => Keeps.pure _

theorem keeps_acceptSeqno (address : Address) (seqno metric : ℕ) :
    Keeps (Inv w) (acceptSeqno address seqno metric) :=
  Triple.modify fun _ hs => hs.counters _ _ _ _

theorem keeps_lookupReactive (d : Address) : Keeps (Inv w) (lookupReactive d) :=
  Keeps.bind Keeps.get fun _ => Keeps.pure _

theorem keeps_lookupProactive : Keeps (Inv w) lookupProactive := by
  apply Keeps.bind
  · exact Triple.modify fun s hs => hs.table (offers_expireProactive s.rtable s.now)
  · exact fun _ => Keeps.bind Keeps.get fun _ => Keeps.pure _

theorem keeps_addPrecursor (d : Address) (interface : ℕ) (address : Address) (lifetime : ℤ) :
    Keeps (Inv w) (addPrecursor d interface address lifetime) :=
  Triple.modify fun s hs => hs.table (offers_addPrecursor s.rtable s.now d interface address lifetime)

theorem keeps_sendPrep (src dst retransmitter : Address)
    (initMetric originatorDsn destinationSN lifetime interface : ℕ) :
    Keeps (Inv w) (sendPrep src dst retransmitter initMetric originatorDsn destinationSN lifetime
      interface) := by
  apply Keeps.bind (keeps_assert _)
  intro _
  apply Keeps.bind Keeps.get
  intro _
  exact keeps_call rfl

/-! ## Path errors -/

theorem keeps_getUnreachableDestinations (peer : Address) :
    Keeps (Inv w) (getUnreachableDestinations peer) := by
  apply Triple.get_bind
  intro s₀
  refine Triple.bind (R := fun _ => Inv w) ?_ fun _ => Keeps.pure _
  apply Triple.modify
  rintro s ⟨rfl, hs⟩
  exact hs.table (offers_getUnreachableDestinations s.rtable s.now peer)

theorem keeps_getPerrReceivers (destinations : List FailedDestination) :
    Keeps (Inv w) (getPerrReceivers destinations) := by
  apply Triple.get_bind
  intro s₀
  refine Triple.bind (R := fun _ => Inv w) ?_ fun _ => Keeps.pure _
  apply Triple.modify
  rintro s ⟨rfl, hs⟩
  apply hs.table
  apply offers_foldl
  intro t d
  exact (offers_deleteReactivePath t s.now d.destination).trans
    (offers_deleteProactivePathTo _ s.now d.destination)

theorem keeps_makePathError (destinations : List FailedDestination) :
    Keeps (Inv w) (makePathError destinations) := by
  apply Keeps.bind (keeps_getPerrReceivers destinations)
  intro receivers
  apply Triple.ite
  · exact fun _ => Keeps.pure _
  · exact fun _ => Keeps.pure _

theorem keeps_initiatePathError (perr : List FailedDestination × List (ℕ × Address)) :
    Keeps (Inv w) (initiatePathError perr) :=
  keeps_callAll fun _ => rfl

theorem keeps_forwardPathError (perr : List FailedDestination × List (ℕ × Address)) :
    Keeps (Inv w) (forwardPathError perr) :=
  keeps_callAll fun _ => rfl

theorem keeps_unreachable (peer : Address) : Keeps (Inv w) (do
    let destinations ← getUnreachableDestinations peer
    let perr ← makePathError destinations
    initiatePathError perr) :=
  Keeps.bind (keeps_getUnreachableDestinations peer) fun _ =>
    Keeps.bind (keeps_makePathError _) fun _ => keeps_initiatePathError _

theorem keeps_peerLinkStatus (peer : Address) (status : Bool) :
    Keeps (Inv w) (peerLinkStatus peer status) := by
  apply Triple.ite
  · exact fun _ => Keeps.pure _
  · exact fun _ => keeps_unreachable peer

theorem keeps_receivePerr (destinations : List FailedDestination) (sender : Address)
    (interface : ℕ) : Keeps (Inv w) (receivePerr destinations sender interface) := by
  apply Keeps.bind Keeps.get
  intro s₀
  apply Triple.ite
  · exact fun _ => Keeps.pure _
  · exact fun _ => Keeps.bind (keeps_makePathError _) fun _ => keeps_forwardPathError _

theorem keeps_pathErrorFor (d : Address) : Keeps (Inv w) (pathErrorFor d) := by
  apply Keeps.bind Keeps.get
  intro s
  dsimp only
  split
  · exact Keeps.pure _
  · exact keeps_unreachable _

/-! ## Paths that are added -/

theorem Inv.resolved_mono {s : HwmpProtocol} {resolved : QueuedPacket → Prop} (h : Inv w s)
    (himp : ∀ p ∈ s.rqueue, w.resolved p → resolved p) :
    Inv { w with resolved := resolved } s :=
  ⟨h.capacity, h.tagged, fun p hp => (h.unresolved p hp).imp_left (himp p hp), h.discovered, h.sent,
    h.scheduled, h.entered, h.one, h.retried, h.requested, h.fresh, h.known⟩

theorem flush_byDst (d : Address) {answer : QueuedPacket → Call}
    (hanswer : ∀ p reply, isReplyTo reply (answer p) = decide (p.reply = reply)) :
    Triple (Inv w) (flush (dequeueFirstPacketByDst d) answer) fun _ s =>
      Inv { w with resolved := fun p => w.resolved p ∧ p.dst ≠ d } s ∧ ∀ p ∈ s.rqueue, p.dst ≠ d := by
  apply Triple.modify
  intro s hs
  have hflush := hs.flush (fun p => decide (p.dst ≠ d)) hanswer
  have htaken : (s.rqueue.filter fun p => !decide (p.dst ≠ d)) = s.rqueue.filter (·.dst = d) := by
    simp
  rw [htaken] at hflush
  simp only [dequeueAll_byDst d le_rfl]
  constructor
  · exact hflush.resolved_mono fun p _ hp => ⟨hp.1, of_decide_eq_true hp.2⟩
  · intro p hp
    exact of_decide_eq_true (List.mem_filter.mp hp).2

theorem flush_first {answer : QueuedPacket → Call}
    (hanswer : ∀ p reply, isReplyTo reply (answer p) = decide (p.reply = reply)) :
    Triple (Inv w) (flush dequeueFirstPacket answer) fun _ =>
      Inv { w with resolved := fun _ => False } := by
  apply Triple.modify
  intro s hs
  have hflush := hs.flush (fun _ => false) hanswer
  have hall : (s.rqueue.filter fun _ => !false) = s.rqueue := by simp
  have hnone : (s.rqueue.filter fun _ => false) = [] := by simp
  rw [hall, hnone] at hflush
  simp only [dequeueAll_first le_rfl]
  exact hflush.resolved_mono fun p hp => absurd hp List.not_mem_nil

theorem keeps_noteDiscoveryTime (d : Address) : Keeps (Inv w) (noteDiscoveryTime d) := by
  apply Keeps.bind Keeps.get
  intro s
  split
  · exact Keeps.pure _
  · exact keeps_call rfl

/-- Only packets for the destination have a path. -/
abbrev Work.resolvedFor (d : Address) : Work := { Work.none with resolved := fun p => p.dst = d }

theorem reactivePathResolved_spec (d : Address) :
    Triple (Inv (.resolvedFor d)) (reactivePathResolved d) fun _ => Inv .none := by
  apply Triple.bind (keeps_noteDiscoveryTime d)
  intro _
  apply Triple.bind (keeps_lookupReactive d)
  intro result
  split
  · exact Triple.failure
  · refine (flush_byDst d fun _ _ => rfl).post ?_
    rintro - s ⟨hs, -⟩
    exact hs.resolved_mono fun p _ hp => hp.2 hp.1

theorem proactivePathResolved_spec :
    Triple (Inv { Work.none with resolved := fun _ => True }) proactivePathResolved fun _ =>
      Inv .none := by
  apply Triple.bind keeps_lookupProactive
  intro result
  dsimp only
  split
  · exact Triple.failure
  · apply Triple.bind (keeps_assert _)
    intro _
    exact flush_first fun _ _ => rfl

theorem addReactivePath_spec (d sender : Address) (interface metric lifetime seqnum : ℕ) :
    Triple (Inv .none) (addReactivePath d sender interface metric lifetime seqnum) fun _ =>
      Inv (.resolvedFor d) := by
  apply Triple.modify
  intro s hs
  refine ⟨hs.capacity, hs.tagged, fun p hp => ?_, hs.discovered, hs.sent, hs.scheduled, hs.entered,
    hs.one, hs.retried, hs.requested, hs.fresh, hs.known⟩
  have hun := (hs.unresolved p hp).resolve_left id
  by_cases hd : p.dst = d
  · exact .inl hd
  · exact .inr (hun.addReactivePath hd ..)

theorem addProactivePath_spec (metric : ℕ) (root sender : Address)
    (interface lifetime seqnum : ℕ) :
    Triple (Inv .none) (addProactivePath metric root sender interface lifetime seqnum) fun _ =>
      Inv { Work.none with resolved := fun _ => True } :=
  Triple.modify fun _ hs => ⟨hs.capacity, hs.tagged, fun _ _ => .inl trivial, hs.discovered, hs.sent,
    hs.scheduled, hs.entered, hs.one, hs.retried, hs.requested, hs.fresh, hs.known⟩

theorem keeps_addPathToTransmitter (fromMp sender : Address)
    (interface metric lifetime seqnum : ℕ) :
    Keeps (Inv .none) (addPathToTransmitter fromMp sender interface metric lifetime seqnum) := by
  apply Keeps.bind (keeps_lookupReactive fromMp)
  intro result
  apply Triple.ite
  · intro _
    exact Triple.bind (addReactivePath_spec ..) fun _ => reactivePathResolved_spec fromMp
  · exact fun _ => Keeps.pure _

theorem keeps_addPathToRoot (preq : IePreq) (sender : Address) (interface : ℕ) :
    Keeps (Inv .none) (addPathToRoot preq sender interface) := by
  apply Keeps.bind keeps_lookupProactive
  intro result
  apply Triple.ite
  · intro _
    exact Triple.bind (addProactivePath_spec ..) fun _ => proactivePathResolved_spec
  · exact fun _ => Keeps.pure _

theorem keeps_addPathToPreqOriginator (preq : IePreq) (sender : Address) (interface : ℕ)
    (freshInfo : Bool) :
    Keeps (Inv .none) (addPathToPreqOriginator preq sender interface freshInfo) := by
  apply Keeps.bind (keeps_lookupReactive _)
  intro result
  apply Triple.ite
  · intro _
    exact Triple.bind (addReactivePath_spec ..) fun _ => reactivePathResolved_spec _
  · exact fun _ => Keeps.pure _

theorem keeps_addPrecursorTowards (prep : IePrep) (interface : ℕ) (result : LookupResult) :
    Keeps (Inv w) (addPrecursorTowards prep interface result) := by
  rw [addPrecursorTowards]
  split
  · exact Keeps.pure _
  · exact keeps_addPrecursor ..

theorem keeps_addPathToPrepOriginator (prep : IePrep) (sender : Address) (interface : ℕ)
    (freshInfo : Bool) (result : LookupResult) :
    Keeps (Inv .none) (addPathToPrepOriginator prep sender interface freshInfo result) := by
  apply Keeps.bind (keeps_lookupReactive _)
  intro known
  apply Triple.ite
  · intro _
    apply Triple.bind (addReactivePath_spec ..)
    intro _
    apply Triple.bind (keeps_addPrecursor ..)
    intro _
    apply Triple.bind (keeps_addPrecursorTowards ..)
    intro _
    exact reactivePathResolved_spec _
  · exact fun _ => Keeps.pure _

/-! ## Frames -/

theorem keeps_receiveProactivePreq (preq : IePreq) (sender : Address) (interface : ℕ) :
    Keeps (Inv .none) (receiveProactivePreq preq sender interface) := by
  apply Keeps.bind (keeps_addPathToRoot preq sender interface)
  intro _
  apply Triple.ite
  · exact fun _ => Keeps.pure _
  · intro _
    apply Keeps.bind keeps_getNextHwmpSeqno
    intro seqno
    exact Keeps.bind Keeps.get fun _ => keeps_sendPrep ..

theorem keeps_answerAsDestination (preq : IePreq) (sender : Address) (interface : ℕ) :
    Keeps (Inv w) (answerAsDestination preq sender interface) := by
  apply Keeps.bind keeps_getNextHwmpSeqno
  intro seqno
  apply Keeps.bind Keeps.get
  intro s
  exact Keeps.bind (keeps_sendPrep ..) fun _ => keeps_assert _

theorem keeps_answerForDestination (preq : IePreq) (sender : Address) (interface : ℕ)
    (destination : Address) (result : LookupResult) :
    Keeps (Inv w) (answerForDestination preq sender interface destination result) :=
  Keeps.bind (keeps_sendPrep ..) fun _ => keeps_addPrecursor ..

theorem keeps_receiveDestinations (preq : IePreq) (sender : Address) (interface : ℕ)
    (units left : Units) :
    Keeps (Inv .none) (receiveDestinations preq sender interface units left) := by
  induction units generalizing left with
  | nil => exact Keeps.pure _
  | cons entry units ih =>
    obtain ⟨i, unit⟩ := entry
    rw [receiveDestinations]
    split
    · apply Keeps.bind (keeps_assert _)
      intro _
      exact Keeps.bind (keeps_receiveProactivePreq ..) fun _ => Keeps.pure _
    · apply Keeps.bind Keeps.get
      intro s
      apply Triple.ite
      · intro _
        exact Keeps.bind (keeps_answerAsDestination ..) fun _ => ih _
      · intro _
        apply Keeps.bind (keeps_lookupReactive _)
        intro result
        apply Triple.ite
        · intro _
          exact Keeps.bind (keeps_answerForDestination ..) fun _ => ih _
        · exact fun _ => ih _

theorem keeps_receivePreq (preq : IePreq) (sender : Address) (interface : ℕ) (fromMp : Address)
    (metric : ℕ) : Keeps (Inv .none) (receivePreq preq sender interface fromMp metric) := by
  apply Keeps.bind Keeps.get
  intro s
  split
  · exact Keeps.pure _
  · apply Keeps.bind (keeps_acceptSeqno ..)
    intro _
    apply Keeps.bind (keeps_addPathToPreqOriginator ..)
    intro _
    apply Keeps.bind (keeps_addPathToTransmitter ..)
    intro _
    apply Keeps.bind (keeps_receiveDestinations ..)
    intro left
    apply Triple.ite
    · exact fun _ => Keeps.pure _
    · exact fun _ => keeps_callAll fun _ => rfl

theorem keeps_forwardPrep (prep : IePrep) (result : LookupResult) :
    Keeps (Inv w) (forwardPrep prep result) := by
  apply Keeps.bind Keeps.get
  intro s
  apply Triple.ite
  · exact fun _ => Keeps.pure _
  · intro _
    split
    · exact Keeps.pure _
    · exact Keeps.bind (keeps_assert _) fun _ => keeps_call rfl

theorem keeps_receivePrep (prep : IePrep) (sender : Address) (interface : ℕ) (fromMp : Address)
    (metric : ℕ) : Keeps (Inv .none) (receivePrep prep sender interface fromMp metric) := by
  apply Keeps.bind Keeps.get
  intro s
  split
  · exact Keeps.pure _
  · apply Keeps.bind (keeps_acceptSeqno ..)
    intro _
    apply Keeps.bind (keeps_lookupReactive _)
    intro result
    apply Keeps.bind (keeps_addPathToPrepOriginator ..)
    intro _
    apply Keeps.bind (keeps_addPathToTransmitter ..)
    intro _
    exact keeps_forwardPrep ..

theorem keeps_sendProactivePreq : Keeps (Inv .none) sendProactivePreq := by
  apply Keeps.bind keeps_getNextPreqId
  intro preqId
  apply Keeps.bind keeps_getNextHwmpSeqno
  intro seqno
  exact Keeps.bind Keeps.get fun _ => keeps_callAll fun _ => rfl

end Ns3Noc.Hwmp.HwmpProtocol
