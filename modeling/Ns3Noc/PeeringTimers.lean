import Ns3Noc.PeeringSteps

/-!
# Timers of two mesh points

Every event leaves the link of a mesh point with the timer of its state. No link is stuck in any run, and established links agree in runs in which no stale open frame is
accepted. One late open frame is enough to end the agreement.
-/
namespace Ns3Noc.MeshPeering


namespace PeerLink

variable {link : PeerLink} {r : Reaction}

theorem setPeerMp_timersPending {peerMp : MeshPoint} {event : PeerEvent}
    {reason : PmpReasonCode} (h : link.TimersPending)
    (hr : (link.setPeerMp peerMp).bind (·.stateMachine event reason) = some r) :
    r.link.TimersPending := by
  obtain ⟨link', hlink', hstep⟩ := Option.bind_eq_some_iff.mp hr
  exact stateMachine_timersPending (.inl ((setPeerMp_eq hlink').2.2.2 h)) hstep

theorem learnPeerLinkId_timersPending {id : ℕ} (h : link.TimersPending) :
    (link.learnPeerLinkId id).TimersPending := by
  rw [learnPeerLinkId]
  split_ifs
  · exact h
  · exact h

theorem confirmAccept_timersPending {id peerId aid : ℕ} {peerMp : MeshPoint}
    (h : link.TimersPending) (hr : link.confirmAccept id peerId aid peerMp = some r) :
    r.link.TimersPending := by
  simp only [confirmAccept] at hr
  split_ifs at hr
  · exact Option.some.inj hr ▸ h
  · exact Option.some.inj hr ▸ h
  · have hlearn : { link.learnPeerLinkId id with peerAssocId := aid }.TimersPending :=
      learnPeerLinkId_timersPending h
    exact setPeerMp_timersPending hlearn hr

theorem close_timersPending {id peerId : ℕ} {reason : PmpReasonCode} (h : link.TimersPending)
    (hr : link.close id peerId reason = some r) : r.link.TimersPending := by
  simp only [close] at hr
  split_ifs at hr
  · exact Option.some.inj hr ▸ h
  · exact Option.some.inj hr ▸ h
  · exact stateMachine_timersPending (.inl (learnPeerLinkId_timersPending h)) hr

theorem retryTimeout_timersPending (h : link.TimersPending) (hr : link.retryTimeout = some r) :
    r.link.TimersPending := by
  refine stateMachine_timersPending ?_ hr
  rw [TimersPending] at h
  cases hs : link.state <;> simp only [hs] at h <;>
    simp only [TimersPending, Expired, clearRetryTimer, hs, h, true_or]
  all_goals
    right
    split_ifs <;> simp

theorem confirmTimeout_timersPending (h : link.TimersPending) (hr : link.confirmTimeout = some r) :
    r.link.TimersPending := by
  refine stateMachine_timersPending ?_ hr
  rw [TimersPending] at h
  cases hs : link.state <;> simp only [hs] at h <;>
    simp only [TimersPending, Expired, clearConfirmTimer, hs, h, true_or, or_true]

theorem holdingTimeout_timersPending (h : link.TimersPending) (hr : link.holdingTimeout = some r) :
    r.link.TimersPending := by
  refine stateMachine_timersPending ?_ hr
  rw [TimersPending] at h
  cases hs : link.state <;> simp only [hs] at h <;>
    simp only [TimersPending, Expired, clearHoldingTimer, hs, h, true_or, or_true]

theorem transmissionFailure_timersPending (h : link.TimersPending)
    (hr : link.transmissionFailure = some r) : r.link.TimersPending := by
  simp only [transmissionFailure] at hr
  have hlink : { link with packetFail := (link.packetFail + 1) % 65536 }.TimersPending := h
  split_ifs at hr
  · obtain ⟨reaction, hreaction, rfl⟩ := Option.map_eq_some_iff.mp hr
    have hnew : reaction.link.TimersPending := stateMachine_timersPending (.inl hlink) hreaction
    exact hnew
  · exact Option.some.inj hr ▸ hlink

end PeerLink

namespace PeerManagementProtocol

variable {pmp : PeerManagementProtocol} {r : PeerManagementProtocol × List PeerLinkFrame}

/-- The link of the mesh point, if there is one, has the timer of its state. -/
def Live (pmp : PeerManagementProtocol) : Prop := ∀ link ∈ pmp.peerLink, link.TimersPending

theorem Live.findPeerLink (h : pmp.Live) : pmp.findPeerLink.Live :=
  fun link hlink => h link (mem_findPeerLink.mp hlink).1

theorem initiateLink_live (address : Option MeshPoint) : (pmp.initiateLink address).Live := by
  intro link hlink
  obtain rfl := Option.some.inj hlink
  exact True.intro

theorem Live.withLink {f : PeerLink → Option Reaction} (h : pmp.Live)
    (hf : ∀ link, link.TimersPending → ∀ r, f link = some r → r.link.TimersPending)
    (hr : pmp.withLink f = some r) : r.1.Live := by
  rw [PeerManagementProtocol.withLink] at hr
  cases hlink : pmp.peerLink with
  | none =>
    simp only [hlink] at hr
    rw [← Option.some.inj hr]
    exact h
  | some link =>
    simp only [hlink] at hr
    obtain ⟨reaction, hreaction, rfl⟩ := Option.map_eq_some_iff.mp hr
    have hpending := hf link (h link hlink) reaction hreaction
    have hnew : Live { pmp with peerLink := some reaction.link } := by
      intro link' hlink'
      obtain rfl := Option.some.inj hlink'
      exact hpending
    intro link' hlink'
    rw [PeerManagementProtocol.apply] at hlink'
    cases hstatus : reaction.status with
    | none =>
      simp only [hstatus] at hlink'
      exact hnew link' hlink'
    | some status =>
      simp only [hstatus] at hlink'
      exact hnew link' (mem_peerLinkStatus.mp hlink').1

theorem Live.timeout {pending : PeerLink → Bool} {f : PeerLink → Option Reaction} (h : pmp.Live)
    (hf : ∀ link, link.TimersPending → ∀ r, f link = some r → r.link.TimersPending)
    (hr : pmp.timeout pending f = some r) : r.1.Live := by
  rw [PeerManagementProtocol.timeout] at hr
  split_ifs at hr
  exact h.withLink hf hr

theorem Live.receiveBeacon (h : pmp.Live) (hr : pmp.receiveBeacon = some r) : r.1.Live := by
  rw [PeerManagementProtocol.receiveBeacon] at hr
  cases hlink : pmp.findPeerLink.peerLink with
  | some link =>
    simp only [hlink] at hr
    rw [← Option.some.inj hr]
    intro link' hlink'
    obtain rfl := Option.some.inj hlink'
    exact h.findPeerLink link hlink
  | none =>
    simp only [hlink] at hr
    split_ifs at hr
    refine (initiateLink_live none).withLink (fun link hpending reaction hreaction => ?_) hr
    obtain ⟨reaction', hreaction', rfl⟩ := Option.map_eq_some_iff.mp hreaction
    have hnew : reaction'.link.TimersPending :=
      PeerLink.stateMachine_timersPending (.inl hpending) hreaction'
    exact hnew

theorem Live.receivePeerLinkFrame {peerMp : MeshPoint} {frame : PeerLinkFrame} (h : pmp.Live)
    (hr : pmp.receivePeerLinkFrame peerMp frame = some r) : r.1.Live := by
  cases frame with
  | peerOpen id =>
    simp only [PeerManagementProtocol.receivePeerLinkFrame] at hr
    have hstart : Live (if pmp.findPeerLink.peerLink = none then
        pmp.findPeerLink.initiateLink (some peerMp) else pmp.findPeerLink) := by
      split_ifs
      · exact initiateLink_live _
      · exact h.findPeerLink
    refine hstart.withLink (fun link hpending reaction hreaction => ?_) hr
    split_ifs at hreaction
    · have hlink : { link with peerLinkId := id }.TimersPending := hpending
      exact PeerLink.setPeerMp_timersPending hlink hreaction
    · exact PeerLink.setPeerMp_timersPending (PeerLink.learnPeerLinkId_timersPending hpending)
        hreaction
  | peerConfirm aid id peerId =>
    exact h.findPeerLink.withLink
      (fun link hpending reaction => PeerLink.confirmAccept_timersPending hpending) hr
  | peerClose id peerId reason =>
    exact h.findPeerLink.withLink
      (fun link hpending reaction => PeerLink.close_timersPending hpending) hr

theorem Live.react {peerMp : MeshPoint} {event : Event} (h : pmp.Live)
    (hr : pmp.react peerMp event = some r) : r.1.Live := by
  cases event with
  | beacon => exact h.receiveBeacon hr
  | frame frame => exact h.receivePeerLinkFrame hr
  | retryTimeout =>
    exact h.timeout (fun _ hpending _ => PeerLink.retryTimeout_timersPending hpending) hr
  | confirmTimeout =>
    exact h.timeout (fun _ hpending _ => PeerLink.confirmTimeout_timersPending hpending) hr
  | holdingTimeout =>
    exact h.timeout (fun _ hpending _ => PeerLink.holdingTimeout_timersPending hpending) hr
  | beaconLoss =>
    refine h.timeout (fun link hpending reaction hreaction => ?_) hr
    have hlink : { link with beaconLossTimer := false }.TimersPending := hpending
    exact PeerLink.stateMachine_timersPending (.inl hlink) hreaction
  | transmissionFailure =>
    exact h.findPeerLink.withLink
      (fun _ hpending _ => PeerLink.transmissionFailure_timersPending hpending) hr
  | transmissionSuccess =>
    refine h.findPeerLink.withLink (fun link hpending reaction hreaction => ?_) hr
    have hlink : { link with packetFail := 0 }.TimersPending := hpending
    exact Option.some.inj hreaction ▸ hlink
  | configurationMismatch =>
    exact h.findPeerLink.withLink
      (fun _ hpending _ => PeerLink.stateMachine_timersPending (.inl hpending)) hr
  | isActiveLink => exact Option.some.inj hr ▸ h.findPeerLink
  | otherInitiateLink | otherLinkOpen | otherLinkClose =>
    rw [← Option.some.inj hr]
    exact fun link hlink => h link hlink

end PeerManagementProtocol

end Ns3Noc.MeshPeering

/-! ## Runs of two mesh points -/

namespace Ns3Noc.MeshPeering

open PartialRuns

theorem PeerLink.timersPending_iff {link : PeerLink} : link.TimersPending ↔
    (link.state = .opnSnt ∨ link.state = .opnRcvd → link.retryTimer) ∧
      (link.state = .cnfRcvd → link.confirmTimer) ∧
        (link.state = .holding → link.holdingTimer) := by
  rw [TimersPending]
  cases link.state <;> simp

instance (pmp : PeerManagementProtocol) (event : Event) : Decidable (pmp.Draws event) :=
  match event with
  | .beacon => inferInstanceAs (Decidable (_ ∧ _))
  | .frame (.peerOpen _) => inferInstanceAs (Decidable (_ = _))
  | .otherInitiateLink => inferInstanceAs (Decidable True)
  | .frame (.peerConfirm _ _ _) | .frame (.peerClose _ _ _) | .retryTimeout | .confirmTimeout
  | .holdingTimeout | .beaconLoss | .transmissionFailure | .transmissionSuccess
  | .configurationMismatch | .isActiveLink | .otherLinkOpen | .otherLinkClose =>
    inferInstanceAs (Decidable False)

namespace Mesh

instance (m : Mesh) (a : MeshPoint × Event) : Decidable (m.Fresh a) :=
  inferInstanceAs (Decidable (_ → _))

instance (m : Mesh) (a : MeshPoint × Event) : Decidable (m.NoStaleOpen a) :=
  match a with
  | (p, .frame (.peerOpen id)) =>
    inferInstanceAs (Decidable ((m.protocol p).findPeerLink.shouldAcceptOpen →
      ∀ link ∈ m.link p, link.state ≠ .idle → link.state ≠ .holding → link.peerLinkId ≤ id))
  | (_, .frame (.peerConfirm _ _ _)) | (_, .frame (.peerClose _ _ _)) | (_, .beacon)
  | (_, .retryTimeout) | (_, .confirmTimeout) | (_, .holdingTimeout) | (_, .beaconLoss)
  | (_, .transmissionFailure) | (_, .transmissionSuccess) | (_, .configurationMismatch)
  | (_, .isActiveLink) | (_, .otherInitiateLink) | (_, .otherLinkOpen) | (_, .otherLinkClose) =>
    inferInstanceAs (Decidable True)

theorem live_iff_forall {m : Mesh} : m.Live ↔ ∀ p, (m.protocol p).Live :=
  forall_congr' fun _ => forall₂_congr fun _ _ => PeerLink.timersPending_iff.symm

theorem Live.step {m m' : Mesh} {a : MeshPoint × Event} (h : m.Live) (hstep : m.step a = some m') :
    m'.Live := by
  rw [Mesh.step] at hstep
  split_ifs at hstep
  obtain ⟨r, hr, rfl⟩ := Option.map_eq_some_iff.mp hstep
  rw [live_iff_forall] at h ⊢
  intro p
  obtain rfl | rfl := a.1.eq_or_eq_other p
  · rw [put_protocol_self]
    exact (h _).react hr
  · rw [put_protocol_other]
    exact h _

theorem init_live (attributes : MeshPoint → Attributes) : (init attributes).Live :=
  fun _ _ hlink => nomatch hlink

/-- Links do not get stuck, and links that are established agree unless a stale open frame has been
accepted. -/
theorem live_and_agree (attributes : MeshPoint → Attributes) (actions : List (MeshPoint × Event)) :
    Always step Live (init attributes) actions ∧
      (Allowed step Fresh (init attributes) actions →
        Allowed step NoStaleOpen (init attributes) actions →
          Always step Agree (init attributes) actions) := by
  constructor
  · exact Always.of_invariant (fun _ _ _ h _ hstep => h.step hstep) (init_live attributes)
      (Allowed.trivial step _ _)
  · intro hfresh hstale
    have hinv : Always step Inv (init attributes) actions :=
      Always.of_invariant (fun _ _ _ h hok hstep => h.step hok.1 hok.2 hstep) (init_inv attributes)
        (hfresh.and hstale)
    exact hinv.mono fun _ h => h.agree

def defaults : MeshPoint → Attributes := fun _ => ⟨32, 4, 2⟩

/-- Both mesh points open a link, the right one for the second time. -/
def reopened : List (MeshPoint × Event) :=
  [(.right, .beacon), (.right, .configurationMismatch), (.right, .holdingTimeout),
    (.right, .beacon), (.left, .frame (.peerOpen 2)), (.right, .frame (.peerOpen 1)),
    (.right, .frame (.peerConfirm 0 1 2)), (.left, .frame (.peerConfirm 1 2 1))]

/-- The first open frame of the right mesh point comes late. -/
theorem late_open_disagrees :
    Allowed step Fresh (init defaults) (reopened ++ [(.left, .frame (.peerOpen 1))]) ∧
      ∃ m, run step (init defaults) (reopened ++ [(.left, .frame (.peerOpen 1))]) = some m ∧
        ¬ m.Agree := by
  refine ⟨by decide +kernel, ?_⟩
  have hids : (run step (init defaults) (reopened ++ [(.left, .frame (.peerOpen 1))])).map
      (fun m => ((m.link .left).map fun link => (link.state, link.peerLinkId),
        (m.link .right).map fun link => (link.state, link.localLinkId))) =
        some (some (.estab, 1), some (.estab, 2)) := by
    decide +kernel
  obtain ⟨m, hm, heq⟩ := Option.map_eq_some_iff.mp hids
  obtain ⟨hleft, hright⟩ := Prod.mk.inj heq
  obtain ⟨left, hl, hleft⟩ := Option.map_eq_some_iff.mp hleft
  obtain ⟨right, hr, hright⟩ := Option.map_eq_some_iff.mp hright
  obtain ⟨hleftEstab, hpeer⟩ := Prod.mk.inj hleft
  obtain ⟨hrightEstab, hlocal⟩ := Prod.mk.inj hright
  refine ⟨m, hm, fun hagree => ?_⟩
  have heq := (hagree left hl right hr hleftEstab hrightEstab).1
  rw [hpeer, hlocal] at heq
  cases heq

theorem reopened_agrees :
    Always step Live (init defaults) reopened ∧ Always step Agree (init defaults) reopened :=
  have h := live_and_agree defaults reopened
  ⟨h.1, h.2 (by decide +kernel) (by decide +kernel)⟩

end Mesh

end Ns3Noc.MeshPeering
