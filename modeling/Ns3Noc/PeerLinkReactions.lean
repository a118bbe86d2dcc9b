import Ns3Noc.PeerLink

/-!
# Reactions of a peer link

What the state machine keeps and sends, case by case, and the timer that each state needs. Nothing
is established without a confirm frame, and only open frames are confirmed.
-/
namespace Ns3Noc.MeshPeering

/-- The states of a link that has confirmed -/
def PeerLink.Confirmed (link : PeerLink) : Prop := link.state = .cnfRcvd ∨ link.state = .estab

/-- The frames that a link may send for an event -/
inductive PeerLink.Sends (link : PeerLink) (event : PeerEvent) : PeerLinkFrame → Prop
  | peerOpen : link.Sends event link.peerLinkOpen
  | peerClose (reason : PmpReasonCode) : link.Sends event (link.peerLinkClose reason)
  | peerConfirm (h : event = .opnAcpt) : link.Sends event link.peerLinkConfirm

/-- What the state machine keeps, and what it sends -/
structure Reaction.Follows (r : Reaction) (link : PeerLink) (event : PeerEvent) : Prop where
  localLinkId_eq : r.link.localLinkId = link.localLinkId
  peerLinkId_eq : r.link.peerLinkId = link.peerLinkId
  sends : ∀ frame ∈ r.frames, link.Sends event frame
  confirmed : r.link.Confirmed → link.Confirmed ∨ event = .cnfAcpt
  holding : link.state = .holding → r.link.state = .holding ∨ r.link.state = .idle
  idle : r.link.state = .idle → link.state = .idle ∧ r.status = none ∨
    ∃ ostate, r = ⟨r.link, some (ostate, .idle), []⟩

namespace PeerLink

theorem stay_follows (link : PeerLink) (event : PeerEvent) : link.stay.Follows link event := by
  constructor <;> simp +contextual [stay]

/-- A move of a link with any timers -/
theorem moveTo_follows {link link' : PeerLink} {event : PeerEvent} {nstate : PeerState}
    {frames : List PeerLinkFrame} (hlocal : link'.localLinkId = link.localLinkId)
    (hpeer : link'.peerLinkId = link.peerLinkId)
    (hsends : ∀ frame ∈ frames, link.Sends event frame)
    (hconfirmed : nstate = .cnfRcvd ∨ nstate = .estab → link.Confirmed ∨ event = .cnfAcpt)
    (hholding : link.state = .holding → nstate = .holding ∨ nstate = .idle)
    (hidle : nstate = .idle → frames = []) :
    (link'.moveTo nstate frames).Follows link event := by
  refine ⟨hlocal, hpeer, hsends, hconfirmed, hholding, fun h => ?_⟩
  obtain rfl : nstate = .idle := h
  exact .inr ⟨link'.state, by rw [hidle rfl]; rfl⟩

theorem hold_follows {link link' : PeerLink} {event : PeerEvent} (reason : PmpReasonCode)
    (hlocal : link'.localLinkId = link.localLinkId) (hpeer : link'.peerLinkId = link.peerLinkId) :
    (link'.hold reason).Follows link event := by
  have hframe : link'.peerLinkClose reason = link.peerLinkClose reason := by
    rw [peerLinkClose, peerLinkClose, hlocal, hpeer]
  refine moveTo_follows hlocal hpeer (fun frame hmem => ?_) ?_ (fun _ => .inl rfl) ?_
  · rw [List.mem_singleton.mp hmem]
    exact hframe ▸ .peerClose reason
  · rintro (h | h) <;> cases h
  · intro h
    cases h

theorem establish_follows {link link' : PeerLink} {event : PeerEvent}
    {frames : List PeerLinkFrame} {r : Reaction} (h : link'.establish frames = some r)
    (hlocal : link'.localLinkId = link.localLinkId) (hpeer : link'.peerLinkId = link.peerLinkId)
    (hsends : ∀ frame ∈ frames, link.Sends event frame)
    (hstate : link.Confirmed ∨ event = .cnfAcpt) (hne : link.state ≠ .holding) :
    r.Follows link event := by
  rw [establish] at h
  split_ifs at h
  obtain rfl := Option.some.inj h
  exact moveTo_follows hlocal hpeer hsends (fun _ => hstate) (fun h => absurd h hne)
    (fun h => by cases h)

/-- A frame that is sent without a move -/
theorem send_follows {link link' : PeerLink} {event : PeerEvent} {frame : PeerLinkFrame}
    (hlocal : link'.localLinkId = link.localLinkId) (hpeer : link'.peerLinkId = link.peerLinkId)
    (hstate : link'.state = link.state) (hsends : link.Sends event frame) :
    (Reaction.mk link' none [frame]).Follows link event := by
  refine ⟨hlocal, hpeer, fun frame hmem => ?_, fun h => ?_, fun h => ?_, fun h => ?_⟩
  · rwa [List.mem_singleton.mp hmem]
  · exact .inl (by rwa [Confirmed, ← hstate])
  · exact .inl (hstate.trans h)
  · exact .inl ⟨hstate.symm.trans h, rfl⟩

section StateMachine

variable {link : PeerLink} {event : PeerEvent} {reason : PmpReasonCode} {r : Reaction}

theorem inIdle_follows (hs : link.state = .idle) (h : link.inIdle event reason = some r) :
    r.Follows link event := by
  have hholding : ∀ nstate : PeerState, link.state = .holding →
      nstate = .holding ∨ nstate = .idle := by
    intro nstate hstate
    rw [hs] at hstate
    cases hstate
  cases event with
  | cncl | clsAcpt =>
    rw [← Option.some.inj h]
    exact moveTo_follows rfl rfl (by simp) (by simp) (hholding _) fun _ => rfl
  | reqRjct =>
    rw [← Option.some.inj h]
    exact send_follows rfl rfl rfl (.peerClose reason)
  | actopn =>
    rw [← Option.some.inj h]
    refine moveTo_follows rfl rfl (fun frame hmem => ?_) (by simp) (hholding _) (by simp)
    rw [List.mem_singleton.mp hmem]
    exact .peerOpen
  | opnAcpt =>
    rw [← Option.some.inj h]
    refine moveTo_follows rfl rfl (fun frame hmem => ?_) (by simp) (hholding _) (by simp)
    obtain rfl | hmem := List.mem_cons.mp hmem
    · exact .peerConfirm rfl
    · rw [List.mem_singleton.mp hmem]
      exact .peerOpen
  | _ => exact Option.some.inj h ▸ link.stay_follows _

theorem inOpnSnt_follows (hs : link.state = .opnSnt) (h : link.inOpnSnt event reason = some r) :
    r.Follows link event := by
  have hholding : ∀ nstate : PeerState, link.state = .holding →
      nstate = .holding ∨ nstate = .idle := by
    intro nstate hstate
    rw [hs] at hstate
    cases hstate
  cases event with
  | tor1 =>
    rw [← Option.some.inj h]
    exact send_follows rfl rfl rfl .peerOpen
  | cnfAcpt =>
    rw [← Option.some.inj h]
    exact moveTo_follows rfl rfl (by simp) (fun _ => .inr rfl) (hholding _) (by simp)
  | opnAcpt =>
    rw [← Option.some.inj h]
    refine moveTo_follows rfl rfl (fun frame hmem => ?_) (by simp) (hholding _) (by simp)
    rw [List.mem_singleton.mp hmem]
    exact .peerConfirm rfl
  | clsAcpt | opnRjct | cnfRjct | tor2 | cncl =>
    exact Option.some.inj h ▸ hold_follows _ rfl rfl
  | _ => exact Option.some.inj h ▸ link.stay_follows _

theorem inCnfRcvd_follows (hs : link.state = .cnfRcvd) (h : link.inCnfRcvd event reason = some r) :
    r.Follows link event := by
  cases event with
  | opnAcpt =>
    have hestab : link.clearConfirmTimer.establish [link.peerLinkConfirm] = some r := h
    refine establish_follows hestab rfl rfl (fun frame hmem => ?_) (.inl (.inl hs)) (by simp [hs])
    rw [List.mem_singleton.mp hmem]
    exact .peerConfirm rfl
  | clsAcpt | opnRjct | cnfRjct | cncl | toc => exact Option.some.inj h ▸ hold_follows _ rfl rfl
  | _ => exact Option.some.inj h ▸ link.stay_follows _

theorem inOpnRcvd_follows (hs : link.state = .opnRcvd) (h : link.inOpnRcvd event reason = some r) :
    r.Follows link event := by
  cases event with
  | tor1 =>
    rw [← Option.some.inj h]
    exact send_follows rfl rfl rfl .peerOpen
  | cnfAcpt =>
    have hestab : link.clearRetryTimer.establish [] = some r := h
    exact establish_follows hestab rfl rfl (by simp) (.inr rfl) (by simp [hs])
  | clsAcpt | opnRjct | cnfRjct | tor2 | cncl =>
    exact Option.some.inj h ▸ hold_follows _ rfl rfl
  | _ => exact Option.some.inj h ▸ link.stay_follows _

theorem inEstab_follows (h : link.inEstab event reason = some r) : r.Follows link event := by
  cases event with
  | opnAcpt =>
    rw [← Option.some.inj h]
    exact send_follows rfl rfl rfl (.peerConfirm rfl)
  | clsAcpt | opnRjct | cnfRjct | cncl => exact Option.some.inj h ▸ hold_follows _ rfl rfl
  | _ => exact Option.some.inj h ▸ link.stay_follows _

theorem inHolding_follows (h : link.inHolding event reason = some r) : r.Follows link event := by
  cases event with
  | clsAcpt | toh =>
    rw [← Option.some.inj h]
    exact moveTo_follows rfl rfl (by simp) (by simp) (fun _ => .inr rfl) fun _ => rfl
  | opnAcpt | cnfAcpt | opnRjct | cnfRjct =>
    rw [← Option.some.inj h]
    refine moveTo_follows rfl rfl (fun frame hmem => ?_) (by simp) (fun _ => .inl rfl) (by simp)
    rw [List.mem_singleton.mp hmem]
    exact .peerClose _
  | _ => exact Option.some.inj h ▸ link.stay_follows _

theorem stateMachine_follows (h : link.stateMachine event reason = some r) :
    r.Follows link event := by
  rw [stateMachine] at h
  cases hs : link.state <;> simp only [hs] at h
  · exact inIdle_follows hs h
  · exact inOpnSnt_follows hs h
  · exact inCnfRcvd_follows hs h
  · exact inOpnRcvd_follows hs h
  · exact inEstab_follows h
  · exact inHolding_follows h

end StateMachine

/-! ## Timers -/

/-- The timer that ends the state is pending. -/
def TimersPending (link : PeerLink) : Prop :=
  match link.state with
  | .idle => True
  | .opnSnt => link.retryTimer
  | .cnfRcvd => link.confirmTimer
  | .opnRcvd => link.retryTimer
  | .estab => True
  | .holding => link.holdingTimer

/-- The timer of the state has expired. -/
def Expired (link : PeerLink) (event : PeerEvent) : Prop :=
  match link.state with
  | .idle => False
  | .opnSnt => event = .tor1 ∨ event = .tor2
  | .cnfRcvd => event = .toc
  | .opnRcvd => event = .tor1 ∨ event = .tor2
  | .estab => False
  | .holding => event = .toh

theorem hold_timersPending (link : PeerLink) (reason : PmpReasonCode) :
    (link.hold reason).link.TimersPending := rfl

theorem establish_timersPending {link : PeerLink} {frames : List PeerLinkFrame} {r : Reaction}
    (h : link.establish frames = some r) : r.link.TimersPending := by
  rw [establish] at h
  split_ifs at h
  rw [← Option.some.inj h]
  exact True.intro

section StateMachine

variable {link : PeerLink} {event : PeerEvent} {reason : PmpReasonCode} {r : Reaction}

theorem inIdle_timersPending (hs : link.state = .idle) (h : link.inIdle event reason = some r) :
    r.link.TimersPending := by
  have hidle : link.TimersPending := by
    rw [TimersPending, hs]
    exact True.intro
  cases event with
  | cncl | clsAcpt =>
    rw [← Option.some.inj h]
    exact True.intro
  | actopn | opnAcpt =>
    rw [← Option.some.inj h]
    exact rfl
  | _ => exact Option.some.inj h ▸ hidle

theorem inOpnSnt_timersPending (hs : link.state = .opnSnt)
    (hlink : link.TimersPending ∨ link.Expired event) (h : link.inOpnSnt event reason = some r) :
    r.link.TimersPending := by
  rw [TimersPending, Expired, hs] at hlink
  cases event with
  | tor1 =>
    rw [← Option.some.inj h, retry, TimersPending, hs]
  | cnfAcpt =>
    rw [← Option.some.inj h]
    exact rfl
  | opnAcpt =>
    have hpending : link.retryTimer := hlink.resolve_right (by simp)
    rw [← Option.some.inj h]
    exact hpending
  | clsAcpt | opnRjct | cnfRjct | tor2 | cncl => exact Option.some.inj h ▸ hold_timersPending _ _
  | _ =>
    have hpending : link.retryTimer := hlink.resolve_right (by simp)
    rw [← Option.some.inj h, stay, TimersPending, hs]
    exact hpending

theorem inCnfRcvd_timersPending (hs : link.state = .cnfRcvd)
    (hlink : link.TimersPending ∨ link.Expired event) (h : link.inCnfRcvd event reason = some r) :
    r.link.TimersPending := by
  rw [TimersPending, Expired, hs] at hlink
  cases event with
  | opnAcpt =>
    have hestab : link.clearConfirmTimer.establish [link.peerLinkConfirm] = some r := h
    exact establish_timersPending hestab
  | clsAcpt | opnRjct | cnfRjct | cncl | toc => exact Option.some.inj h ▸ hold_timersPending _ _
  | _ =>
    have hpending : link.confirmTimer := hlink.resolve_right (by simp)
    rw [← Option.some.inj h, stay, TimersPending, hs]
    exact hpending

theorem inOpnRcvd_timersPending (hs : link.state = .opnRcvd)
    (hlink : link.TimersPending ∨ link.Expired event) (h : link.inOpnRcvd event reason = some r) :
    r.link.TimersPending := by
  rw [TimersPending, Expired, hs] at hlink
  cases event with
  | tor1 =>
    rw [← Option.some.inj h, retry, TimersPending, hs]
  | cnfAcpt =>
    have hestab : link.clearRetryTimer.establish [] = some r := h
    exact establish_timersPending hestab
  | clsAcpt | opnRjct | cnfRjct | tor2 | cncl => exact Option.some.inj h ▸ hold_timersPending _ _
  | _ =>
    have hpending : link.retryTimer := hlink.resolve_right (by simp)
    rw [← Option.some.inj h, stay, TimersPending, hs]
    exact hpending

theorem inEstab_timersPending (hs : link.state = .estab) (h : link.inEstab event reason = some r) :
    r.link.TimersPending := by
  have hestab : link.TimersPending := by
    rw [TimersPending, hs]
    exact True.intro
  cases event with
  | clsAcpt | opnRjct | cnfRjct | cncl => exact Option.some.inj h ▸ hold_timersPending _ _
  | _ => exact Option.some.inj h ▸ hestab

theorem inHolding_timersPending (hs : link.state = .holding)
    (hlink : link.TimersPending ∨ link.Expired event) (h : link.inHolding event reason = some r) :
    r.link.TimersPending := by
  rw [TimersPending, Expired, hs] at hlink
  cases event with
  | clsAcpt | toh =>
    rw [← Option.some.inj h]
    exact True.intro
  | _ =>
    have hpending : link.holdingTimer := hlink.resolve_right (by simp)
    rw [← Option.some.inj h, TimersPending]
    simp [moveTo, stay, hs, hpending]

/-- Every state that ends by a timer is entered with it, and ended when it expires. -/
theorem stateMachine_timersPending (hlink : link.TimersPending ∨ link.Expired event)
    (h : link.stateMachine event reason = some r) : r.link.TimersPending := by
  rw [stateMachine] at h
  cases hs : link.state <;> simp only [hs] at h
  · exact inIdle_timersPending hs h
  · exact inOpnSnt_timersPending hs hlink h
  · exact inCnfRcvd_timersPending hs hlink h
  · exact inOpnRcvd_timersPending hs hlink h
  · exact inEstab_timersPending hs h
  · exact inHolding_timersPending hs hlink h

end StateMachine

end PeerLink

end Ns3Noc.MeshPeering
