import Mathlib

/-!
# Peer links of a mesh point

The state machine of one peer link, and the peer management protocol of a mesh point with the link
that it keeps for one interface of another mesh point. A timer is pending or not. A failed assertion
gives `none`.
-/
namespace Ns3Noc.MeshPeering

/-- Two mesh points, each seen by the other -/
inductive MeshPoint where
  | left
  | right
  deriving DecidableEq, Repr

def MeshPoint.other : MeshPoint → MeshPoint
  | .left => .right
  | .right => .left

inductive PeerState where
  | idle
  | opnSnt
  | cnfRcvd
  | opnRcvd
  | estab
  | holding
  deriving DecidableEq, Repr

inductive PeerEvent where
  | cncl
  | actopn
  | clsAcpt
  | opnAcpt
  | opnRjct
  | reqRjct
  | cnfAcpt
  | cnfRjct
  | tor1
  | tor2
  | toc
  | toh
  deriving DecidableEq, Repr

inductive PmpReasonCode where
  | peeringCancelled
  | meshMaxPeers
  | meshCapabilityPolicyViolation
  | meshCloseRcvd
  | meshMaxRetries
  | meshConfirmTimeout
  | reserved
  deriving DecidableEq, Repr

/-- The peer management element, and the association id of a confirm frame -/
inductive PeerLinkFrame where
  | peerOpen (localLinkId : ℕ)
  | peerConfirm (aid localLinkId peerLinkId : ℕ)
  | peerClose (localLinkId peerLinkId : ℕ) (reason : PmpReasonCode)
  deriving DecidableEq, Repr

def PeerLinkFrame.localLinkId : PeerLinkFrame → ℕ
  | .peerOpen localLinkId => localLinkId
  | .peerConfirm _ localLinkId _ => localLinkId
  | .peerClose localLinkId _ _ => localLinkId

/-- The peer's mesh point address is `none` when it is the broadcast address. -/
structure PeerLink (α : Type := MeshPoint) where
  peerMeshPointAddress : Option α
  localLinkId : ℕ
  peerLinkId : ℕ
  assocId : ℕ
  peerAssocId : ℕ
  packetFail : ℕ
  state : PeerState
  retryCounter : ℕ
  maxRetries : ℕ
  maxPacketFail : ℕ
  retryTimer : Bool
  confirmTimer : Bool
  holdingTimer : Bool
  beaconLossTimer : Bool
  deriving DecidableEq, Repr

/-- What the state machine does: the link, the states that are reported and the frames that are
sent. -/
structure Reaction (α : Type := MeshPoint) where
  link : PeerLink α
  status : Option (PeerState × PeerState)
  frames : List PeerLinkFrame
  deriving DecidableEq, Repr

namespace PeerLink

variable {α : Type}

def peerLinkOpen (link : PeerLink α) : PeerLinkFrame := .peerOpen link.localLinkId

def peerLinkConfirm (link : PeerLink α) : PeerLinkFrame :=
  .peerConfirm link.assocId link.localLinkId link.peerLinkId

def peerLinkClose (link : PeerLink α) (reason : PmpReasonCode) : PeerLinkFrame :=
  .peerClose link.localLinkId link.peerLinkId reason

/-- An event that is ignored -/
def stay (link : PeerLink α) : Reaction α := ⟨link, none, []⟩

def moveTo (link : PeerLink α) (nstate : PeerState) (frames : List PeerLinkFrame) : Reaction α :=
  ⟨{ link with state := nstate }, some (link.state, nstate), frames⟩

def clearRetryTimer (link : PeerLink α) : PeerLink α := { link with retryTimer := false }

def clearConfirmTimer (link : PeerLink α) : PeerLink α := { link with confirmTimer := false }

def clearHoldingTimer (link : PeerLink α) : PeerLink α := { link with holdingTimer := false }

def setRetryTimer (link : PeerLink α) : PeerLink α := { link with retryTimer := true }

def setConfirmTimer (link : PeerLink α) : PeerLink α := { link with confirmTimer := true }

/-- The moves to HOLDING -/
def hold (link : PeerLink α) (reason : PmpReasonCode) : Reaction α :=
  { link with holdingTimer := true }.moveTo .holding [link.peerLinkClose reason]

/-- `TOR1` -/
def retry (link : PeerLink α) : Reaction α :=
  ⟨{ link with retryCounter := (link.retryCounter + 1) % 65536, retryTimer := true }, none,
    [link.peerLinkOpen]⟩

/-- `NS_ASSERT (m_peerMeshPointAddress != Mac48Address::GetBroadcast ())` -/
def establish (link : PeerLink α) (frames : List PeerLinkFrame) : Option (Reaction α) :=
  if link.peerMeshPointAddress = none then none else some (link.moveTo .estab frames)

/-! The cases of `StateMachine`. Events that are not named are ignored. -/

def inIdle (link : PeerLink α) (event : PeerEvent) (reasoncode : PmpReasonCode) :
    Option (Reaction α) :=
  match event with
  | .cncl | .clsAcpt => some (link.moveTo .idle [])
  | .reqRjct => some ⟨link, none, [link.peerLinkClose reasoncode]⟩
  | .actopn => some (link.setRetryTimer.moveTo .opnSnt [link.peerLinkOpen])
  | .opnAcpt => some (link.setRetryTimer.moveTo .opnRcvd [link.peerLinkConfirm, link.peerLinkOpen])
  | _ => some link.stay

def inOpnSnt (link : PeerLink α) (event : PeerEvent) (reasoncode : PmpReasonCode) :
    Option (Reaction α) :=
  match event with
  | .tor1 => some link.retry
  | .cnfAcpt => some (link.clearRetryTimer.setConfirmTimer.moveTo .cnfRcvd [])
  | .opnAcpt => some (link.moveTo .opnRcvd [link.peerLinkConfirm])
  | .clsAcpt => some (link.clearRetryTimer.hold .meshCloseRcvd)
  | .opnRjct | .cnfRjct => some (link.clearRetryTimer.hold reasoncode)
  | .tor2 => some (link.clearRetryTimer.hold .meshMaxRetries)
  | .cncl => some (link.clearRetryTimer.hold .peeringCancelled)
  | _ => some link.stay

def inCnfRcvd (link : PeerLink α) (event : PeerEvent) (reasoncode : PmpReasonCode) :
    Option (Reaction α) :=
  match event with
  | .cnfAcpt => some link.stay
  | .opnAcpt => link.clearConfirmTimer.establish [link.peerLinkConfirm]
  | .clsAcpt => some (link.clearConfirmTimer.hold .meshCloseRcvd)
  | .cnfRjct | .opnRjct => some (link.clearConfirmTimer.hold reasoncode)
  | .cncl => some (link.clearConfirmTimer.hold .peeringCancelled)
  | .toc => some (link.hold .meshConfirmTimeout)
  | _ => some link.stay

def inOpnRcvd (link : PeerLink α) (event : PeerEvent) (reasoncode : PmpReasonCode) :
    Option (Reaction α) :=
  match event with
  | .tor1 => some link.retry
  | .cnfAcpt => link.clearRetryTimer.establish []
  | .clsAcpt => some (link.clearRetryTimer.hold .meshCloseRcvd)
  | .opnRjct | .cnfRjct => some (link.clearRetryTimer.hold reasoncode)
  | .tor2 => some (link.clearRetryTimer.hold .meshMaxRetries)
  | .cncl => some (link.clearRetryTimer.hold .peeringCancelled)
  | _ => some link.stay

def inEstab (link : PeerLink α) (event : PeerEvent) (reasoncode : PmpReasonCode) :
    Option (Reaction α) :=
  match event with
  | .opnAcpt => some ⟨link, none, [link.peerLinkConfirm]⟩
  | .clsAcpt => some (link.hold .meshCloseRcvd)
  | .opnRjct | .cnfRjct => some (link.clearRetryTimer.hold reasoncode)
  | .cncl => some (link.hold .peeringCancelled)
  | _ => some link.stay

def inHolding (link : PeerLink α) (event : PeerEvent) (reasoncode : PmpReasonCode) :
    Option (Reaction α) :=
  match event with
  | .clsAcpt => some (link.clearHoldingTimer.moveTo .idle [])
  | .toh => some (link.moveTo .idle [])
  | .opnAcpt | .cnfAcpt => some (link.moveTo .holding [link.peerLinkClose .peeringCancelled])
  | .opnRjct | .cnfRjct => some (link.moveTo .holding [link.peerLinkClose reasoncode])
  | _ => some link.stay

def stateMachine (link : PeerLink α) (event : PeerEvent) (reasoncode : PmpReasonCode) :
    Option (Reaction α) :=
  match link.state with
  | .idle => link.inIdle event reasoncode
  | .opnSnt => link.inOpnSnt event reasoncode
  | .cnfRcvd => link.inCnfRcvd event reasoncode
  | .opnRcvd => link.inOpnRcvd event reasoncode
  | .estab => link.inEstab event reasoncode
  | .holding => link.inHolding event reasoncode

variable [DecidableEq α]

/-- `NS_ASSERT (m_peerMeshPointAddress == peerMp)`, unless the address is not known yet -/
def setPeerMp (link : PeerLink α) (peerMp : α) : Option (PeerLink α) :=
  match link.peerMeshPointAddress with
  | none => some { link with peerMeshPointAddress := some peerMp }
  | some address => if address = peerMp then some link else none

def openAccept (link : PeerLink α) (localLinkId : ℕ) (peerMp : α) : Option (Reaction α) :=
  ({ link with peerLinkId := localLinkId }.setPeerMp peerMp).bind
    (·.stateMachine .opnAcpt .reserved)

/-- The peer's link id, where it is not known yet -/
def learnPeerLinkId (link : PeerLink α) (localLinkId : ℕ) : PeerLink α :=
  if link.peerLinkId = 0 then { link with peerLinkId := localLinkId } else link

def openReject (link : PeerLink α) (localLinkId : ℕ) (peerMp : α) (reason : PmpReasonCode) :
    Option (Reaction α) :=
  ((link.learnPeerLinkId localLinkId).setPeerMp peerMp).bind (·.stateMachine .opnRjct reason)

def confirmAccept (link : PeerLink α) (localLinkId peerLinkId peerAid : ℕ) (peerMp : α) :
    Option (Reaction α) :=
  if link.localLinkId ≠ peerLinkId then some link.stay
  else
    let link' := link.learnPeerLinkId localLinkId
    if link'.peerLinkId ≠ localLinkId then some link.stay
    else ({ link' with peerAssocId := peerAid }.setPeerMp peerMp).bind
      (·.stateMachine .cnfAcpt .reserved)

def close (link : PeerLink α) (localLinkId peerLinkId : ℕ) (reason : PmpReasonCode) :
    Option (Reaction α) :=
  if peerLinkId ≠ 0 ∧ link.localLinkId ≠ peerLinkId then some link.stay
  else
    let link' := link.learnPeerLinkId localLinkId
    if link'.peerLinkId ≠ localLinkId then some link.stay
    else link'.stateMachine .clsAcpt reason

def retryTimeout (link : PeerLink α) : Option (Reaction α) :=
  link.clearRetryTimer.stateMachine
    (if link.retryCounter < link.maxRetries then .tor1 else .tor2) .reserved

def confirmTimeout (link : PeerLink α) : Option (Reaction α) :=
  link.clearConfirmTimer.stateMachine .toc .reserved

def holdingTimeout (link : PeerLink α) : Option (Reaction α) :=
  link.clearHoldingTimer.stateMachine .toh .reserved

def beaconLoss (link : PeerLink α) : Option (Reaction α) :=
  { link with beaconLossTimer := false }.stateMachine .cncl .reserved

def transmissionFailure (link : PeerLink α) : Option (Reaction α) :=
  let link := { link with packetFail := (link.packetFail + 1) % 65536 }
  if link.packetFail = link.maxPacketFail then
    (link.stateMachine .cncl .reserved).map
      fun r => { r with link := { r.link with packetFail := 0 } }
  else some link.stay

def cancelPeerLink (link : PeerLink α) (reason : PmpReasonCode) : Option (Reaction α) :=
  link.stateMachine .cncl reason

end PeerLink

end Ns3Noc.MeshPeering
