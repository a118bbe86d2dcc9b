import Ns3Noc.PeerLink
import Ns3Noc.PartialRuns

/-!
# Peer management between two mesh points

Each mesh point keeps at most one link for the other one. Frames that were sent once may be received
at any time and any number of times, or never. Other links of a mesh point take ids from the same
counter and count for the same limit.
-/
namespace Ns3Noc.MeshPeering

open PartialRuns

/-- Attributes of the protocol and of its links -/
structure Attributes where
  maxNumberOfPeerLinks : ℕ
  maxRetries : ℕ
  maxPacketFail : ℕ
  deriving DecidableEq, Repr

/-- The list of peer links holds one link for the other mesh point at most. -/
structure PeerManagementProtocol where
  attributes : Attributes
  lastAssocId : ℕ
  lastLocalLinkId : ℕ
  linksTotal : ℕ
  peerLink : Option PeerLink
  deriving DecidableEq, Repr

namespace PeerManagementProtocol

/-- An idle link is erased. The link that is left is the one that is found. -/
def findPeerLink (pmp : PeerManagementProtocol) : PeerManagementProtocol :=
  match pmp.peerLink with
  | none => pmp
  | some link => if link.state = .idle then { pmp with peerLink := none } else pmp

/-- `m_lastAssocId++` and `m_lastLocalLinkId++` -/
def drawIds (pmp : PeerManagementProtocol) : PeerManagementProtocol :=
  { pmp with
    lastAssocId := (pmp.lastAssocId + 1) % 65536
    lastLocalLinkId := (pmp.lastLocalLinkId + 1) % 65536 }

def newLink (pmp : PeerManagementProtocol) (peerMeshPointAddress : Option MeshPoint) : PeerLink where
  peerMeshPointAddress := peerMeshPointAddress
  localLinkId := pmp.lastLocalLinkId
  peerLinkId := 0
  assocId := pmp.lastAssocId
  peerAssocId := 0
  packetFail := 0
  state := .idle
  retryCounter := 0
  maxRetries := pmp.attributes.maxRetries
  maxPacketFail := pmp.attributes.maxPacketFail
  retryTimer := false
  confirmTimer := false
  holdingTimer := false
  beaconLossTimer := false

def initiateLink (pmp : PeerManagementProtocol) (peerMeshPointAddress : Option MeshPoint) :
    PeerManagementProtocol :=
  { pmp.drawIds with peerLink := some (pmp.newLink peerMeshPointAddress) }

/-- A link that reports IDLE is erased. -/
def peerLinkStatus (pmp : PeerManagementProtocol) (ostate nstate : PeerState) :
    PeerManagementProtocol :=
  let linksTotal :=
    if nstate = .estab ∧ ostate ≠ .estab then (pmp.linksTotal + 1) % 65536
    else if ostate = .estab ∧ nstate ≠ .estab then (pmp.linksTotal + 65535) % 65536
    else pmp.linksTotal
  let pmp := { pmp with linksTotal := linksTotal }
  if nstate = .idle then pmp.findPeerLink else pmp

/-- The link after its reaction, with its status callback -/
def apply (pmp : PeerManagementProtocol) (r : Reaction) :
    PeerManagementProtocol × List PeerLinkFrame :=
  let pmp := { pmp with peerLink := some r.link }
  match r.status with
  | none => (pmp, r.frames)
  | some (ostate, nstate) => (pmp.peerLinkStatus ostate nstate, r.frames)

/-- What is done with the link, if there is one -/
def withLink (pmp : PeerManagementProtocol) (f : PeerLink → Option Reaction) :
    Option (PeerManagementProtocol × List PeerLinkFrame) :=
  match pmp.peerLink with
  | none => some (pmp, [])
  | some link => (f link).map pmp.apply

def shouldSendOpen (pmp : PeerManagementProtocol) : Bool :=
  pmp.linksTotal ≤ pmp.attributes.maxNumberOfPeerLinks

def shouldAcceptOpen (pmp : PeerManagementProtocol) : Bool :=
  ¬ pmp.linksTotal > pmp.attributes.maxNumberOfPeerLinks

/-- The new link opens, and then gets the beacon. Without a link a null pointer is used. -/
def receiveBeacon (pmp : PeerManagementProtocol) :
    Option (PeerManagementProtocol × List PeerLinkFrame) :=
  let pmp := pmp.findPeerLink
  let setBeaconInformation (link : PeerLink) : PeerLink := { link with beaconLossTimer := true }
  match pmp.peerLink with
  | some link => some ({ pmp with peerLink := some (setBeaconInformation link) }, [])
  | none =>
    if pmp.shouldSendOpen then
      (pmp.initiateLink none).withLink fun link =>
        (link.stateMachine .actopn .reserved).map
          fun r => { r with link := setBeaconInformation r.link }
    else none

def receivePeerLinkFrame (pmp : PeerManagementProtocol) (peerMp : MeshPoint)
    (frame : PeerLinkFrame) : Option (PeerManagementProtocol × List PeerLinkFrame) :=
  let pmp := pmp.findPeerLink
  match frame with
  | .peerOpen localLinkId =>
    let accept := pmp.shouldAcceptOpen
    let pmp := if pmp.peerLink = none then pmp.initiateLink (some peerMp) else pmp
    pmp.withLink fun link =>
      if accept then link.openAccept localLinkId peerMp
      else link.openReject localLinkId peerMp .meshMaxPeers
  | .peerConfirm aid localLinkId peerLinkId =>
    pmp.withLink (·.confirmAccept localLinkId peerLinkId aid peerMp)
  | .peerClose localLinkId peerLinkId reason => pmp.withLink (·.close localLinkId peerLinkId reason)

end PeerManagementProtocol

inductive Event where
  | beacon
  | frame (frame : PeerLinkFrame)
  | retryTimeout
  | confirmTimeout
  | holdingTimeout
  | beaconLoss
  | transmissionFailure
  | transmissionSuccess
  | configurationMismatch
  | isActiveLink
  | otherInitiateLink
  | otherLinkOpen
  | otherLinkClose
  deriving DecidableEq, Repr

namespace PeerManagementProtocol

/-- The events of timers are those that are pending. -/
def timeout (pmp : PeerManagementProtocol) (pending : PeerLink → Bool)
    (f : PeerLink → Option Reaction) : Option (PeerManagementProtocol × List PeerLinkFrame) :=
  if pmp.peerLink.any pending then pmp.withLink f else none

def react (pmp : PeerManagementProtocol) (peerMp : MeshPoint) :
    Event → Option (PeerManagementProtocol × List PeerLinkFrame)
  | .beacon => pmp.receiveBeacon
  | .frame frame => pmp.receivePeerLinkFrame peerMp frame
  | .retryTimeout => pmp.timeout PeerLink.retryTimer PeerLink.retryTimeout
  | .confirmTimeout => pmp.timeout PeerLink.confirmTimer PeerLink.confirmTimeout
  | .holdingTimeout => pmp.timeout PeerLink.holdingTimer PeerLink.holdingTimeout
  | .beaconLoss => pmp.timeout PeerLink.beaconLossTimer PeerLink.beaconLoss
  | .transmissionFailure => pmp.findPeerLink.withLink PeerLink.transmissionFailure
  | .transmissionSuccess =>
    pmp.findPeerLink.withLink fun link => some { link with packetFail := 0 }.stay
  | .configurationMismatch =>
    pmp.findPeerLink.withLink (·.cancelPeerLink .meshCapabilityPolicyViolation)
  | .isActiveLink => some (pmp.findPeerLink, [])
  | .otherInitiateLink => some (pmp.drawIds, [])
  | .otherLinkOpen => some ({ pmp with linksTotal := (pmp.linksTotal + 1) % 65536 }, [])
  | .otherLinkClose => some ({ pmp with linksTotal := (pmp.linksTotal + 65535) % 65536 }, [])

/-- The event takes an id from the counter. -/
def Draws (pmp : PeerManagementProtocol) : Event → Prop
  | .beacon => pmp.findPeerLink.peerLink = none ∧ pmp.findPeerLink.shouldSendOpen
  | .frame (.peerOpen _) => pmp.findPeerLink.peerLink = none
  | .otherInitiateLink => True
  | _ => False

end PeerManagementProtocol

/-! ## Both mesh points -/

structure Mesh where
  protocol : MeshPoint → PeerManagementProtocol
  sent : MeshPoint → List PeerLinkFrame

namespace Mesh

def link (m : Mesh) (p : MeshPoint) : Option PeerLink := (m.protocol p).peerLink

def init (attributes : MeshPoint → Attributes) : Mesh where
  protocol p := ⟨attributes p, 0, 1, 0, none⟩
  sent _ := []

/-- What a mesh point has become and what it has sent -/
def put (m : Mesh) (p : MeshPoint) (r : PeerManagementProtocol × List PeerLinkFrame) : Mesh where
  protocol := Function.update m.protocol p r.1
  sent := Function.update m.sent p (m.sent p ++ r.2)

/-- A frame that is received was sent by the other mesh point. -/
def Received (m : Mesh) (p : MeshPoint) : Event → Prop
  | .frame frame => frame ∈ m.sent p.other
  | _ => True

instance (m : Mesh) (p : MeshPoint) (event : Event) : Decidable (m.Received p event) :=
  match event with
  | .frame frame => inferInstanceAs (Decidable (frame ∈ m.sent p.other))
  | .beacon | .retryTimeout | .confirmTimeout | .holdingTimeout | .beaconLoss
  | .transmissionFailure | .transmissionSuccess | .configurationMismatch | .isActiveLink
  | .otherInitiateLink | .otherLinkOpen | .otherLinkClose => inferInstanceAs (Decidable True)

def step (m : Mesh) (a : MeshPoint × Event) : Option Mesh :=
  if m.Received a.1 a.2 then ((m.protocol a.1).react a.1.other a.2).map (m.put a.1) else none

/-- Local link ids are fresh: the counter has not come back to 0 when an id is taken. -/
def Fresh (m : Mesh) (a : MeshPoint × Event) : Prop :=
  (m.protocol a.1).Draws a.2 → (m.protocol a.1).lastLocalLinkId ≠ 0

/-- An open frame is accepted by a link, other than a link in HOLDING, only if it is not older than
the link id that is recorded for the peer. -/
def NoStaleOpen (m : Mesh) (a : MeshPoint × Event) : Prop :=
  match a.2 with
  | .frame (.peerOpen localLinkId) =>
    (m.protocol a.1).findPeerLink.shouldAcceptOpen → ∀ link ∈ m.link a.1, link.state ≠ .idle →
      link.state ≠ .holding → link.peerLinkId ≤ localLinkId
  | _ => True

/-- Established links know each other's ids. -/
def Agree (m : Mesh) : Prop :=
  ∀ left ∈ m.link .left, ∀ right ∈ m.link .right, left.state = .estab → right.state = .estab →
    left.peerLinkId = right.localLinkId ∧ right.peerLinkId = left.localLinkId

/-- The timer that ends a state is pending. -/
def Live (m : Mesh) : Prop :=
  ∀ p, ∀ link ∈ m.link p,
    (link.state = .opnSnt ∨ link.state = .opnRcvd → link.retryTimer) ∧
      (link.state = .cnfRcvd → link.confirmTimer) ∧ (link.state = .holding → link.holdingTimer)

end Mesh

end Ns3Noc.MeshPeering
