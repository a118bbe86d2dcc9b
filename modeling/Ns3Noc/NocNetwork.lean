import Ns3Noc.NocHeader
import Ns3Noc.PartialRuns

/-!
# Net devices and channels

How flits move through a network of net devices that channels join pairwise. Routing protocols
may answer what they like; the switching protocol is a parameter. `ProcessBufferedPackets` may
run at any time, since its retries only depend on the clock, and channels may take any time.
-/
namespace Ns3Noc

/-- The devices with their nodes and channels. A device has an in-queue in packet mode; the
devices inside routers, where packets are injected, have no channel. -/
structure NocNetwork (δ γ : Type) where
  node : δ → ℕ
  channel : δ → Option γ
  deviceId : δ → Fin 2
  device : γ → Fin 2 → δ
  fullDuplex : γ → Bool
  maxPackets : δ → ℕ
  channel_eq_some : ∀ d c, channel d = some c ↔ device c (deviceId d) = d
  deviceId_device : ∀ c i, deviceId (device c i) = i
  maxPackets_internal : ∀ d, channel d = none → maxPackets d = 2 ^ 32 - 1

/-- `SrcDest`, where devices stand for their addresses. -/
structure SrcDest (δ : Type) where
  src : Option δ := none
  dest : Option δ := none
  viaNetDevice : Option δ := none
  deriving DecidableEq, Repr

/-- An address of a packet object in a queue, and the packet. -/
structure QueuedPacket where
  ptr : ℕ
  packet : NocPacket
  deriving DecidableEq, Repr

inductive WireState where
  | idle
  | transmitting
  | propagating
  deriving DecidableEq, Repr

/-- One physical link of a channel; `m_packetOriginalDevice` goes by uids. -/
structure ChannelLink (δ : Type) where
  state : WireState := .idle
  currentPkt : Option NocPacket := none
  currentDestDevice : Option δ := none
  packetOriginalDevice : ℕ → Option δ := fun _ => none

/-- A scheduled `TransmitEnd`. -/
structure TransmitEndEvent (δ γ : Type) where
  channel : γ
  srcNocNetDevice : δ
  destination : Option δ
  destNocNetDevice : δ
  deriving DecidableEq, Repr

/-- What happens to packets. -/
inductive FlitEvent (δ : Type) where
  | injected (d : δ) (new : NewPacket) (uid : ℕ)
  | enqueued (d : δ) (packet : NocPacket) (srcDest : SrcDest δ)
  | dropped (d : δ) (packet : NocPacket)
  | sent (d : δ) (packet : NocPacket) (srcDest : SrcDest δ)
  | dequeued (d : δ) (packet : NocPacket)
  | delivered (d : δ) (packet : NocPacket)
  deriving DecidableEq, Repr

/-- `ApplyFlowControl` of a protocol with the state `σ`. -/
structure SwitchingProtocol (σ : Type) where
  applyFlowControl : σ → NocPacket → List NocPacket → Bool × σ

/-- The members that change, by device, link and node, the scheduled transmissions and the
history of all packets. The number of packets that were ever queued serves as a new address. -/
structure NetworkState (δ γ σ : Type) where
  inQueue : δ → List QueuedPacket := fun _ => []
  pktSrcDestMap : δ → ℕ → Option (SrcDest δ) := fun _ _ => none
  viaNetDevice : δ → Option δ := fun _ => none
  link : γ × Fin 2 → ChannelLink δ := fun _ => {}
  pending : List (TransmitEndEvent δ γ) := []
  allocated : ℕ := 0
  switching : ℕ → σ
  trace : List (FlitEvent δ) := []

/-- The answer of a routing protocol: the devices of the route and the routed header. -/
structure RouteReply (δ : Type) where
  sourceDevice : δ
  destinationDevice : δ
  header : NocHeader
  deriving DecidableEq, Repr

variable {δ γ σ : Type}

namespace FlitEvent

/-- The packet that an event is about. -/
def uid : FlitEvent δ → ℕ
  | injected _ _ uid => uid
  | enqueued _ packet _ | dropped _ packet | sent _ packet _ | dequeued _ packet
  | delivered _ packet => packet.uid

def injectedUid : FlitEvent δ → Option ℕ
  | injected _ _ uid => some uid
  | _ => none

def deliveredUid : FlitEvent δ → Option ℕ
  | delivered _ packet => some packet.uid
  | _ => none

end FlitEvent

namespace NetworkState
variable [DecidableEq δ] [DecidableEq γ] (s : NetworkState δ γ σ)

def log (e : FlitEvent δ) : NetworkState δ γ σ := { s with trace := s.trace ++ [e] }

def setLink (w : γ × Fin 2) (link : ChannelLink δ) : NetworkState δ γ σ :=
  { s with link := Function.update s.link w link }

/-- The uids of all packets that were injected. -/
def injected : List ℕ := s.trace.filterMap FlitEvent.injectedUid

/-- `Enqueue` on a queue with room, and the insertion into `m_pktSrcDestMap`. -/
def enqueue (d : δ) (packet : NocPacket) (srcDest : SrcDest δ) : NetworkState δ γ σ :=
  { s with
    inQueue := Function.update s.inQueue d (s.inQueue d ++ [⟨s.allocated, packet⟩])
    pktSrcDestMap := Function.update s.pktSrcDestMap d
      (Function.update (s.pktSrcDestMap d) s.allocated
        (some ((s.pktSrcDestMap d s.allocated).getD srcDest)))
    allocated := s.allocated + 1
    trace := s.trace ++ [.enqueued d packet srcDest] }

/-- `MarkHeadPacketAsBlocked`, for the packet with the given address. -/
def markHeadPacketAsBlocked (d : δ) (ptr : ℕ) : NetworkState δ γ σ :=
  { s with
    inQueue := Function.update s.inQueue d ((s.inQueue d).map (fun q =>
      if q.ptr = ptr ∧ q.packet.packetType = .head then
        { q with packet := { q.packet with packetBlocked := true } } else q)) }

/-- `DequeuePacketFromInQueue`. -/
def dequeuePacketFromInQueue (d : δ) : Option (QueuedPacket × NetworkState δ γ σ) :=
  match s.inQueue d with
  | [] => none
  | q :: rest => some (q, { s with
      inQueue := Function.update s.inQueue d rest
      pktSrcDestMap := Function.update s.pktSrcDestMap d
        (Function.update (s.pktSrcDestMap d) q.ptr none)
      trace := s.trace ++ [.dequeued d q.packet] })

end NetworkState

/-- A flit is injected, a device processes its in-queue, or a transmission ends. The route is
the answer if the packet needs one. -/
inductive NetworkStep (δ : Type) where
  | injectPacket (d : δ) (new : NewPacket) (uid destination : ℕ) (route : RouteReply δ)
  | processBufferedPackets (d : δ)
  | transmitEnd (n : ℕ) (route : RouteReply δ)
  deriving DecidableEq, Repr

namespace NocNetwork
variable [DecidableEq δ] [DecidableEq γ]
variable (net : NocNetwork δ γ) (protocol : SwitchingProtocol σ) (s : NetworkState δ γ σ)

/-- The physical link for a sending device; there is only one in half-duplex mode. -/
def wire (c : γ) (srcId : Fin 2) : γ × Fin 2 := (c, if net.fullDuplex c then srcId else 0)

/-- The search for a device of a channel by its address. -/
def indexOf (c : γ) (d : δ) : Option (Fin 2) :=
  if net.device c 0 = d then some 0 else if net.device c 1 = d then some 1 else none

/-- The device at the other end of the channel that a triple names. -/
def peer (srcDest : SrcDest δ) : Option δ := do
  let via ← srcDest.viaNetDevice
  let c ← net.channel via
  some (net.device c (1 - net.deviceId via))

/-- `NocChannel::TransmitStart`. -/
def transmitStart (originalNetDevice : δ) (p : NocPacket) (c : γ) (srcId : Fin 2) :
    Bool × NetworkState δ γ σ :=
  let w := net.wire c srcId
  let link := s.link w
  let link := { link with
    packetOriginalDevice := Function.update link.packetOriginalDevice p.uid
      (some ((link.packetOriginalDevice p.uid).getD originalNetDevice)) }
  if link.state ≠ .idle then (false, s.setLink w link)
  else
    let dest := net.device c (1 - srcId)
    let link := { link with currentPkt := some p, currentDestDevice := some dest }
    if (s.inQueue dest).length = net.maxPackets dest then (false, s.setLink w link)
    else (true, s.setLink w { link with state := .transmitting })

/-- `NocChannel::Send`. -/
def send (c : γ) (srcDest : SrcDest δ) : Option (NetworkState δ γ σ) := do
  let sender ← srcDest.src
  let srcId ← net.indexOf c sender
  let w := net.wire c srcId
  let link := s.link w
  let dest ← link.currentDestDevice
  if link.state = .transmitting then
    some { s.setLink w { link with state := .propagating } with
      pending := s.pending ++ [⟨c, sender, srcDest.dest, dest⟩] }
  else none

/-- What `ProcessBufferedPackets` asks the switching protocol when a packet has arrived. -/
def flowControl (d : δ) (c : γ) (viaNetDevice : Option δ) (packet : Option QueuedPacket) :
    Option (Bool × NetworkState δ γ σ) :=
  match packet with
  | none => some (true, s)
  | some q => do
    let via ← viaNetDevice
    let srcId ← net.indexOf c via
    let isBusy := (s.link (net.wire c srcId)).state ≠ .idle
    let marked := if isBusy ∧ q.packet.packetType = .head then
      { q.packet with packetBlocked := true } else q.packet
    let s := if isBusy then s.markHeadPacketAsBlocked d q.ptr else s
    let result := protocol.applyFlowControl (s.switching (net.node d)) marked
      ((s.inQueue d).map QueuedPacket.packet)
    some (result.1, { s with
      switching := Function.update s.switching (net.node d) result.2 })

/-- `ProcessBufferedPackets`, up to the retry that it schedules. -/
def processBufferedPackets (d : δ) (packet : Option QueuedPacket) :
    Option (NetworkState δ γ σ) :=
  match s.inQueue d with
  | [] => some s
  | front :: _ => do
    let srcDest := (s.pktSrcDestMap d front.ptr).getD {}
    let s := { s with
      pktSrcDestMap := Function.update s.pktSrcDestMap d
        (Function.update (s.pktSrcDestMap d) front.ptr (some srcDest))
      viaNetDevice := Function.update s.viaNetDevice d srcDest.viaNetDevice }
    let sender := srcDest.viaNetDevice.getD d
    let c ← net.channel sender
    let (canDoRouting, s) ← net.flowControl protocol s d c srcDest.viaNetDevice packet
    if canDoRouting then
      let (canSend, s) := net.transmitStart s d front.packet c (net.deviceId sender)
      if canSend then (net.send s c srcDest).map (fun s => s.log (.sent d front.packet srcDest))
      else some s
    else some s

/-- `NocNetDevice::Send`, which calls `SendFrom` with the own address. -/
def sendFrom (d : δ) (packet : NocPacket) (dest : δ) : Option (NetworkState δ γ σ) :=
  let srcDest : SrcDest δ := ⟨some ((s.viaNetDevice d).getD d), some dest, s.viaNetDevice d⟩
  let q : QueuedPacket := ⟨s.allocated, packet⟩
  if (s.inQueue d).length < net.maxPackets d then
    net.processBufferedPackets protocol (s.enqueue d packet srcDest) d (some q)
  else
    net.processBufferedPackets protocol
      { s with
        allocated := s.allocated + 1
        trace := s.trace ++ [.dropped d packet] } d (some q)

/-- `NocNode::Send`. There is no route to the own node. -/
def nodeSend (source : δ) (packet : NocPacket) (destination : ℕ) (route : RouteReply δ) :
    Option (NetworkState δ γ σ) :=
  if net.node source = destination then none
  else
    let packet := if packet.packetType = .head then { packet with header := route.header }
      else packet
    net.sendFrom protocol
      { s with viaNetDevice := Function.update s.viaNetDevice source (some route.sourceDevice) }
      source packet route.destinationDevice

/-- `NocNetDevice::Receive`. -/
def receive (d : δ) (packet : NocPacket) (dest : Option δ) (route : RouteReply δ) :
    Option (NetworkState δ γ σ) := do
  let dest ← dest
  if dest = d then some (s.log (.delivered d packet))
  else net.nodeSend protocol s d packet (net.node dest) route

/-- `NocChannel::TransmitEnd` until the flit is dequeued: the state, the transmitted flit and
the link. -/
def dequeueTransmitted (e : TransmitEndEvent δ γ) :
    Option (NetworkState δ γ σ × NocPacket × (γ × Fin 2)) := do
  let srcId ← net.indexOf e.channel e.srcNocNetDevice
  let w := net.wire e.channel srcId
  let currentPkt ← (s.link w).currentPkt
  let original ← (s.link w).packetOriginalDevice currentPkt.uid
  let (q, t) ← s.dequeuePacketFromInQueue original
  if (s.link w).state = .propagating ∧ currentPkt.uid = q.packet.uid then
    let link := { s.link w with
      packetOriginalDevice := Function.update (s.link w).packetOriginalDevice currentPkt.uid none }
    some (t.setLink w link, currentPkt, w)
  else none

/-- `NocChannel::TransmitEnd`. -/
def transmitEnd (n : ℕ) (route : RouteReply δ) : Option (NetworkState δ γ σ) := do
  let e ← s.pending[n]?
  let (s, packet, w) ← net.dequeueTransmitted { s with pending := s.pending.eraseIdx n } e
  let s ← net.receive protocol s e.destNocNetDevice packet e.destination route
  some (s.setLink w { s.link w with state := .idle })

/-- `NocNode::InjectPacket`, at one of the injection devices of the router. The 32 bit counter
of packet uids does not wrap. -/
def injectPacket (d : δ) (new : NewPacket) (uid destination : ℕ) (route : RouteReply δ) :
    Option (NetworkState δ γ σ) :=
  if net.channel d = none ∧ uid ∉ s.injected ∧ uid < 2 ^ 32 - 1 then
    net.nodeSend protocol (s.log (.injected d new uid)) d (new.build uid) destination route
  else none

def step : NetworkStep δ → Option (NetworkState δ γ σ)
  | .injectPacket d new uid destination route =>
    net.injectPacket protocol s d new uid destination route
  | .processBufferedPackets d => net.processBufferedPackets protocol s d none
  | .transmitEnd n route => net.transmitEnd protocol s n route

end NocNetwork
end Ns3Noc
