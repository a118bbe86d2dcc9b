import Ns3Noc.HwmpRtable
import Ns3Noc.PartialRuns

/-!
# HWMP at one mesh point

Path requests with their retries, the packets that wait for a path, and the frames that are received.
A failed assertion ends an action. What the protocol asks of its interfaces and its reply callbacks
is kept as a list of calls. Broadcast packets are sent at once and are left out.
-/
namespace Ns3Noc.Hwmp

open PartialActs

/-! ## Frames and packets -/

structure DestinationAddressUnit where
  doFlag : Bool
  rfFlag : Bool
  usnFlag : Bool
  destinationAddress : Option Address
  destSeqNumber : ℕ
  deriving DecidableEq, Repr

structure IePreq where
  needNotPrep : Bool
  hopcount : ℕ
  ttl : ℕ
  preqId : ℕ
  originatorAddress : Address
  originatorSeqNumber : ℕ
  lifetime : ℕ
  metric : ℕ
  destinations : List DestinationAddressUnit
  deriving DecidableEq, Repr

namespace IePreq

def destCount (preq : IePreq) : ℕ := preq.destinations.length

def incrementMetric (preq : IePreq) (metric : ℕ) : IePreq :=
  { preq with metric := uint32 (preq.metric + metric) }

def decrementTtl (preq : IePreq) : IePreq :=
  { preq with ttl := (preq.ttl + 255) % 256, hopcount := (preq.hopcount + 1) % 256 }

/-- An address that is there already is not added again. -/
def addDestinationAddressElement (preq : IePreq) (doFlag rfFlag : Bool)
    (address : Option Address) (destSeqNumber : ℕ) : IePreq :=
  if preq.destinations.any (·.destinationAddress = address) then preq
  else
    let unit : DestinationAddressUnit := ⟨doFlag, rfFlag, destSeqNumber = 0, address, destSeqNumber⟩
    { preq with destinations := preq.destinations ++ [unit] }

end IePreq

structure IePrep where
  hopcount : ℕ
  ttl : ℕ
  destinationAddress : Address
  destSeqNumber : ℕ
  lifetime : ℕ
  metric : ℕ
  originatorAddress : Address
  originatorSeqNumber : ℕ
  deriving DecidableEq, Repr

namespace IePrep

def incrementMetric (prep : IePrep) (metric : ℕ) : IePrep :=
  { prep with metric := uint32 (prep.metric + metric) }

def decrementTtl (prep : IePrep) : IePrep :=
  { prep with ttl := (prep.ttl + 255) % 256, hopcount := (prep.hopcount + 1) % 256 }

end IePrep

structure HwmpTag where
  address : Option Address
  ttl : ℕ
  metric : ℕ
  seqno : ℕ
  deriving DecidableEq, Repr

def HwmpTag.init : HwmpTag := ⟨none, 0, 0, 0⟩

structure Packet where
  uid : ℕ
  tag : Option HwmpTag
  deriving DecidableEq, Repr

/-- The tag again, with the address of the retransmitter -/
def Packet.retag (packet : Packet) (retransmitter : Address) : Packet :=
  { packet with tag := some { packet.tag.getD .init with address := some retransmitter } }

/-- The reply callback is the number of the request that it came with. -/
structure QueuedPacket where
  pkt : Packet
  src : Address
  dst : Address
  protocol : ℕ
  inInterface : ℕ
  reply : ℕ
  deriving DecidableEq, Repr

inductive Call where
  | requestDestination (interface : ℕ) (dst : Address) (originatorSeqno dstSeqno : ℕ)
  | sendPreq (interface : ℕ) (preq : IePreq)
  | sendPrep (interface : ℕ) (prep : IePrep) (receiver : Address)
  | initiatePerr (interface : ℕ) (destinations : List FailedDestination) (receivers : List Address)
  | forwardPerr (interface : ℕ) (destinations : List FailedDestination) (receivers : List Address)
  | routeReply (reply : ℕ) (success : Bool) (packet : Packet) (source destination : Address)
      (protocolType outInterface : ℕ)
  | queued (packet : QueuedPacket) (time : ℕ)
  | routeDiscoveryTime (time : ℕ)
  deriving DecidableEq, Repr

/-! ## The state -/

/-- `sent` is the number of path requests of the discovery, which the code does not keep. -/
structure PreqEvent where
  preqTimeout : ℕ
  whenScheduled : ℕ
  sent : ℕ
  deriving DecidableEq, Repr

/-- A pending `RetryPathDiscovery (dst, numOfRetry)` -/
structure RetryEvent where
  id : ℕ
  time : ℕ
  dst : Address
  numOfRetry : ℕ
  deriving DecidableEq, Repr

/-- The number of retries is a `uint8_t`. -/
structure Attributes where
  address : Address
  ifIndex : ℕ
  interfaces : List ℕ
  maxQueueSize : ℕ
  maxPreqRetries : ℕ
  maxPreqRetries_lt : maxPreqRetries < 256
  activeRootTimeout : ℕ
  netDiameterTraversalTime : ℕ
  maxTtl : ℕ

/-- `drawn` counts the sequence numbers that were drawn, which the code does not. -/
structure HwmpProtocol where
  attributes : Attributes
  now : ℕ
  hwmpSeqno : ℕ
  drawn : ℕ
  preqId : ℕ
  hwmpSeqnoMetricDatabase : Address → Option (ℕ × ℕ)
  rtable : HwmpRtable
  preqTimeouts : Address → Option PreqEvent
  events : List RetryEvent
  nextEvent : ℕ
  rqueue : List QueuedPacket
  requests : ℕ
  calls : List Call

/-- Items that are taken out one by one, and what is left -/
def dequeueAll {α : Type} (dequeue : List α → Option (α × List α)) : ℕ → List α → List α × List α
  | 0, queue => ([], queue)
  | n + 1, queue =>
    match dequeue queue with
    | none => ([], queue)
    | some (item, rest) =>
      let r := dequeueAll dequeue n rest
      (item :: r.1, r.2)

def dequeueFirstPacketByDst (dst : Address) (queue : List QueuedPacket) :
    Option (QueuedPacket × List QueuedPacket) :=
  (queue.find? (·.dst = dst)).map fun packet => (packet, queue.eraseP (·.dst = dst))

def dequeueFirstPacket : List QueuedPacket → Option (QueuedPacket × List QueuedPacket)
  | [] => none
  | packet :: rest => some (packet, rest)

namespace HwmpProtocol

def init (attributes : Attributes) : HwmpProtocol where
  attributes := attributes
  now := 0
  hwmpSeqno := 1
  drawn := 0
  preqId := 0
  hwmpSeqnoMetricDatabase _ := none
  rtable := .init
  preqTimeouts _ := none
  events := []
  nextEvent := 0
  rqueue := []
  requests := 0
  calls := []

abbrev Do (α : Type) : Type := Act HwmpProtocol α

def call (c : Call) : Do Unit := modify fun s => { s with calls := s.calls ++ [c] }

/-- The same call at every interface -/
def callAll (c : ℕ → Call) : Do Unit :=
  modify fun s => { s with calls := s.calls ++ s.attributes.interfaces.map c }

def assert (p : HwmpProtocol → Bool) : Do Unit := do
  let s ← get
  if p s then pure () else failure

def getNextHwmpSeqno : Do ℕ := do
  modify fun s => { s with hwmpSeqno := uint32 (s.hwmpSeqno + 1), drawn := s.drawn + 1 }
  let s ← get
  return s.hwmpSeqno

def lookupReactive (destination : Address) : Do LookupResult := do
  let s ← get
  return s.rtable.lookupReactive s.now destination

def lookupProactive : Do LookupResult := do
  modify fun s => { s with rtable := s.rtable.expireProactive s.now }
  let s ← get
  return s.rtable.lookupProactiveExpired s.now

/-- The reactive path, or else the path to the root -/
def lookupPath (destination : Address) : Do LookupResult := do
  let result ← lookupReactive destination
  if result.retransmitter = none then lookupProactive else return result

/-! ## The queue of packets -/

def queuePacket (packet : QueuedPacket) : Do Bool := do
  let s ← get
  if s.rqueue.length > s.attributes.maxQueueSize then return false
  modify fun s => { s with rqueue := s.rqueue ++ [packet] }
  return true

/-- `packet.reply` for a packet that was in the queue -/
def reply (success : Bool) (retag : Packet → Packet) (outInterface : ℕ) (packet : QueuedPacket) :
    Call :=
  .routeReply packet.reply success (retag packet.pkt) packet.src packet.dst packet.protocol
    outInterface

/-- The packets that are taken out are replied to in their order. -/
def flush (dequeue : List QueuedPacket → Option (QueuedPacket × List QueuedPacket))
    (answer : QueuedPacket → Call) : Do Unit :=
  modify fun s =>
    let r := dequeueAll dequeue s.rqueue.length s.rqueue
    { s with rqueue := r.2, calls := s.calls ++ r.1.map answer }

def noteDiscoveryTime (dst : Address) : Do Unit := do
  let s ← get
  match s.preqTimeouts dst with
  | none => return
  | some event => call (.routeDiscoveryTime (s.now - event.whenScheduled))

def reactivePathResolved (dst : Address) : Do Unit := do
  noteDiscoveryTime dst
  let result ← lookupReactive dst
  match result.retransmitter with
  | none => failure
  | some retransmitter =>
    flush (dequeueFirstPacketByDst dst) (reply true (·.retag retransmitter) result.ifIndex)

/-- Packets without a tag are a fatal error. -/
def proactivePathResolved : Do Unit := do
  let result ← lookupProactive
  match result.retransmitter with
  | none => failure
  | some retransmitter =>
    assert fun s => s.rqueue.all (·.pkt.tag.isSome)
    flush dequeueFirstPacket (reply true (·.retag retransmitter) result.ifIndex)

/-! ## Path requests -/

/-- `Simulator::Schedule` for a retry; the timeout of the entry is the new event. -/
def scheduleRetry (delay : ℕ) (dst : Address) (numOfRetry : ℕ) (event : ℕ → PreqEvent) : Do Unit :=
  modify fun s =>
    { s with
      events := s.events ++ [⟨s.nextEvent, s.now + delay, dst, numOfRetry⟩]
      preqTimeouts := Function.update s.preqTimeouts dst (some (event s.nextEvent))
      nextEvent := s.nextEvent + 1 }

def shouldSendPreq (dst : Address) : Do Bool := do
  let s ← get
  match s.preqTimeouts dst with
  | some _ => return false
  | none =>
    scheduleRetry (s.attributes.netDiameterTraversalTime * 2) dst 1 fun id => ⟨id, s.now, 0⟩
    return true

/-- `RequestDestination` at every interface -/
def requestDestination (dst : Address) (originatorSeqno dstSeqno : ℕ) : Do Unit := do
  callAll fun i => .requestDestination i dst originatorSeqno dstSeqno
  modify fun s =>
    let event := (s.preqTimeouts dst).map fun event => { event with sent := event.sent + 1 }
    { s with preqTimeouts := Function.update s.preqTimeouts dst event }

def eraseTimeout (dst : Address) : Do Unit :=
  modify fun s => { s with preqTimeouts := Function.update s.preqTimeouts dst none }

/-- `numOfRetry` is a `uint8_t`. -/
def retryPathDiscovery (dst : Address) (numOfRetry : ℕ) : Do Unit := do
  let result ← lookupPath dst
  let s ← get
  match s.preqTimeouts dst with
  | none => failure
  | some event =>
    if result.retransmitter ≠ none then
      eraseTimeout dst
    else if numOfRetry > s.attributes.maxPreqRetries then
      flush (dequeueFirstPacketByDst dst) (reply false id maxMetric)
      call (.routeDiscoveryTime (s.now - event.whenScheduled))
      eraseTimeout dst
    else
      let numOfRetry := (numOfRetry + 1) % 256
      let originatorSeqno ← getNextHwmpSeqno
      requestDestination dst originatorSeqno (s.rtable.lookupReactiveExpired s.now dst).seqnum
      scheduleRetry (2 * (numOfRetry + 1) * s.attributes.netDiameterTraversalTime) dst numOfRetry
        fun id => ⟨id, event.whenScheduled, event.sent + 1⟩

/-! ## Path errors -/

/-- The inner loop of the search for duplicates: what follows an erased receiver is not looked at. -/
def eraseDuplicates (receiver : ℕ × Address) : List (ℕ × Address) → List (ℕ × Address)
  | [] => []
  | [r] => if r.2 = receiver.2 then [] else [r]
  | r :: r' :: rs =>
    if r.2 = receiver.2 then r' :: eraseDuplicates receiver rs
    else r :: eraseDuplicates receiver (r' :: rs)

/-- The outer loop, in as many turns as there are receivers -/
def withoutDuplicates : ℕ → List (ℕ × Address) → List (ℕ × Address)
  | 0, rs => rs
  | _ + 1, [] => []
  | n + 1, r :: rs => r :: withoutDuplicates n (eraseDuplicates r rs)

/-- The precursors of destinations whose paths are deleted one after another. -/
def failedPrecursors (now : ℕ) : HwmpRtable → List FailedDestination → List (ℕ × Address)
  | _, [] => []
  | t, d :: ds => t.getPrecursors now d.destination ++
      failedPrecursors now ((t.deleteReactivePath d.destination).deleteProactivePathTo now
        d.destination) ds

/-- The paths to the destinations are deleted. -/
def getPerrReceivers (destinations : List FailedDestination) : Do (List (ℕ × Address)) := do
  let s ← get
  let receivers := failedPrecursors s.now s.rtable destinations
  modify fun s =>
    let rtable := destinations.foldl
      (fun t d => (t.deleteReactivePath d.destination).deleteProactivePathTo s.now d.destination)
      s.rtable
    { s with rtable := rtable }
  return withoutDuplicates receivers.length receivers

/-- Without a receiver the error names no destination. -/
def makePathError (destinations : List FailedDestination) :
    Do (List FailedDestination × List (ℕ × Address)) := do
  let receivers ← getPerrReceivers destinations
  if receivers.isEmpty then return ([], [])
  return (destinations, receivers)

def receiversFor (receivers : List (ℕ × Address)) (interface : ℕ) : List Address :=
  (receivers.filter (·.1 = interface)).map Prod.snd

def initiatePathError (perr : List FailedDestination × List (ℕ × Address)) : Do Unit :=
  callAll fun i => .initiatePerr i perr.1 (receiversFor perr.2 i)

def forwardPathError (perr : List FailedDestination × List (ℕ × Address)) : Do Unit :=
  callAll fun i => .forwardPerr i perr.1 (receiversFor perr.2 i)

def getUnreachableDestinations (peerAddress : Address) : Do (List FailedDestination) := do
  let s ← get
  let r := s.rtable.getUnreachableDestinations peerAddress
  modify fun s => { s with rtable := r.2 }
  return r.1

def peerLinkStatus (peerAddress : Address) (status : Bool) : Do Unit := do
  if status then return
  let destinations ← getUnreachableDestinations peerAddress
  let perr ← makePathError destinations
  initiatePathError perr

def receivePerr (destinations : List FailedDestination) (sender : Address) (interface : ℕ) :
    Do Unit := do
  let s ← get
  let failed := destinations.filter fun d =>
    let result := s.rtable.lookupReactiveExpired s.now d.destination
    ¬ (result.retransmitter ≠ some sender ∨ result.ifIndex ≠ interface ∨
      0 < int32Diff result.seqnum d.seqnum)
  if failed.isEmpty then return
  let perr ← makePathError failed
  forwardPathError perr

/-! ## Data packets -/

/-- A packet of another mesh point for which there is no path -/
def pathErrorFor (destination : Address) : Do Unit := do
  let s ← get
  let reactive := s.rtable.lookupReactiveExpired s.now destination
  let result := if reactive.retransmitter = none then s.rtable.lookupProactiveExpired s.now
    else reactive
  match result.retransmitter with
  | none => pure ()
  | some retransmitter =>
    let destinations ← getUnreachableDestinations retransmitter
    let perr ← makePathError destinations
    initiatePathError perr

/-- A path is requested if no request is on its way. -/
def startDiscovery (destination : Address) : Do Unit := do
  let s ← get
  let result := s.rtable.lookupReactiveExpired s.now destination
  let send ← shouldSendPreq destination
  if send then
    let originatorSeqno ← getNextHwmpSeqno
    requestDestination destination originatorSeqno
      (if result.retransmitter = none then 0 else result.seqnum)
  else pure ()

def forwardUnicast (sourceIface : ℕ) (source destination : Address) (packet : Packet)
    (protocolType routeReply ttl : ℕ) : Do Bool := do
  let result ← lookupPath destination
  let packet := { packet with tag := some ⟨result.retransmitter, ttl, 0, 0⟩ }
  if result.retransmitter ≠ none then
    call (.routeReply routeReply true packet source destination protocolType result.ifIndex)
    return true
  let s ← get
  if sourceIface ≠ s.attributes.ifIndex then
    pathErrorFor destination
    return false
  startDiscovery destination
  let pkt : QueuedPacket := ⟨packet, source, destination, protocolType, sourceIface, routeReply⟩
  let isQueued ← queuePacket pkt
  if isQueued then
    call (.queued pkt s.now)
    return true
  return false

/-- Packets of the upper layers have no tag, and packets of other mesh points have one. -/
def requestRoute (sourceIface : ℕ) (source destination : Address) (packet : Packet)
    (protocolType : ℕ) : Do Bool := do
  let s ← get
  modify fun s => { s with requests := s.requests + 1 }
  if sourceIface = s.attributes.ifIndex then
    match packet.tag with
    | some _ => failure
    | none =>
      forwardUnicast sourceIface source destination packet protocolType s.requests
        s.attributes.maxTtl
  else
    match packet.tag with
    | none => failure
    | some tag =>
      let ttl := (tag.ttl + 255) % 256
      if ttl = 0 then return false
      forwardUnicast sourceIface source destination { packet with tag := none } protocolType
        s.requests ttl

end HwmpProtocol

end Ns3Noc.Hwmp
