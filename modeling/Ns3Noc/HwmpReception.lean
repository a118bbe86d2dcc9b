import Ns3Noc.HwmpProtocol

/-!
# Frames that HWMP receives

Path requests and replies, the requests of the root, and the steps of one mesh point.
-/
namespace Ns3Noc.Hwmp

open PartialActs

namespace HwmpProtocol

/-- `MicroSeconds (lifetime * 1024)` in nanoseconds -/
def lifetimeTime (lifetime : ℕ) : ℕ := uint32 (lifetime * 1024) * 1000

/-- A remaining time as the lifetime of a frame -/
def remainingLifetime (time : ℤ) : ℕ := (((time.tdiv 1000).tdiv 1024) % 4294967296).toNat

def addReactivePath (destination retransmitter : Address) (interface metric lifetime seqnum : ℕ) :
    Do Unit :=
  modify fun s =>
    { s with
      rtable := s.rtable.addReactivePath s.now destination retransmitter interface metric lifetime
        seqnum }

def addProactivePath (metric : ℕ) (root retransmitter : Address) (interface lifetime seqnum : ℕ) :
    Do Unit :=
  modify fun s =>
    { s with
      rtable := s.rtable.addProactivePath s.now metric root retransmitter interface lifetime seqnum }

def addPrecursor (destination : Address) (interface : ℕ) (address : Address) (lifetime : ℤ) :
    Do Unit :=
  modify fun s =>
    { s with rtable := s.rtable.addPrecursor s.now destination interface address lifetime }

def acceptSeqno (address : Address) (seqno metric : ℕ) : Do Unit :=
  modify fun s =>
    { s with
      hwmpSeqnoMetricDatabase :=
        Function.update s.hwmpSeqnoMetricDatabase address (some (seqno, metric)) }

def sendPrep (src dst retransmitter : Address)
    (initMetric originatorDsn destinationSN lifetime interface : ℕ) : Do Unit := do
  assert fun s => interface ∈ s.attributes.interfaces
  let s ← get
  call (.sendPrep interface
    ⟨0, s.attributes.maxTtl, dst, destinationSN, lifetime, initMetric, src, originatorDsn⟩
    retransmitter)

/-- No path is known, or a worse one. -/
def improves (result : LookupResult) (metric : ℕ) : Bool :=
  result.retransmitter = none ∨ metric < result.metric

/-- The path to the transmitter of a frame -/
def addPathToTransmitter (fromMp sender : Address) (interface metric lifetime seqnum : ℕ) :
    Do Unit := do
  let result ← lookupReactive fromMp
  if improves result metric then
    addReactivePath fromMp sender interface metric lifetime seqnum
    reactivePathResolved fromMp

/-! ## Path requests -/

def addPathToRoot (preq : IePreq) (sender : Address) (interface : ℕ) : Do Unit := do
  let result ← lookupProactive
  if improves result preq.metric then
    addProactivePath preq.metric preq.originatorAddress sender interface
      (lifetimeTime preq.lifetime) preq.originatorSeqNumber
    proactivePathResolved

/-- The proactive request of the root -/
def receiveProactivePreq (preq : IePreq) (sender : Address) (interface : ℕ) : Do Unit := do
  addPathToRoot preq sender interface
  if preq.needNotPrep then return
  let seqno ← getNextHwmpSeqno
  let s ← get
  sendPrep s.attributes.address preq.originatorAddress sender 0 preq.originatorSeqNumber seqno
    preq.lifetime interface

/-- The answer of the destination itself -/
def answerAsDestination (preq : IePreq) (sender : Address) (interface : ℕ) : Do Unit := do
  let seqno ← getNextHwmpSeqno
  let s ← get
  sendPrep s.attributes.address preq.originatorAddress sender 0 preq.originatorSeqNumber seqno
    preq.lifetime interface
  assert fun s =>
    (s.rtable.lookupReactive s.now preq.originatorAddress).retransmitter.isSome

/-- The answer of a mesh point that knows a path to the destination -/
def answerForDestination (preq : IePreq) (sender : Address) (interface : ℕ)
    (destination : Address) (result : LookupResult) : Do Unit := do
  sendPrep destination preq.originatorAddress sender result.metric preq.originatorSeqNumber
    result.seqnum (remainingLifetime result.lifetime) interface
  addPrecursor destination interface sender (lifetimeTime preq.lifetime)

def canAnswer (unit : DestinationAddressUnit) (result : LookupResult) : Bool :=
  unit.doFlag = false ∧ result.retransmitter ≠ none ∧ 0 < remainingLifetime result.lifetime ∧
    0 ≤ int32Diff result.seqnum unit.destSeqNumber

/-- The units of the request are told apart by their positions in it. -/
abbrev Units : Type := List (ℕ × DestinationAddressUnit)

def Units.delete (units : Units) (address : Address) : Units :=
  units.eraseP (·.2.destinationAddress = some address)

/-- `SetFlags (true, false, IsUsn ())` -/
def Units.setDestinationOnly (units : Units) (i : ℕ) : Units :=
  KeyedTables.modify units i fun unit => { unit with doFlag := true, rfFlag := false }

/-- The loop over the destinations of a request; the value is what is left of them. -/
def receiveDestinations (preq : IePreq) (sender : Address) (interface : ℕ) :
    Units → Units → Do Units
  | [], left => return left
  | (i, unit) :: units, left => do
    match unit.destinationAddress with
    | none =>
      assert fun _ => left.length = 1 ∧ unit.doFlag ∧ unit.rfFlag
      receiveProactivePreq preq sender interface
      return left
    | some destination =>
      let s ← get
      if destination = s.attributes.address then
        answerAsDestination preq sender interface
        receiveDestinations preq sender interface units (left.delete destination)
      else
        let result ← lookupReactive destination
        if canAnswer unit result then
          answerForDestination preq sender interface destination result
          let left := if unit.rfFlag then left.setDestinationOnly i else left.delete destination
          receiveDestinations preq sender interface units left
        else
          receiveDestinations preq sender interface units left

def units (preq : IePreq) : Units := preq.destinations.zipIdx.map fun p => (p.2, p.1)

/-- What is kept of the originator's number: whether it is fresh, if the frame is accepted -/
def acceptsPreq (entry : Option (ℕ × ℕ)) (preq : IePreq) : Option Bool :=
  match entry with
  | none => some true
  | some (seqno, metric) =>
    if 0 < int32Diff seqno preq.originatorSeqNumber then none
    else if seqno = preq.originatorSeqNumber then
      if metric ≤ preq.metric then none else some false
    else some true

/-- The path to the mesh point that sent the request -/
def addPathToPreqOriginator (preq : IePreq) (sender : Address) (interface : ℕ)
    (freshInfo : Bool) : Do Unit := do
  let result ← lookupReactive preq.originatorAddress
  if freshInfo ∨ improves result preq.metric then
    addReactivePath preq.originatorAddress sender interface preq.metric
      (lifetimeTime preq.lifetime) preq.originatorSeqNumber
    reactivePathResolved preq.originatorAddress

def receivePreq (preq : IePreq) (sender : Address) (interface : ℕ) (fromMp : Address)
    (metric : ℕ) : Do Unit := do
  let preq := preq.incrementMetric metric
  let s ← get
  match acceptsPreq (s.hwmpSeqnoMetricDatabase preq.originatorAddress) preq with
  | none => return
  | some freshInfo =>
    acceptSeqno preq.originatorAddress preq.originatorSeqNumber preq.metric
    addPathToPreqOriginator preq sender interface freshInfo
    addPathToTransmitter fromMp sender interface metric (lifetimeTime preq.lifetime)
      preq.originatorSeqNumber
    let left ← receiveDestinations preq sender interface (units preq) (units preq)
    if left.isEmpty then return
    callAll fun i => .sendPreq i { preq with destinations := left.map Prod.snd }

/-! ## Path replies -/

def acceptsPrep (entry : Option (ℕ × ℕ)) (prep : IePrep) : Option Bool :=
  match entry with
  | none => some true
  | some (seqno, _) =>
    if 0 < int32Diff seqno prep.originatorSeqNumber then none
    else some (seqno ≠ prep.originatorSeqNumber)

/-- The next hop to the requester is a precursor on the path. -/
def addPrecursorTowards (prep : IePrep) (interface : ℕ) (result : LookupResult) : Do Unit :=
  match result.retransmitter with
  | none => return
  | some retransmitter =>
    addPrecursor prep.originatorAddress interface retransmitter result.lifetime

/-- The path to the mesh point that sent the reply -/
def addPathToPrepOriginator (prep : IePrep) (sender : Address) (interface : ℕ)
    (freshInfo : Bool) (result : LookupResult) : Do Unit := do
  let known ← lookupReactive prep.originatorAddress
  if freshInfo ∨ improves known prep.metric then
    addReactivePath prep.originatorAddress sender interface prep.metric
      (lifetimeTime prep.lifetime) prep.originatorSeqNumber
    addPrecursor prep.destinationAddress interface sender (lifetimeTime prep.lifetime)
    addPrecursorTowards prep interface result
    reactivePathResolved prep.originatorAddress

def forwardPrep (prep : IePrep) (result : LookupResult) : Do Unit := do
  let s ← get
  if prep.destinationAddress = s.attributes.address then return
  match result.retransmitter with
  | none => return
  | some retransmitter =>
    assert fun s => result.ifIndex ∈ s.attributes.interfaces
    call (.sendPrep result.ifIndex prep retransmitter)

def receivePrep (prep : IePrep) (sender : Address) (interface : ℕ) (fromMp : Address)
    (metric : ℕ) : Do Unit := do
  let prep := prep.incrementMetric metric
  let s ← get
  match acceptsPrep (s.hwmpSeqnoMetricDatabase prep.originatorAddress) prep with
  | none => return
  | some freshInfo =>
    acceptSeqno prep.originatorAddress prep.originatorSeqNumber prep.metric
    let result ← lookupReactive prep.destinationAddress
    addPathToPrepOriginator prep sender interface freshInfo result
    addPathToTransmitter fromMp sender interface metric (lifetimeTime prep.lifetime)
      prep.originatorSeqNumber
    forwardPrep prep result

/-! ## The root -/

def getNextPreqId : Do ℕ := do
  modify fun s => { s with preqId := uint32 (s.preqId + 1) }
  let s ← get
  return s.preqId

/-- The timer of the root's requests is not part of the state: they are sent at any time. -/
def sendProactivePreq : Do Unit := do
  let preqId ← getNextPreqId
  let seqno ← getNextHwmpSeqno
  let s ← get
  callAll fun i => .sendPreq i
    ⟨false, 0, s.attributes.maxTtl, preqId, s.attributes.address, seqno,
      uint32 (s.attributes.activeRootTimeout / 1000 / 1024), 0, [⟨true, true, true, none, 0⟩]⟩

/-! ## Steps -/

/-- The event is taken out of the scheduler at its time. -/
def fireRetry (id : ℕ) : Do Unit := do
  let s ← get
  match s.events.find? (·.id = id) with
  | none => failure
  | some event =>
    assert fun s => event.time = s.now
    modify fun s => { s with events := s.events.filter (·.id ≠ id) }
    retryPathDiscovery event.dst event.numOfRetry

/-- The scheduler does not pass the time of a pending event. -/
def tick (duration : ℕ) : Do Unit := do
  assert fun s => s.events.all fun event => s.now + duration ≤ event.time
  modify fun s => { s with now := s.now + duration }

inductive Event
  | requestRoute (sourceIface : ℕ) (source destination : Address) (packet : Packet)
      (protocolType : ℕ)
  | receivePreq (preq : IePreq) (sender : Address) (interface : ℕ) (fromMp : Address) (metric : ℕ)
  | receivePrep (prep : IePrep) (sender : Address) (interface : ℕ) (fromMp : Address) (metric : ℕ)
  | receivePerr (destinations : List FailedDestination) (sender : Address) (interface : ℕ)
  | peerLinkStatus (peerAddress : Address) (status : Bool)
  | sendProactivePreq
  | retryPathDiscovery (id : ℕ)
  | tick (duration : ℕ)
  deriving DecidableEq, Repr

def handle : Event → Do Unit
  | .requestRoute sourceIface source destination packet protocolType => do
    let _ ← requestRoute sourceIface source destination packet protocolType
  | .receivePreq preq sender interface fromMp metric =>
    receivePreq preq sender interface fromMp metric
  | .receivePrep prep sender interface fromMp metric =>
    receivePrep prep sender interface fromMp metric
  | .receivePerr destinations sender interface => receivePerr destinations sender interface
  | .peerLinkStatus peerAddress status => peerLinkStatus peerAddress status
  | .sendProactivePreq => sendProactivePreq
  | .retryPathDiscovery id => fireRetry id
  | .tick duration => tick duration

def step (s : HwmpProtocol) (event : Event) : Option HwmpProtocol := (handle event s).map Prod.snd

end HwmpProtocol

end Ns3Noc.Hwmp
