import Mathlib
import Ns3Noc.MacRxMiddle

/-!
# FLAME at one mesh point

Duplicate suppression, route learning and hop limiting of data frames, and the mesh point device that
calls them. What a mesh point asks of its table, its upper layer and its interfaces is kept as a list
of events. Statistics and the promiscuous callback, which only observes, are left out.
-/
namespace Ns3Noc.Flame

open Wifi (Mac48Address)

/-- `Mac48Address::GetBroadcast` -/
def broadcast : Mac48Address := BitVec.allOnes 48

/-- `FLAME_PROTOCOL` -/
def flameProtocol : UInt16 := 0x4040

inductive Fatal where
  | tagFromUpperLayers
  | tagMissing
  | tagReceived
  | headerMissing
  | interfaceNotFound
  | assertion
  deriving DecidableEq, Repr

/-! ## Packets -/

structure FlameHeader where
  cost : UInt8
  seqno : UInt16
  origDst : Mac48Address
  origSrc : Mac48Address
  protocol : UInt16
  deriving DecidableEq, Repr

/-- The sum is taken in 16 bits. -/
def FlameHeader.addCost (hdr : FlameHeader) (cost : UInt8) : FlameHeader :=
  { hdr with cost := if cost.toUInt16 + hdr.cost.toUInt16 > 255 then 255 else cost + hdr.cost }

structure FlameTag where
  receiver : Mac48Address
  transmitter : Mac48Address
  deriving DecidableEq, Repr

/-- The constructor of a tag -/
def FlameTag.create (receiver : Mac48Address) : FlameTag := ⟨receiver, 0⟩

structure Packet where
  payload : List UInt8
  header : Option FlameHeader
  tag : Option FlameTag
  deriving DecidableEq, Repr

/-! ## The routing table -/

structure Route where
  retransmitter : Mac48Address
  interface : ℕ
  cost : UInt8
  whenExpire : ℕ
  seqnum : UInt16
  deriving DecidableEq, Repr

abbrev FlameRtable : Type := Mac48Address → Option Route

def interfaceAny : ℕ := 0xffffffff

structure LookupResult where
  retransmitter : Mac48Address
  ifIndex : ℕ
  cost : UInt8
  seqnum : UInt16
  deriving DecidableEq, Repr

def LookupResult.create : LookupResult := ⟨broadcast, interfaceAny, 0xff, 0⟩

namespace FlameRtable

def addPath (table : FlameRtable) (now lifetime : ℕ) (destination retransmitter : Mac48Address)
    (interface : ℕ) (cost : UInt8) (seqnum : UInt16) : FlameRtable :=
  Function.update table destination
    (some ⟨retransmitter, interface, cost, now + lifetime, seqnum⟩)

/-- A route that has expired is erased when it is looked up. -/
def lookup (table : FlameRtable) (now : ℕ) (destination : Mac48Address) :
    LookupResult × FlameRtable :=
  match table destination with
  | none => (.create, table)
  | some route =>
    if route.whenExpire < now then (.create, Function.update table destination none)
    else (⟨route.retransmitter, route.interface, route.cost, route.seqnum⟩, table)

end FlameRtable

/-! ## The protocol -/

/-- A mesh point with its interfaces, each with its index and address, and its attributes -/
structure Device where
  ifIndex : ℕ
  interfaces : List (ℕ × Mac48Address)
  broadcastInterval : ℕ
  maxCost : UInt8
  lifetime : ℕ
  three_le_maxCost : 3 ≤ maxCost
  ifIndex_notMem : ifIndex ∉ interfaces.map Prod.fst
  address_ne_broadcast : ∀ i ∈ interfaces, i.2 ≠ broadcast

structure FlameProtocol where
  lastBroadcast : ℕ
  myLastSeqno : UInt16
  routes : FlameRtable

def FlameProtocol.create : FlameProtocol := ⟨0, 1, fun _ => none⟩

inductive Event where
  | addPath (destination retransmitter : Mac48Address) (interface : ℕ) (cost : UInt8)
      (seqnum : UInt16)
  | rxCallback (packet : Packet) (protocol : UInt16) (src : Mac48Address)
  | doSend (packet : Packet) (src dst : Mac48Address) (protocol : UInt16) (outIface : ℕ)
  deriving DecidableEq, Repr

/-- A packet that the upper layer sends. -/
structure Sending where
  payload : List UInt8
  dest : Mac48Address
  protocolNumber : UInt16
  deriving DecidableEq, Repr

namespace FlameProtocol

variable (device : Device) (address : Mac48Address) (now : ℕ)

def handleDataFrame (s : FlameProtocol) (seqno : UInt16) (source : Mac48Address)
    (flameHdr : FlameHeader) (receiver : Mac48Address) (fromInterface : ℕ) :
    Bool × FlameProtocol × List Event :=
  if source = address then (true, s, [])
  else
    let (result, routes) := s.routes.lookup now source
    if result.retransmitter ≠ broadcast ∧ 0 ≤ (result.seqnum - seqno).toInt16 then
      (true, { s with routes := routes }, [])
    else if flameHdr.cost > device.maxCost then (true, { s with routes := routes }, [])
    else
      let routes := routes.addPath now device.lifetime source receiver fromInterface flameHdr.cost
        flameHdr.seqno
      (false, { s with routes := routes },
        [.addPath source receiver fromInterface flameHdr.cost flameHdr.seqno])

/-- `RequestRoute` with a packet from the upper layer -/
def originate (s : FlameProtocol) (source destination : Mac48Address) (packet : Packet)
    (protocolType : UInt16) : Except Fatal (Bool × FlameProtocol × List Event) :=
  if packet.tag.isSome then .error .tagFromUpperLayers
  else
    let (found, routes) := s.routes.lookup now destination
    let lastBroadcast := if found.retransmitter = broadcast then now else s.lastBroadcast
    let update : Bool := lastBroadcast + device.broadcastInterval < now
    let retransmitter := if update then broadcast else found.retransmitter
    let ifIndex := if update then interfaceAny else found.ifIndex
    let flameHdr : FlameHeader := ⟨0, s.myLastSeqno, destination, source, protocolType⟩
    let packet : Packet :=
      { packet with header := some (flameHdr.addCost 0), tag := some (.create retransmitter) }
    .ok (false, ⟨if update then now else lastBroadcast, s.myLastSeqno + 1, routes⟩,
      [.doSend packet source destination flameProtocol ifIndex])

/-- `RequestRoute` with a broadcast frame of another mesh point -/
def forwardBroadcast (s : FlameProtocol) (sourceIface : ℕ) (source destination : Mac48Address)
    (packet : Packet) (flameHdr : FlameHeader) (tag : FlameTag) :
    Except Fatal (Bool × FlameProtocol × List Event) :=
  let (seen, s, events) := s.handleDataFrame device address now flameHdr.seqno source flameHdr
    tag.transmitter sourceIface
  if seen = false then .error .assertion
  else
    let packet : Packet :=
      { packet with header := some (flameHdr.addCost 1), tag := some (.create broadcast) }
    .ok (true, s, events ++ [.doSend packet source destination flameProtocol interfaceAny])

/-- `RequestRoute` with a unicast frame of another mesh point -/
def forwardUnicast (s : FlameProtocol) (sourceIface : ℕ) (source destination : Mac48Address)
    (packet : Packet) (flameHdr : FlameHeader) (tag : FlameTag) :
    Bool × FlameProtocol × List Event :=
  let (seen, s, events) := s.handleDataFrame device address now flameHdr.seqno source flameHdr
    tag.transmitter sourceIface
  if seen then (false, s, events)
  else
    let (result, routes) := s.routes.lookup now destination
    let s : FlameProtocol := { s with routes := routes }
    if tag.receiver ≠ broadcast ∧ result.retransmitter = broadcast then (false, s, events)
    else
      let receiver := if tag.receiver ≠ broadcast then result.retransmitter else broadcast
      let packet : Packet :=
        { packet with
          header := some (flameHdr.addCost 1), tag := some { tag with receiver := receiver } }
      (true, s, events ++ [.doSend packet source destination flameProtocol result.ifIndex])

def requestRoute (s : FlameProtocol) (sourceIface : ℕ) (source destination : Mac48Address)
    (packet : Packet) (protocolType : UInt16) :
    Except Fatal (Bool × FlameProtocol × List Event) :=
  if sourceIface = device.ifIndex then s.originate device now source destination packet protocolType
  else
    match packet.header, packet.tag with
    | none, _ => .error .headerMissing
    | some _, none => .error .tagMissing
    | some flameHdr, some tag =>
      if destination = broadcast then
        s.forwardBroadcast device address now sourceIface source destination packet flameHdr tag
      else
        .ok (s.forwardUnicast device address now sourceIface source destination packet flameHdr tag)

/-- `MeshPointDevice::Send` -/
def send (s : FlameProtocol) (sending : Sending) :
    Except Fatal (Bool × FlameProtocol × List Event) :=
  s.requestRoute device address now device.ifIndex address sending.dest
    ⟨sending.payload, none, none⟩ sending.protocolNumber

/-- The packet without its header and the protocol in it, where the frame is not dropped. -/
def removeRoutingStuff (s : FlameProtocol) (fromIface : ℕ) (source destination : Mac48Address)
    (packet : Packet) (protocolType : UInt16) :
    Except Fatal (Option (Packet × UInt16) × FlameProtocol × List Event) :=
  if source = address then .ok (none, s, [])
  else
    match packet.tag, packet.header with
    | none, _ => .error .tagMissing
    | some _, none => .error .headerMissing
    | some tag, some flameHdr => do
      let (drop, s, events) := s.handleDataFrame device address now flameHdr.seqno source flameHdr
        tag.transmitter fromIface
      if drop then return (none, s, events)
      else
        let start : Bool := destination = address ∧
          (s.lastBroadcast + device.broadcastInterval < now ∨ s.lastBroadcast = 0)
        let (s, updates) ← if start then do
            let (_, s, updates) ← s.send device address now ⟨[], broadcast, 0⟩
            pure ({ s with lastBroadcast := now }, updates)
          else pure (s, [])
        if protocolType ≠ flameProtocol then .error .assertion
        else
          return (some (⟨packet.payload, none, none⟩, flameHdr.protocol), s, events ++ updates)

/-- Packets that the upper layer sends one after the other. -/
def sendAll (s : FlameProtocol) : List Sending → Except Fatal (FlameProtocol × List Event)
  | [] => .ok (s, [])
  | sending :: sendings => do
    let (_, s, events) ← s.send device address now sending
    let (s, rest) ← s.sendAll sendings
    return (s, events ++ rest)

/-- The upper layer may send packets before the receive callback returns. -/
def receiveFromDevice (s : FlameProtocol) (incomingPort : ℕ) (packet : Packet) (protocol : UInt16)
    (src dst : Mac48Address) (replies : List Sending) : Except Fatal (FlameProtocol × List Event) :=
  if dst.isGroup ∨ dst = address then do
    let (received, s, events) ←
      s.removeRoutingStuff device address now incomingPort src dst packet protocol
    match received with
    | none => return (s, events)
    | some (copy, realProtocol) =>
      let (s, sends) ← s.sendAll device address now replies
      let events := events ++ .rxCallback copy realProtocol src :: sends
      if dst.isGroup then
        let (_, s, forwarded) ←
          s.requestRoute device address now incomingPort src dst packet realProtocol
        return (s, events ++ forwarded)
      else return (s, events)
  else do
    let (_, s, events) ← s.requestRoute device address now incomingPort src dst packet protocol
    return (s, events)

end FlameProtocol

end Ns3Noc.Flame
