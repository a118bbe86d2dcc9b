import Ns3Noc.AodvTable

/-!
# Route discovery of AODV

Requests for a route are counted in the routing table and limited in rate. A request over the limit
is put off, and a timer for each destination repeats requests that nobody answers.
-/
namespace Ns3Noc.Aodv

/-- An entry that was only constructed. -/
def RoutingTableEntry.create (now : Time) : RoutingTableEntry :=
  ⟨false, 0, 0, now, 0x66666666, .valid, [], 0⟩

namespace Discovery
open KeyedTables WhileLoops

structure RreqHeader where
  hopCount : UInt8
  requestId : UInt32
  dst : Ipv4Address
  dstSeqNo : UInt32
  origin : Ipv4Address
  originSeqNo : UInt32
  gratuitousRrep : Bool
  destinationOnly : Bool
  unknownSeqno : Bool
  deriving DecidableEq, Repr

structure Ipv4InterfaceAddress where
  localAddress : Ipv4Address
  mask : Ipv4Address
  broadcast : Ipv4Address
  deriving DecidableEq, Repr

/-- Where a request is sent on an interface: to all hosts for a mask of ones. -/
def Ipv4InterfaceAddress.destination (iface : Ipv4InterfaceAddress) : Ipv4Address :=
  if iface.mask = BitVec.allOnes 32 then BitVec.allOnes 32 else iface.broadcast

/-- The attributes of the protocol. `getRoute` is the route of an entry, with its interface. -/
structure Attributes where
  rreqRetries : UInt32
  rreqRateLimit : UInt16
  netTraversalTime : Time
  gratuitousReply : Bool
  destinationOnly : Bool
  getRoute : RoutingTableEntry → Ipv4Route

/-- What the search for a destination comes to. -/
inductive Action where
  | requested (dst : Ipv4Address)
  | gaveUp (dst : Ipv4Address)
  deriving DecidableEq, Repr

/-- The protocol at a node. Timers are given by the time at which they expire, and only those that
run are kept. The history is newest first. -/
structure RoutingProtocol where
  now : Time
  socketAddresses : List Ipv4InterfaceAddress
  routingTable : RoutingTable
  queue : RequestQueue
  rreqCount : UInt16
  rreqRateLimitTimer : Time
  addressReqTimer : List (Ipv4Address × Time)
  postponed : List (Time × Ipv4Address)
  seqNo : UInt32
  requestId : UInt32
  sent : List (Ipv4Address × RreqHeader)
  history : List Action
  deriving DecidableEq

namespace RoutingProtocol
variable (c : Attributes) (node : RoutingProtocol) (dst : Ipv4Address)

def create (socketAddresses : List Ipv4InterfaceAddress) (maxLen : ℕ) (queueTimeout : Time) :
    RoutingProtocol :=
  ⟨0, socketAddresses, ⟨[], List.nodup_nil⟩, ⟨maxLen, queueTimeout, [], []⟩, 0, 1000000000, [], [],
    0, 0, [], []⟩

def scheduleRreqRetry : RoutingProtocol :=
  let (routingTable, found) := node.routingTable.lookupRoute node.now dst
  let rt := found.getD (.create node.now)
  let destination := if found.isSome then dst else 0x66666666
  let rt := { rt with reqCount := rt.reqCount + 1 }
  { node with
    routingTable := routingTable.update destination rt
    addressReqTimer := (dst, node.now + rt.reqCount.toNat * c.netTraversalTime) ::
      remove node.addressReqTimer dst }

/-- The request before its origin is set. The hop count of a known route is written and then set to
0. -/
def rreqHeader (found : Option RoutingTableEntry) : RreqHeader where
  hopCount := 0
  requestId := node.requestId + 1
  dst := dst
  dstSeqNo := (found.filter RoutingTableEntry.validSeqNo).elim 0 RoutingTableEntry.seqNo
  origin := 0
  originSeqNo := node.seqNo + 1
  gratuitousRrep := c.gratuitousReply
  destinationOnly := c.destinationOnly
  unknownSeqno := !(found.any RoutingTableEntry.validSeqNo)

/-- A request over the limit is called again 100 microseconds after the limit is lifted. -/
def sendRequest : RoutingProtocol :=
  if node.rreqCount = c.rreqRateLimit then
    { node with postponed := node.postponed ++ [(node.rreqRateLimitTimer + 100000, dst)] }
  else
    let (routingTable, found) := node.routingTable.lookupRoute node.now dst
    let rreqHeader := node.rreqHeader c dst found
    let rt := found.getD (.create node.now)
    scheduleRreqRetry c
      { node with
        rreqCount := node.rreqCount + 1
        routingTable := routingTable.addRoute node.now dst { rt with flag := .inSearch }
        seqNo := node.seqNo + 1
        requestId := node.requestId + 1
        sent := node.sent ++ node.socketAddresses.map fun iface =>
          (iface.destination, { rreqHeader with origin := iface.localAddress })
        history := .requested dst :: node.history }
      dst

/-- The end of a search without an answer. -/
def giveUp : RoutingProtocol :=
  { node with
    addressReqTimer := remove node.addressReqTimer dst
    routingTable := node.routingTable.deleteRoute node.now dst
    queue := node.queue.dropPacketWithDst node.now dst
    history := .gaveUp dst :: node.history }

/-- `SendPacketFromQueue`: each turn of its loop but the last takes a packet from the queue. -/
def sendPackets (route : Ipv4Route) : RoutingProtocol :=
  match loop (sendPacketFromQueue node.now dst route) (node.queue.queue.length + 1)
      ⟨node.queue, []⟩ with
  | some (some s) => { node with queue := s.queue }
  | _ => node

def routeRequestTimerExpire : RoutingProtocol :=
  let (routingTable, found) := node.routingTable.lookupRoute node.now dst
  let node := { node with routingTable := routingTable }
  let toDst := found.getD (.create node.now)
  if found.isSome ∧ toDst.flag = .valid then node.sendPackets dst (c.getRoute toDst)
  else if toDst.reqCount.toNat = c.rreqRetries.toNat then node.giveUp dst
  else if toDst.flag = .inSearch then node.sendRequest c dst
  else node.giveUp dst

def rreqRateLimitTimerExpire : RoutingProtocol :=
  { node with rreqCount := 0, rreqRateLimitTimer := node.now + 1000000000 }

/-- The search for the destination of a packet starts unless it is under way. -/
def deferredRouteOutput (entry : QueueEntry) : RoutingProtocol :=
  let (queue, accepted) := node.queue.enqueue node.now entry
  let node := { node with queue := queue }
  if accepted.isSome then
    let (routingTable, found) := node.routingTable.lookupRoute node.now entry.header.destination
    let node := { node with routingTable := routingTable }
    if found.all fun rt => rt.flag ≠ .inSearch then node.sendRequest c entry.header.destination
    else node
  else node

/-- A message changes the route to a destination. An answer also stops the search and lets its
packets go. -/
def learnRoute (rt : Option RoutingTableEntry) (answer : Bool) : RoutingProtocol :=
  let rows := remove node.routingTable.rows dst
  have nodup := keys_remove_nodup node.routingTable.nodup dst
  match rt with
  | none => { node with routingTable := ⟨rows, nodup⟩ }
  | some rt =>
    let node := { node with
      routingTable := ⟨(dst, rt) :: rows, List.nodup_cons.mpr ⟨not_mem_keys_remove _ _, nodup⟩⟩ }
    if answer then
      { node with addressReqTimer := remove node.addressReqTimer dst }.sendPackets dst
        (c.getRoute rt)
    else node

/-! ## The clock -/

section Now
variable {c : Attributes} {node : RoutingProtocol} {dst : Ipv4Address}

@[simp] theorem now_sendRequest : (node.sendRequest c dst).now = node.now := by
  rw [sendRequest]
  split <;> rfl

@[simp] theorem now_giveUp : (node.giveUp dst).now = node.now := rfl

@[simp] theorem now_sendPackets (route : Ipv4Route) :
    (node.sendPackets dst route).now = node.now := by
  rw [sendPackets]
  split <;> rfl

@[simp] theorem now_routeRequestTimerExpire :
    (node.routeRequestTimerExpire c dst).now = node.now := by
  simp only [routeRequestTimerExpire]
  split_ifs <;> simp

@[simp] theorem now_deferredRouteOutput (entry : QueueEntry) :
    (node.deferredRouteOutput c entry).now = node.now := by
  simp only [deferredRouteOutput]
  split_ifs <;> simp

@[simp] theorem now_learnRoute (rt : Option RoutingTableEntry) (answer : Bool) :
    (node.learnRoute c dst rt answer).now = node.now := by
  cases rt with
  | none => rfl
  | some rt =>
    simp only [learnRoute]
    split_ifs <;> simp

end Now

end RoutingProtocol

inductive Event where
  | deferredRouteOutput (entry : QueueEntry)
  | rreqRateLimitTimerExpire
  | routeRequestTimerExpire (dst : Ipv4Address)
  | sendRequest (dst : Ipv4Address)
  | learnRoute (dst : Ipv4Address) (rt : Option RoutingTableEntry) (answer : Bool)
  deriving DecidableEq, Repr

/-- The destination that an event is about. -/
def Event.destination : Event → Option Ipv4Address
  | .deferredRouteOutput entry => some entry.header.destination
  | .rreqRateLimitTimerExpire => none
  | .routeRequestTimerExpire dst => some dst
  | .sendRequest dst => some dst
  | .learnRoute dst _ _ => some dst

namespace RoutingProtocol
variable (c : Attributes) (node : RoutingProtocol)

def handle : Event → Option RoutingProtocol
  | .deferredRouteOutput entry => some (node.deferredRouteOutput c entry)
  | .rreqRateLimitTimerExpire =>
    if node.rreqRateLimitTimer = node.now then some node.rreqRateLimitTimerExpire else none
  | .routeRequestTimerExpire dst =>
    if find node.addressReqTimer dst = some node.now then
      some ({ node with addressReqTimer := remove node.addressReqTimer dst }.routeRequestTimerExpire
        c dst)
    else none
  | .sendRequest dst =>
    if (node.now, dst) ∈ node.postponed then
      some ({ node with postponed := node.postponed.erase (node.now, dst) }.sendRequest c dst)
    else none
  | .learnRoute dst rt answer => some (node.learnRoute c dst rt answer)

/-- Time passes up to the event, and no timer is passed over. -/
def step (node : RoutingProtocol) (label : Time × Event) : Option RoutingProtocol :=
  if node.now ≤ label.1 ∧ label.1 ≤ node.rreqRateLimitTimer ∧
      (∀ timer ∈ node.addressReqTimer, label.1 ≤ timer.2) ∧
      (∀ request ∈ node.postponed, label.1 ≤ request.1) then
    { node with now := label.1 }.handle c label.2
  else none

variable {c} {node}

theorem now_handle {node' : RoutingProtocol} {event : Event}
    (h : node.handle c event = some node') :
    node'.now = node.now := by
  cases event with
  | deferredRouteOutput entry =>
    obtain rfl := Option.some.inj h
    simp
  | rreqRateLimitTimerExpire =>
    obtain ⟨-, h⟩ := Option.ite_none_right_eq_some.mp h
    obtain rfl := Option.some.inj h
    rfl
  | routeRequestTimerExpire dst =>
    obtain ⟨-, h⟩ := Option.ite_none_right_eq_some.mp h
    obtain rfl := Option.some.inj h
    simp
  | sendRequest dst =>
    obtain ⟨-, h⟩ := Option.ite_none_right_eq_some.mp h
    obtain rfl := Option.some.inj h
    simp
  | learnRoute dst rt answer =>
    obtain rfl := Option.some.inj h
    simp

end RoutingProtocol

end Discovery

end Ns3Noc.Aodv
