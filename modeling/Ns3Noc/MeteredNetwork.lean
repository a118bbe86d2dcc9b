import Mathlib
import Ns3Noc.NocNetwork

/-!
# Networks with power meters

The flit path with every division that its functions make. A call either returns, or it stops at a
division by zero or at an assertion. Times are picoseconds; `GlobalClock` may be any time, also zero,
negative or shorter than a picosecond.
-/
namespace Ns3Noc

/-- Why a call does not return. -/
inductive Stop where
  | divisionByZero
  | assertion
  deriving DecidableEq

/-- A division by `q`. -/
def divide (q : ℚ) : Except Stop Unit := if q = 0 then .error .divisionByZero else .ok ()

/-- What an assertion needs. -/
def require {α : Type} : Option α → Except Stop α
  | none => .error .assertion
  | some a => .ok a

/-- The types of routers with their numbers of input ports -/
inductive NocRouterType where
  | fourWay
  | irvine
  deriving DecidableEq

def NocRouterType.numberOfInputPorts : NocRouterType → ℕ
  | fourWay => 5
  | irvine => 8

/-- The attributes of the registry and of the channels; only `GlobalClock` is unchecked. -/
structure FlitClock (γ : Type) where
  globalClock : ℚ
  dataPacketSpeedup : ℕ
  dataRate : γ → ℕ
  one_le_dataPacketSpeedup : 1 ≤ dataPacketSpeedup

/-- `Time::GetPicoSeconds`, which cuts off what is less than a picosecond. -/
def getPicoSeconds (time : ℚ) : ℤ := if 0 ≤ time then ⌊time⌋ else -⌊-time⌋

/-- The counters of a router or a channel; of the flits of the last clock only the number. -/
structure PowerMeter where
  powerCounter : ℕ := 0
  lastClock : ℕ := 0
  flitsFromLastClock : ℕ := 0
  arrivedFlits : ℕ := 0
  deriving DecidableEq

/-- A flit that a router handled, the clock number, and the device it was received by, if it was not
injected. -/
structure HandledFlit (δ : Type) where
  node : ℕ
  clock : ℕ
  origin : Option δ
  deriving DecidableEq

structure MeteredNetwork (δ γ σ : Type) where
  network : NetworkState δ γ σ
  now : ℕ := 0
  routers : ℕ → PowerMeter := fun _ => {}
  channels : γ → PowerMeter := fun _ => {}
  handled : List (HandledFlit δ) := []

namespace FlitClock

variable {γ : Type} (clock : FlitClock γ)

/-- `Simulator::Now ().GetPicoSeconds () / globalClock.GetPicoSeconds () + 1`, as `uint64_t` -/
def clockNumber (now : ℕ) : Except Stop ℕ := do
  divide (getPicoSeconds clock.globalClock)
  return (((now : ℤ).tdiv (getPicoSeconds clock.globalClock) + 1) % 2 ^ 64).toNat

/-- One measurement: the frequency, the load and the assertion on the load -/
def measureFlit (ports : ℕ) (m : PowerMeter) : Except Stop Unit := do
  divide clock.globalClock
  divide ports
  if m.arrivedFlits ≤ ports then return () else .error .assertion

def measureFlits (ports : ℕ) (m : PowerMeter) : ℕ → Except Stop Unit
  | 0 => return ()
  | n + 1 => do
    clock.measureFlit ports m
    measureFlits ports m n

/-- The accounting of a flit with the clock number it is accounted to. A flit takes `perFlit`
measurements. -/
def accountFlit (ports perFlit now : ℕ) (m : PowerMeter) : Except Stop (ℕ × PowerMeter) := do
  let clockNumber ← clock.clockNumber now
  if m.lastClock < clockNumber then
    clock.measureFlits ports m (perFlit * m.flitsFromLastClock)
    return (clockNumber, ⟨(m.powerCounter + 1) % 2 ^ 64, clockNumber, 1, 1⟩)
  else
    return (clockNumber, ⟨(m.powerCounter + 1) % 2 ^ 64, m.lastClock, m.flitsFromLastClock + 1,
      (m.arrivedFlits + 1) % 2 ^ 64⟩)

/-- A statistics query: the measurement for the last clock and the average over `m_powerCounter` -/
def query (ports perFlit now : ℕ) (m : PowerMeter) : Except Stop PowerMeter := do
  let clockNumber ← clock.clockNumber now
  clock.measureFlits ports m (perFlit * m.flitsFromLastClock)
  if 0 < m.powerCounter then divide m.powerCounter
  return ⟨m.powerCounter, clockNumber, 0, 0⟩

def speedup (packet : NocPacket) : ℕ :=
  if packet.packetType = .head then clock.dataPacketSpeedup else 1

end FlitClock

/-- What the simulation does: a flit is injected, a device processes its in-queue, a transmission
ends, the statistics of a router or a channel are asked for, or time passes. -/
inductive MeteredStep (δ γ : Type) where
  | injectPacket (d : δ) (new : NewPacket) (uid destination : ℕ) (route : RouteReply δ)
  | processBufferedPackets (d : δ)
  | transmitEnd (n : ℕ) (route : RouteReply δ)
  | routerPower (node : ℕ)
  | channelPower (c : γ)
  | elapse (time : ℕ)

namespace NocNetwork

variable {δ γ σ : Type} [DecidableEq δ] [DecidableEq γ]
variable (net : NocNetwork δ γ) (protocol : SwitchingProtocol σ)

/-- The state in which `SendFrom` calls `ProcessBufferedPackets`, and the packet it passes on. -/
def arrived (s : NetworkState δ γ σ) (d : δ) (packet : NocPacket) (dest : δ) :
    NetworkState δ γ σ × QueuedPacket :=
  let srcDest : SrcDest δ := ⟨some ((s.viaNetDevice d).getD d), some dest, s.viaNetDevice d⟩
  if (s.inQueue d).length < net.maxPackets d then
    (s.enqueue d packet srcDest, ⟨s.allocated, packet⟩)
  else
    ({ s with
      allocated := s.allocated + 1
      trace := s.trace ++ [.dropped d packet] }, ⟨s.allocated, packet⟩)

theorem sendFrom_eq (s : NetworkState δ γ σ) (d : δ) (packet : NocPacket) (dest : δ) :
    net.sendFrom protocol s d packet dest =
      net.processBufferedPackets protocol (net.arrived s d packet dest).1 d
        (some (net.arrived s d packet dest).2) := by
  rw [sendFrom, arrived]
  split <;> rfl

/-- The state in which `NocNode::Send` calls the device, and the routed packet. -/
def routed (s : NetworkState δ γ σ) (source : δ) (packet : NocPacket) (route : RouteReply δ) :
    NetworkState δ γ σ × NocPacket :=
  ({ s with viaNetDevice := Function.update s.viaNetDevice source (some route.sourceDevice) },
    if packet.packetType = .head then { packet with header := route.header } else packet)

theorem nodeSend_eq (s : NetworkState δ γ σ) (source : δ) (packet : NocPacket) (destination : ℕ)
    (route : RouteReply δ) :
    net.nodeSend protocol s source packet destination route =
      if net.node source = destination then none
      else net.sendFrom protocol (routed s source packet route).1 source
        (routed s source packet route).2 route.destinationDevice := rfl

end NocNetwork

namespace MeteredNetwork

variable {δ γ σ : Type} [DecidableEq δ] [DecidableEq γ]
variable (clock : FlitClock γ) (net : NocNetwork δ γ) (protocol : SwitchingProtocol σ)
  (router : ℕ → NocRouterType) (s : MeteredNetwork δ γ σ)

/-- The accounting of `NocRouter::ManageFlit`. -/
def manageFlit (node : ℕ) (origin : Option δ) : Except Stop (MeteredNetwork δ γ σ) := do
  let (clockNumber, m) ←
    clock.accountFlit (router node).numberOfInputPorts 1 s.now (s.routers node)
  return { s with
    routers := Function.update s.routers node m
    handled := s.handled ++ [⟨node, clockNumber, origin⟩] }

/-- The divisions of `ProcessBufferedPackets`: of `NocChannel::Send`, if the flit can be sent, by the
data rate and the speedup, and then for the time of the next run, in an asynchronous network by the
data rate, else by the speedup and the clock. -/
def bufferDivisions (t : NetworkState δ γ σ) (d : δ) (packet : Option QueuedPacket) :
    Except Stop Unit :=
  match t.inQueue d with
  | [] => return ()
  | front :: _ => do
    let srcDest := (t.pktSrcDestMap d front.ptr).getD {}
    let sender := srcDest.viaNetDevice.getD d
    let c ← require (net.channel sender)
    let (canDoRouting, t) ← require (net.flowControl protocol t d c srcDest.viaNetDevice packet)
    if canDoRouting ∧ (net.transmitStart t d front.packet c (net.deviceId sender)).1 then
      divide (clock.dataRate c)
      divide (clock.speedup front.packet)
    if clock.globalClock = 0 then divide (clock.dataRate c)
    else
      divide (clock.speedup front.packet)
      divide clock.globalClock

/-- `NocNode::Send` up to the network: the router handles the flit, and the device sends it. -/
def nodeSend (t : NetworkState δ γ σ) (source : δ) (packet : NocPacket) (destination : ℕ)
    (route : RouteReply δ) (origin : Option δ) : Except Stop (MeteredNetwork δ γ σ) :=
  if net.node source = destination then .error .assertion
  else do
    let s ← s.manageFlit clock router (net.node source) origin
    let (t, packet) := NocNetwork.routed t source packet route
    let (t, q) := net.arrived t source packet route.destinationDevice
    bufferDivisions clock net protocol t source (some q)
    return s

def injectPacket (d : δ) (new : NewPacket) (uid destination : ℕ) (route : RouteReply δ) :
    Except Stop (MeteredNetwork δ γ σ) :=
  if net.channel d = none ∧ uid ∉ s.network.injected ∧ uid < 2 ^ 32 - 1 then do
    let t ← s.nodeSend clock net protocol router (s.network.log (.injected d new uid)) d
      (new.build uid) destination route none
    let network ← require (net.injectPacket protocol s.network d new uid destination route)
    return { t with network }
  else .error .assertion

/-- `NocNetDevice::Receive` -/
def receive (t : NetworkState δ γ σ) (d : δ) (packet : NocPacket) (dest : δ)
    (route : RouteReply δ) : Except Stop (MeteredNetwork δ γ σ) :=
  if dest = d then .ok s
  else s.nodeSend clock net protocol router t d packet (net.node dest) route (some d)

/-- `TransmitEnd`: the receiving node sends the flit on unless it has arrived, and the channel
accounts for it. Each flit takes two measurements there, one for each kind of power. -/
def transmitEnd (n : ℕ) (route : RouteReply δ) : Except Stop (MeteredNetwork δ γ σ) := do
  let e ← require s.network.pending[n]?
  let (t, packet, _) ← require
    (net.dequeueTransmitted { s.network with pending := s.network.pending.eraseIdx n } e)
  let dest ← require e.destination
  let r ← s.receive clock net protocol router t e.destNocNetDevice packet dest route
  let network ← require (net.transmitEnd protocol s.network n route)
  let (_, m) ← clock.accountFlit 2 2 s.now (s.channels e.channel)
  return { r with network, channels := Function.update s.channels e.channel m }

/-- `GetDynamicPower`, `GetLeakagePower` and `GetTotalPower` of a router -/
def routerPower (node : ℕ) : Except Stop (MeteredNetwork δ γ σ) := do
  let m ← clock.query (router node).numberOfInputPorts 1 s.now (s.routers node)
  return { s with routers := Function.update s.routers node m }

/-- The same queries of a channel -/
def channelPower (c : γ) : Except Stop (MeteredNetwork δ γ σ) := do
  let m ← clock.query 2 2 s.now (s.channels c)
  return { s with channels := Function.update s.channels c m }

def act : MeteredStep δ γ → Except Stop (MeteredNetwork δ γ σ)
  | .injectPacket d new uid destination route =>
    s.injectPacket clock net protocol router d new uid destination route
  | .processBufferedPackets d => do
    bufferDivisions clock net protocol s.network d none
    let network ← require (net.processBufferedPackets protocol s.network d none)
    return { s with network }
  | .transmitEnd n route => s.transmitEnd clock net protocol router n route
  | .routerPower node => s.routerPower clock router node
  | .channelPower c => s.channelPower clock c
  | .elapse time => if s.now + time < 2 ^ 63 then return { s with now := s.now + time }
    else .error .assertion

/-- The step of a run, which goes on as long as the calls return. -/
def step (s : MeteredNetwork δ γ σ) (l : MeteredStep δ γ) : Option (MeteredNetwork δ γ σ) :=
  (s.act clock net protocol router l).toOption

/-- A network with nothing injected yet -/
def start (switching : ℕ → σ) : MeteredNetwork δ γ σ := { network := { switching } }

end MeteredNetwork

/-- The devices of a mesh of two nodes with four-way routers -/
inductive PairDevice where
  | internalInput (node : Fin 2)
  | internalOutput (node : Fin 2)
  | link (node : Fin 2)
  deriving DecidableEq, Fintype

namespace PairDevice

def node : PairDevice → Fin 2
  | internalInput n | internalOutput n | link n => n

def channel : PairDevice → Option Unit
  | link _ => some ()
  | _ => none

def maxPackets : PairDevice → ℕ
  | link _ => 100
  | _ => 2 ^ 32 - 1

theorem channel_eq_some (d : PairDevice) (c : Unit) : d.channel = some c ↔ link d.node = d := by
  cases d with
  | internalInput n => exact ⟨nofun, nofun⟩
  | internalOutput n => exact ⟨nofun, nofun⟩
  | link n => exact ⟨fun _ => rfl, fun _ => rfl⟩

theorem maxPackets_internal (d : PairDevice) (h : d.channel = none) :
    d.maxPackets = 2 ^ 32 - 1 := by
  cases d with
  | internalInput n => rfl
  | internalOutput n => rfl
  | link n => cases h

end PairDevice

/-- What `NocMeshND::Install` builds for the single size 2 -/
def pairNetwork : NocNetwork PairDevice Unit where
  node d := d.node
  channel := PairDevice.channel
  deviceId := PairDevice.node
  device _ := PairDevice.link
  fullDuplex _ := true
  maxPackets := PairDevice.maxPackets
  channel_eq_some := PairDevice.channel_eq_some
  deviceId_device _ _ := rfl
  maxPackets_internal := PairDevice.maxPackets_internal

/-- The registry and the channels as they are by default, but for the clock. -/
def defaultClock (globalClock : ℚ) : FlitClock Unit where
  globalClock := globalClock
  dataPacketSpeedup := 1
  dataRate _ := 0xffffffff
  one_le_dataPacketSpeedup := le_rfl

end Ns3Noc
