import Ns3Noc.FlameProtocol
import Ns3Noc.PartialRuns

/-!
# A mesh of FLAME nodes

Copies of data frames that are delivered in any order, duplicated or lost. Each frame carries what the
code does not keep: how many frames its source had sent before it, and how often it has been
forwarded. A run stops where a step meets a fatal error or a failed assertion.
-/
namespace Ns3Noc.Flame

open Wifi (Mac48Address)
open PartialRuns

/-- The mesh points, by their addresses -/
structure Mesh where
  nodes : Finset Mac48Address
  device : Mac48Address → Device
  isGroup_eq_false : ∀ n ∈ nodes, n.isGroup = false

structure Sighting where
  index : ℕ
  hops : ℕ
  deriving DecidableEq, Repr

/-- A copy of a frame on the air, with its four addresses -/
structure Frame where
  packet : Packet
  addr1 : Mac48Address
  addr2 : Mac48Address
  destination : Mac48Address
  source : Mac48Address
  protocol : UInt16
  sighting : Sighting
  deriving DecidableEq, Repr

/-- An event at a node, with the frame that it is about -/
structure Entry where
  node : Mac48Address
  event : Event
  sighting : Sighting
  deriving DecidableEq, Repr

/-! ## The interfaces -/

namespace Device

variable (device : Device)

/-- The interfaces that `MeshPointDevice::DoSend` sends on -/
def outInterfaces (outIface : ℕ) : Except Fatal (List (ℕ × Mac48Address)) :=
  if outIface = interfaceAny then .ok device.interfaces
  else
    match device.interfaces.find? (·.1 = outIface) with
    | none => .error .interfaceNotFound
    | some interface => .ok [interface]

/-- `MeshPointDevice::DoSend`, with `UpdateOutcomingFrame` for each copy -/
def transmit (entry : Entry) : Except Fatal (List Frame) :=
  match entry.event with
  | .doSend packet src dst protocol outIface => do
    let interfaces ← device.outInterfaces outIface
    match packet.tag with
    | none => .error .tagMissing
    | some tag =>
      return interfaces.map fun interface =>
        ⟨{ packet with tag := none }, tag.receiver, interface.2, dst, src, protocol, entry.sighting⟩
  | _ => .ok []

def transmitAll : List Entry → Except Fatal (List Frame)
  | [] => .ok []
  | entry :: entries => do
    let frames ← device.transmit entry
    let rest ← transmitAll entries
    return frames ++ rest

end Device

/-- `FlameProtocolMac::Receive` -/
def Frame.receive (frame : Frame) : Except Fatal Packet :=
  if frame.packet.tag.isSome then .error .tagReceived
  else .ok { frame.packet with tag := some ⟨frame.addr1, frame.addr2⟩ }

/-! ## The network -/

/-- `sent` counts the frames of a node, `log` is what has happened. -/
structure Network where
  now : ℕ
  node : Mac48Address → FlameProtocol
  inFlight : List Frame
  sent : Mac48Address → ℕ
  log : List Entry

def Network.create : Network := ⟨0, fun _ => .create, [], fun _ => 0, []⟩

inductive Label where
  | advance (delay : ℕ)
  | send (n : Mac48Address) (sending : Sending)
  | deliver (i : ℕ) (n : Mac48Address) (incomingPort : ℕ) (replies : List Sending)
  | duplicate (i : ℕ)
  | lose (i : ℕ)
  deriving DecidableEq, Repr

/-- The frames of the node itself are numbered on from `sent`; any other send forwards the frame that
the node has received. -/
def entries (n : Mac48Address) (origin : Sighting) : ℕ → List Event → List Entry
  | _, [] => []
  | sent, event :: events =>
    match event with
    | .doSend _ src _ _ _ =>
      if src = n then ⟨n, event, ⟨sent, 0⟩⟩ :: entries n origin (sent + 1) events
      else ⟨n, event, ⟨origin.index, origin.hops + 1⟩⟩ :: entries n origin sent events
    | _ => ⟨n, event, origin⟩ :: entries n origin sent events

def Event.isFrom (n : Mac48Address) : Event → Bool
  | .doSend _ src _ _ _ => src = n
  | _ => false

namespace Mesh

variable (mesh : Mesh)

/-- The events of a node take effect. -/
def react (net : Network) (n : Mac48Address) (origin : Sighting) (s : FlameProtocol)
    (events : List Event) : Except Fatal Network := do
  let log := entries n origin (net.sent n) events
  let frames ← (mesh.device n).transmitAll log
  return { net with
    node := Function.update net.node n s
    inFlight := net.inFlight ++ frames
    sent := Function.update net.sent n (net.sent n + events.countP (·.isFrom n))
    log := net.log ++ log }

def deliver (net : Network) (frame : Frame) (n : Mac48Address) (incomingPort : ℕ)
    (replies : List Sending) : Except Fatal Network := do
  let packet ← frame.receive
  let (s, events) ← (net.node n).receiveFromDevice (mesh.device n) n net.now incomingPort packet
    frame.protocol frame.source frame.destination replies
  mesh.react net n frame.sighting s events

def step (net : Network) : Label → Option Network
  | .advance delay => some { net with now := net.now + delay }
  | .send n sending => Except.toOption do
    let (_, s, events) ← (net.node n).send (mesh.device n) n net.now sending
    mesh.react net n ⟨0, 0⟩ s events
  | .deliver i n incomingPort replies =>
    net.inFlight[i]?.bind fun frame =>
      (mesh.deliver { net with inFlight := net.inFlight.eraseIdx i } frame n incomingPort
        replies).toOption
  | .duplicate i =>
    net.inFlight[i]?.map fun frame => { net with inFlight := net.inFlight ++ [frame] }
  | .lose i => some { net with inFlight := net.inFlight.eraseIdx i }

/-- The step is one of mesh points, on an interface that there is and with a copy that there is. -/
def Legal (net : Network) : Label → Prop
  | .advance _ => True
  | .send n _ => n ∈ mesh.nodes
  | .deliver i n incomingPort _ =>
    i < net.inFlight.length ∧ n ∈ mesh.nodes ∧
      incomingPort ∈ (mesh.device n).interfaces.map Prod.fst
  | .duplicate i => i < net.inFlight.length
  | .lose i => i < net.inFlight.length

instance decidableLegal (net : Network) (l : Label) : Decidable (mesh.Legal net l) :=
  match l with
  | .advance _ => .isTrue True.intro
  | .send n _ => inferInstanceAs (Decidable (n ∈ mesh.nodes))
  | .deliver i n incomingPort _ =>
    inferInstanceAs (Decidable (i < net.inFlight.length ∧ n ∈ mesh.nodes ∧
      incomingPort ∈ (mesh.device n).interfaces.map Prod.fst))
  | .duplicate i => inferInstanceAs (Decidable (i < net.inFlight.length))
  | .lose i => inferInstanceAs (Decidable (i < net.inFlight.length))

end Mesh

/-! ## What a mesh should do -/

namespace Entry

variable (n source : Mac48Address) (entry : Entry)

def stored : Option Sighting :=
  match entry.event with
  | .addPath destination _ _ _ _ =>
    if entry.node = n ∧ destination = source then some entry.sighting else none
  | _ => none

def passedUp : Option Sighting :=
  match entry.event with
  | .rxCallback _ _ src => if entry.node = n ∧ src = source then some entry.sighting else none
  | _ => none

def forwarded : Option Sighting :=
  match entry.event with
  | .doSend _ src _ _ _ =>
    if entry.node = n ∧ src = source ∧ src ≠ n then some entry.sighting else none
  | _ => none

end Entry

namespace Network

variable (net : Network) (n source : Mac48Address)

/-- The frames of the source whose number the node has stored -/
def stored : List Sighting := net.log.filterMap (Entry.stored n source)

/-- The frames of the source that the node has passed up -/
def passedUp : List Sighting := net.log.filterMap (Entry.passedUp n source)

/-- The frames of the source that the node has sent on, as they are then -/
def forwarded : List Sighting := net.log.filterMap (Entry.forwarded n source)

/-- No watched node has a route entry for the source that has expired. -/
def Unexpired (watch : Finset Mac48Address) : Prop :=
  ∀ n ∈ watch, ∀ route, (net.node n).routes source = some route → net.now ≤ route.whenExpire

/-- The numbers of the source that are in flight differ by at most `width`. -/
def Within (width : ℕ) : Prop :=
  ∀ f ∈ net.inFlight, ∀ g ∈ net.inFlight, f.source = source → g.source = source →
    f.sighting.index ≤ g.sighting.index + width

instance decidableUnexpired (watch : Finset Mac48Address) :
    Decidable (net.Unexpired source watch) :=
  inferInstanceAs (Decidable (∀ n ∈ watch, ∀ route ∈ (net.node n).routes source,
    net.now ≤ route.whenExpire))

instance decidableWithin (width : ℕ) : Decidable (net.Within source width) :=
  inferInstanceAs (Decidable (∀ f ∈ net.inFlight, ∀ g ∈ net.inFlight, f.source = source →
    g.source = source → f.sighting.index ≤ g.sighting.index + width))

end Network

/-- The number that a source gives to one of its frames -/
def seqnoOf (index : ℕ) : UInt16 := UInt16.ofNat (1 + index)

/-- The header of a frame has the number and the hops that the frame has, and no mesh point has sent
it on after too many hops. -/
def Frame.Numbered (mesh : Mesh) (sent : Mac48Address → ℕ) (frame : Frame) : Prop :=
  ∃ hdr, frame.packet.header = some hdr ∧ hdr.seqno = seqnoOf frame.sighting.index ∧
    hdr.cost.toNat = min 255 frame.sighting.hops ∧
    frame.sighting.index < sent frame.source ∧
    (frame.sighting.hops = 0 ∨
      ∃ n ∈ mesh.nodes, frame.sighting.hops ≤ (mesh.device n).maxCost.toNat + 1)

/-- Each frame of the source is handled at most once by the watched nodes, and no frame is accepted
that has been forwarded too often. -/
structure Mesh.HandlesOnce (mesh : Mesh) (source : Mac48Address) (watch : Finset Mac48Address)
    (net : Network) : Prop where
  passedUp_nodup : ∀ n ∈ watch, ((net.passedUp n source).map Sighting.index).Nodup
  forwarded_nodup : ∀ n ∈ watch, ((net.forwarded n source).map Sighting.index).Nodup
  own_frames : net.stored source source = [] ∧ net.passedUp source source = []
  frames_numbered : ∀ f ∈ net.inFlight, f.source = source → f.Numbered mesh net.sent
  seqnum_eq : ∀ n ∈ watch, ((net.node n).routes source).map Route.seqnum =
    (net.stored n source).getLast?.map fun x => seqnoOf x.index
  seqnum_increases : ∀ n ∈ watch, (net.stored n source).IsChain fun x y =>
    x.index < y.index ∧ (seqnoOf x.index - seqnoOf y.index).toInt16 < 0
  hops_le : ∀ n ∈ mesh.nodes, ∀ x ∈ net.stored n source ++ net.passedUp n source,
    x.hops ≤ (mesh.device n).maxCost.toNat
  forwarded_hops_le : ∀ n ∈ mesh.nodes, ∀ x ∈ net.forwarded n source,
    x.hops ≤ (mesh.device n).maxCost.toNat + 1
  flood_le : ∀ index, ∑ n ∈ watch, (net.forwarded n source).countP (·.index = index) ≤ watch.card

end Ns3Noc.Flame
