import Mathlib

/-!
# State of an OLSR node

The tuples of an OLSR node and the searches, insertions and removals of `OlsrState`. The sets are
vectors, so they may hold a tuple twice.
-/
namespace Ns3Noc.Olsr

abbrev Ipv4Address : Type := BitVec 32

/-- Simulation time in nanoseconds. -/
abbrev Time : Type := ℤ

def seconds (n : ℤ) : Time := n * 1000000000

def OLSR_WILL_NEVER : UInt8 := 0
def OLSR_WILL_DEFAULT : UInt8 := 3
def OLSR_WILL_ALWAYS : UInt8 := 7

structure IfaceAssocTuple where
  ifaceAddr : Ipv4Address
  mainAddr : Ipv4Address
  time : Time
  deriving DecidableEq, Repr

structure LinkTuple where
  localIfaceAddr : Ipv4Address
  neighborIfaceAddr : Ipv4Address
  symTime : Time
  asymTime : Time
  time : Time
  deriving DecidableEq, Repr

inductive NeighborStatus where
  | notSym
  | sym
  deriving DecidableEq, Repr

structure NeighborTuple where
  neighborMainAddr : Ipv4Address
  status : NeighborStatus
  willingness : UInt8
  deriving DecidableEq, Repr

structure TwoHopNeighborTuple where
  neighborMainAddr : Ipv4Address
  twoHopNeighborAddr : Ipv4Address
  expirationTime : Time
  deriving DecidableEq, Repr

structure TopologyTuple where
  destAddr : Ipv4Address
  lastAddr : Ipv4Address
  sequenceNumber : UInt16
  expirationTime : Time
  deriving DecidableEq, Repr

abbrev IfaceAssocSet : Type := List IfaceAssocTuple
abbrev LinkSet : Type := List LinkTuple
abbrev NeighborSet : Type := List NeighborTuple
abbrev TwoHopNeighborSet : Type := List TwoHopNeighborTuple
abbrev TopologySet : Type := List TopologyTuple
abbrev MprSet : Type := Finset Ipv4Address

/-- `GetMainAddress`, with `FindIfaceAssocTuple` -/
def getMainAddress (ifaceAssocSet : IfaceAssocSet) (iface_addr : Ipv4Address) : Ipv4Address :=
  match ifaceAssocSet.find? (fun it => it.ifaceAddr = iface_addr) with
  | some tuple => tuple.mainAddr
  | none => iface_addr

@[simp] theorem getMainAddress_nil (iface_addr : Ipv4Address) :
    getMainAddress [] iface_addr = iface_addr := rfl

namespace NeighborSet

def findNeighborTuple (neighborSet : NeighborSet) (mainAddr : Ipv4Address) : Option NeighborTuple :=
  neighborSet.find? (fun it => it.neighborMainAddr = mainAddr)

def findSymNeighborTuple (neighborSet : NeighborSet) (mainAddr : Ipv4Address) :
    Option NeighborTuple :=
  neighborSet.find? (fun it => it.neighborMainAddr = mainAddr ∧ it.status = .sym)

def eraseNeighborTuple (neighborSet : NeighborSet) (mainAddr : Ipv4Address) : NeighborSet :=
  neighborSet.eraseP (fun it => it.neighborMainAddr = mainAddr)

/-- The first tuple with the address of the new one is updated. -/
def insertNeighborTuple : NeighborSet → NeighborTuple → NeighborSet
  | [], tuple => [tuple]
  | it :: rest, tuple =>
    if it.neighborMainAddr = tuple.neighborMainAddr then tuple :: rest
    else it :: insertNeighborTuple rest tuple

/-- A change through the pointer that `FindNeighborTuple` returns. -/
def modifyNeighborTuple (f : NeighborTuple → NeighborTuple) (mainAddr : Ipv4Address) :
    NeighborSet → NeighborSet
  | [] => []
  | it :: rest =>
    if it.neighborMainAddr = mainAddr then f it :: rest
    else it :: modifyNeighborTuple f mainAddr rest

end NeighborSet

namespace LinkSet

def findLinkTuple (linkSet : LinkSet) (ifaceAddr : Ipv4Address) : Option LinkTuple :=
  linkSet.find? (fun it => it.neighborIfaceAddr = ifaceAddr)

/-- `operator ==` of link tuples -/
def same (a b : LinkTuple) : Bool :=
  a.localIfaceAddr = b.localIfaceAddr ∧ a.neighborIfaceAddr = b.neighborIfaceAddr

def eraseLinkTuple (linkSet : LinkSet) (tuple : LinkTuple) : LinkSet :=
  linkSet.eraseP (fun it => same it tuple)

/-- A change through the pointer that `FindLinkTuple` returns. -/
def modifyLinkTuple (f : LinkTuple → LinkTuple) (ifaceAddr : Ipv4Address) : LinkSet → LinkSet
  | [] => []
  | it :: rest =>
    if it.neighborIfaceAddr = ifaceAddr then f it :: rest
    else it :: modifyLinkTuple f ifaceAddr rest

end LinkSet

end Ns3Noc.Olsr
