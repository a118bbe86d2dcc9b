import Ns3Noc.Ipv6Headers
import Ns3Noc.KeyedTables

/-!
# Neighbour discovery cache

`NdiscCache` with its entries and their timers, and `Icmpv6L4Protocol::Lookup`. A timer is running
or not. A function fails where a running timer is scheduled, which is a fatal error, and where the
first packet of an empty queue is read.
-/
namespace Ns3Noc.Ndisc

open Ipv6 KeyedTables

/-- A hardware address. -/
abbrev Address : Type := List UInt8

def isMulticast (address : Ipv6Address) : Bool := address[0] = 0xff

/-- `::` -/
def any : Ipv6Address := Vector.replicate 16 0

def isAny (address : Ipv6Address) : Bool := address = any

/-- The first 64 bits are those of `fe80::`. -/
def isLinkLocal (address : Ipv6Address) : Bool :=
  !isMulticast address && address.toList.take 8 = [0xfe, 0x80, 0, 0, 0, 0, 0, 0]

/-- The interface of a cache: its addresses, and `GetAddressMatchingDestination`. -/
structure Interface where
  addresses : List Ipv6Address
  getAddressMatchingDestination : Ipv6Address → Ipv6Address

def MAX_MULTICAST_SOLICIT : ℕ := 3
def MAX_UNICAST_SOLICIT : ℕ := 3

inductive NdiscState where
  | incomplete
  | reachable
  | stale
  | delay
  | probe
  deriving DecidableEq, Repr

/-- `NdiscCache::Entry`. The state of a new entry is set by whoever adds it. -/
structure Entry (Packet : Type) where
  ipv6Address : Ipv6Address
  state : NdiscState := .incomplete
  waiting : List Packet := []
  router : Bool := false
  reachableTimer : Bool := false
  retransTimer : Bool := false
  probeTimer : Bool := false
  delayTimer : Bool := false
  nsRetransmit : ℕ := 0
  macAddress : Address := []
  deriving DecidableEq

variable {Packet : Type}

/-- `std::list::remove (0)` takes out the null pointers, and no packet is one. -/
def removeNull (waiting : List Packet) : List Packet := waiting

namespace Entry

variable (entry : Entry Packet)

def setRouter (router : Bool) : Entry Packet := { entry with router }

def setMacAddress (macAddress : Address) : Entry Packet := { entry with macAddress }

def addWaitingPacket (unresQlen : ℕ) (p : Packet) : Entry Packet :=
  let waiting :=
    if unresQlen ≤ entry.waiting.length then removeNull entry.waiting else entry.waiting
  { entry with waiting := waiting ++ [p] }

def clearWaitingPacket : Entry Packet := { entry with waiting := [] }

def incNSRetransmit : Entry Packet := { entry with nsRetransmit := entry.nsRetransmit + 1 }

def resetNSRetransmit : Entry Packet := { entry with nsRetransmit := 0 }

def startReachableTimer : Option (Entry Packet) :=
  if entry.reachableTimer then none else some { entry with reachableTimer := true }

def stopReachableTimer : Entry Packet := { entry with reachableTimer := false }

def startProbeTimer : Option (Entry Packet) :=
  if entry.probeTimer then none else some { entry with probeTimer := true }

def stopProbeTimer : Entry Packet := { entry with probeTimer := false }.resetNSRetransmit

def startDelayTimer : Option (Entry Packet) :=
  if entry.delayTimer then none else some { entry with delayTimer := true }

def stopDelayTimer : Entry Packet := { entry with delayTimer := false }.resetNSRetransmit

def startRetransmitTimer : Option (Entry Packet) :=
  if entry.retransTimer then none else some { entry with retransTimer := true }

def stopRetransmitTimer : Entry Packet := { entry with retransTimer := false }.resetNSRetransmit

/-- The packet is queued whatever the length of the queue. -/
def markIncomplete (p : Packet) : Entry Packet :=
  { entry with state := .incomplete, waiting := entry.waiting ++ [p] }

def markReachable : Entry Packet := { entry with state := .reachable }

/-- `MarkReachable (mac)`, whose result is the queue. -/
def markReachableMac (mac : Address) : Entry Packet :=
  { entry with state := .reachable, macAddress := mac }

def markStale : Entry Packet := { entry with state := .stale }

def markStaleMac (mac : Address) : Entry Packet :=
  { entry with state := .stale, macAddress := mac }

def markDelay : Entry Packet := { entry with state := .delay }

def markProbe : Entry Packet := { entry with state := .probe }

def isIncomplete : Bool := entry.state = .incomplete
def isReachable : Bool := entry.state = .reachable
def isStale : Bool := entry.state = .stale
def isDelay : Bool := entry.state = .delay
def isProbe : Bool := entry.state = .probe

end Entry

/-- `m_ndCache` -/
abbrev NdiscCache (Packet : Type) : Type := List (Ipv6Address × Entry Packet)

/-- The entry of its address. -/
def NdiscCache.putEntry (cache : NdiscCache Packet) (entry : Entry Packet) : NdiscCache Packet :=
  put cache entry.ipv6Address entry

/-- A packet that is given to the device, for a destination and a hardware address if it is not
multicast. -/
structure Sent (Packet : Type) where
  packet : Packet
  destination : Ipv6Address
  hardware : Option Address
  deriving DecidableEq

/-! ## The timers -/

/-- `FunctionReachableTimeout` -/
def functionReachableTimeout (cache : NdiscCache Packet) (entry : Entry Packet) :
    NdiscCache Packet :=
  cache.putEntry { entry with reachableTimer := false }.markStale

/-- No address of the interface matches that of the entry any more. -/
def sourceExpired (interface : Interface) (entry : Entry Packet) : Bool :=
  !isLinkLocal entry.ipv6Address && !isAny entry.ipv6Address &&
    isAny (interface.getAddressMatchingDestination entry.ipv6Address)

/-- `FunctionRetransmitTimeout`. The solicitation is multicast and the error goes to the node
itself, with the first packet of the queue. -/
def functionRetransmitTimeout (interface : Interface) (cache : NdiscCache Packet)
    (entry : Entry Packet) : Option (NdiscCache Packet) :=
  let entry := { entry with retransTimer := false }
  if sourceExpired interface entry then some (remove cache entry.ipv6Address)
  else if entry.nsRetransmit < MAX_MULTICAST_SOLICIT then
    entry.incNSRetransmit.startRetransmitTimer.map cache.putEntry
  else entry.waiting.head?.map fun _ => remove cache entry.ipv6Address

/-- `FunctionDelayTimeout`. The solicitation is given to the device. -/
def functionDelayTimeout (interface : Interface) (cache : NdiscCache Packet)
    (entry : Entry Packet) : Option (NdiscCache Packet) :=
  let entry := { entry with delayTimer := false }.markProbe
  if sourceExpired interface entry then some (remove cache entry.ipv6Address)
  else if isAny entry.ipv6Address then some (cache.putEntry entry)
  else entry.resetNSRetransmit.incNSRetransmit.startProbeTimer.map cache.putEntry

/-- `FunctionProbeTimeout` -/
def functionProbeTimeout (interface : Interface) (cache : NdiscCache Packet)
    (entry : Entry Packet) : Option (NdiscCache Packet) :=
  let entry := { entry with probeTimer := false }
  if entry.nsRetransmit < MAX_UNICAST_SOLICIT then
    if sourceExpired interface entry then some (remove cache entry.ipv6Address)
    else if isAny entry.ipv6Address then some (cache.putEntry entry)
    else entry.incNSRetransmit.startProbeTimer.map cache.putEntry
  else some (remove cache entry.ipv6Address)

/-! ## `Lookup` -/

/-- `Icmpv6L4Protocol::Lookup`, with the hardware address if the packet can be sent at once. The
packet of an entry that is removed again is lost. -/
def lookup (interface : Interface) (unresQlen : ℕ) (cache : NdiscCache Packet) (p : Packet)
    (dst : Ipv6Address) : Option (NdiscCache Packet × Option Address) :=
  match find cache dst with
  | some entry =>
    if entry.isReachable || entry.isDelay then some (cache, some entry.macAddress)
    else if entry.isStale then
      entry.startDelayTimer.map fun entry =>
        (cache.putEntry entry.markDelay, some entry.macAddress)
    else some (cache.putEntry (entry.addWaitingPacket unresQlen p), none)
  | none =>
    let entry : Entry Packet := { ipv6Address := dst }
    let entry := (entry.markIncomplete p).setRouter false
    if !isLinkLocal dst && interface.addresses.length = 1 then some (cache, none)
    else entry.startRetransmitTimer.map fun entry => ((dst, entry) :: cache, none)

/-- `Ipv6Interface::Send`. A packet for the node itself is received by it. -/
def interfaceSend (interface : Interface) (unresQlen : ℕ) (cache : NdiscCache Packet) (p : Packet)
    (dest : Ipv6Address) : Option (NdiscCache Packet × List (Sent Packet)) :=
  if dest ∈ interface.addresses then some (cache, [])
  else if isMulticast dest then some (cache, [⟨p, dest, none⟩])
  else
    (lookup interface unresQlen cache p dest).map fun (cache, hardware) =>
      (cache, hardware.toList.map fun mac => ⟨p, dest, some mac⟩)

/-- The loop over the packets of a queue. -/
def sendAll (interface : Interface) (unresQlen : ℕ) (dest : Ipv6Address) :
    List Packet → NdiscCache Packet → Option (NdiscCache Packet × List (Sent Packet))
  | [], cache => some (cache, [])
  | p :: waiting, cache =>
    (interfaceSend interface unresQlen cache p dest).bind fun (cache, sent) =>
      (sendAll interface unresQlen dest waiting cache).map fun (cache, rest) =>
        (cache, sent ++ rest)

end Ns3Noc.Ndisc
