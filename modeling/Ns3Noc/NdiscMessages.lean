import Ns3Noc.NdiscCache

/-!
# Neighbour discovery messages

The handlers of `Icmpv6L4Protocol` for the messages that change the cache, and the events of a
run. A message whose first option is not the link-layer address that its handler asks for has
none.
-/
namespace Ns3Noc.Ndisc

open Ipv6 KeyedTables

variable {Packet : Type}

/-- `ff02::1` -/
def allNodesMulticast : Ipv6Address := ⟨#[0xff, 2, 0, 0, 0, 0, 0, 0, 0, 0, 0, 0, 0, 0, 0, 1], rfl⟩

/-- The packets of the queue are sent, then the queue of the entry is cleared. -/
def sendWaiting (interface : Interface) (unresQlen : ℕ) (cache : NdiscCache Packet)
    (entry : Entry Packet) (dest : Ipv6Address) :
    Option (NdiscCache Packet × List (Sent Packet)) :=
  (sendAll interface unresQlen dest entry.waiting (cache.putEntry entry)).map fun (cache, sent) =>
    (modify cache entry.ipv6Address Entry.clearWaitingPacket, sent)

/-- `ReceiveLLA`, for the first link-layer address of a router advertisement. -/
def receiveLLA (interface : Interface) (unresQlen : ℕ) (cache : NdiscCache Packet)
    (src : Ipv6Address) (lla : Address) : Option (NdiscCache Packet × List (Sent Packet)) :=
  match find cache src with
  | none =>
    let entry : Entry Packet := { ipv6Address := src }
    (((entry.setRouter true).setMacAddress lla).markReachable).startReachableTimer.map fun entry =>
      ((src, entry) :: cache, [])
  | some entry =>
    if entry.isIncomplete then
      (entry.stopRetransmitTimer.markReachableMac lla).stopReachableTimer.startReachableTimer.bind
        fun entry => sendWaiting interface unresQlen cache entry src
    else if entry.macAddress ≠ lla then
      some (cache.putEntry ((entry.setMacAddress lla).markStale.setRouter true), [])
    else if !entry.isReachable then
      let entry := entry.stopProbeTimer.stopDelayTimer.markReachableMac lla
      -- the entry is asked whether it is in PROBE after it has been made REACHABLE
      let waiting := if entry.isProbe then entry.waiting else []
      (sendAll interface unresQlen src waiting (cache.putEntry entry)).bind fun (cache, sent) =>
        entry.stopReachableTimer.startReachableTimer.map fun entry => (cache.putEntry entry, sent)
    else some (cache, [])

/-- What `HandleRS` and `HandleNS` do with the link-layer address of the sender. -/
def sourceLinkLayer (cache : NdiscCache Packet) (src : Ipv6Address) (lla : Address) :
    NdiscCache Packet :=
  match find cache src with
  | none =>
    let entry : Entry Packet := { ipv6Address := src }
    (src, (entry.setRouter false).markStaleMac lla) :: cache
  | some entry =>
    if entry.macAddress ≠ lla then cache.putEntry (entry.markStaleMac lla) else cache

def handleRS (cache : NdiscCache Packet) (src : Ipv6Address) (lla : Option Address) :
    NdiscCache Packet :=
  if isAny src then cache
  else
    match lla with
    | none => cache
    | some lla => sourceLinkLayer cache src lla

/-- `HandleNS`. The reply is the advertisement that is sent back; the probe of the node's own
duplicate address detection is ignored. -/
def handleNS (interface : Interface) (unresQlen : ℕ) (cache : NdiscCache Packet)
    (src target : Ipv6Address) (lla : Option Address) (ownProbe : Bool) (reply : Packet) :
    Option (NdiscCache Packet × List (Sent Packet)) :=
  if !interface.addresses.contains target || ownProbe then some (cache, [])
  else if isAny src then interfaceSend interface unresQlen cache reply allNodesMulticast
  else
    match lla with
    | none => some (cache, [])
    | some lla => interfaceSend interface unresQlen (sourceLinkLayer cache src lla) reply src

/-- What a solicited advertisement does to the state of an entry: the queue is sent from PROBE
only. -/
def confirm (interface : Interface) (unresQlen : ℕ) (cache : NdiscCache Packet)
    (entry : Entry Packet) (lla : Address) (src : Ipv6Address) :
    Option (NdiscCache Packet × List (Sent Packet)) :=
  if entry.isReachable then some (cache.putEntry entry, [])
  else if entry.isProbe then
    sendWaiting interface unresQlen cache (entry.markReachableMac lla) src
  else some (cache.putEntry (entry.markReachableMac lla), [])

structure NAHeader where
  target : Ipv6Address
  flagR : Bool
  flagS : Bool
  flagO : Bool
  deriving DecidableEq

def handleNA (interface : Interface) (unresQlen : ℕ) (cache : NdiscCache Packet)
    (src : Ipv6Address) (naHeader : NAHeader) (lla : Option Address) :
    Option (NdiscCache Packet × List (Sent Packet)) :=
  match find cache naHeader.target, lla with
  | none, _ => some (cache, [])
  | some _, none => some (cache, [])
  | some entry, some lla =>
    if entry.isIncomplete then
      let entry := entry.stopRetransmitTimer
      let setRouter (cache : NdiscCache Packet) : NdiscCache Packet :=
        if naHeader.flagR then modify cache naHeader.target (·.setRouter true) else cache
      if naHeader.flagS then
        (entry.markReachableMac lla).stopReachableTimer.startReachableTimer.bind fun entry =>
          (sendWaiting interface unresQlen cache entry src).map fun (cache, sent) =>
            (setRouter cache, sent)
      else some (setRouter (cache.putEntry (entry.markStaleMac lla)), [])
    else
      let entry := entry.stopProbeTimer.stopDelayTimer
      if !naHeader.flagO && lla ≠ entry.macAddress then
        some (cache.putEntry (if entry.isReachable then entry.markStale else entry), [])
      else
        let entry := entry.setMacAddress lla
        let setRouter (cache : NdiscCache Packet) : NdiscCache Packet :=
          modify cache naHeader.target (·.setRouter naHeader.flagR)
        if naHeader.flagS then
          (confirm interface unresQlen cache entry lla src).bind fun (cache, sent) =>
            ((find cache naHeader.target).bind fun entry =>
              entry.stopReachableTimer.startReachableTimer).map fun entry =>
                (setRouter (cache.putEntry entry), sent)
        else if lla ≠ entry.macAddress then
          some (setRouter (cache.putEntry entry.markStale), [])
        else some (setRouter (cache.putEntry entry), [])

/-- `HandleRedirection`; the routing table is left out. -/
def handleRedirection (cache : NdiscCache Packet) (redirTarget redirDestination : Ipv6Address)
    (lla : Option Address) : NdiscCache Packet :=
  match lla with
  | none => cache
  | some lla =>
    match find cache redirTarget with
    | none =>
      let entry : Entry Packet := { ipv6Address := redirTarget }
      (redirTarget, ((entry.setRouter (redirTarget ≠ redirDestination)).setMacAddress lla).markStale)
        :: cache
    | some entry =>
      if entry.isIncomplete ∨ entry.macAddress ≠ lla then
        if entry.macAddress ≠ lla then cache.putEntry (entry.setMacAddress lla).markStale
        else cache
      else cache

/-! ## Events -/

inductive NdiscEvent (Packet : Type) where
  | lookup (interface : Interface) (p : Packet) (dst : Ipv6Address)
  | rs (src : Ipv6Address) (lla : Option Address)
  | ns (interface : Interface) (src target : Ipv6Address) (lla : Option Address) (ownProbe : Bool)
    (reply : Packet)
  | na (interface : Interface) (src : Ipv6Address) (naHeader : NAHeader) (lla : Option Address)
  | ra (interface : Interface) (src : Ipv6Address) (lla : Option Address)
  | redirect (redirTarget redirDestination : Ipv6Address) (lla : Option Address)
  | reachableTimeout (address : Ipv6Address)
  | retransmitTimeout (interface : Interface) (address : Ipv6Address)
  | delayTimeout (interface : Interface) (address : Ipv6Address)
  | probeTimeout (interface : Interface) (address : Ipv6Address)

/-- The function of a timer of the entry runs; nothing happens where the timer is not running. -/
def runTimer (cache : NdiscCache Packet) (address : Ipv6Address) (timer : Entry Packet → Bool)
    (function : Entry Packet → Option (NdiscCache Packet)) :
    Option (NdiscCache Packet × List (Sent Packet)) :=
  match find cache address with
  | none => some (cache, [])
  | some entry => if timer entry then (function entry).map (·, []) else some (cache, [])

/-- The cache after an event, and what is sent. -/
def step (unresQlen : ℕ) (cache : NdiscCache Packet) :
    NdiscEvent Packet → Option (NdiscCache Packet × List (Sent Packet))
  | .lookup interface p dst =>
    (lookup interface unresQlen cache p dst).map fun (cache, hardware) =>
      (cache, hardware.toList.map fun mac => ⟨p, dst, some mac⟩)
  | .rs src lla => some (handleRS cache src lla, [])
  | .ns interface src target lla ownProbe reply =>
    handleNS interface unresQlen cache src target lla ownProbe reply
  | .na interface src naHeader lla => handleNA interface unresQlen cache src naHeader lla
  | .ra _ _ none => some (cache, [])
  | .ra interface src (some lla) => receiveLLA interface unresQlen cache src lla
  | .redirect redirTarget redirDestination lla =>
    some (handleRedirection cache redirTarget redirDestination lla, [])
  | .reachableTimeout address =>
    runTimer cache address Entry.reachableTimer fun entry => some (functionReachableTimeout cache entry)
  | .retransmitTimeout interface address =>
    runTimer cache address Entry.retransTimer (functionRetransmitTimeout interface cache)
  | .delayTimeout interface address =>
    runTimer cache address Entry.delayTimer (functionDelayTimeout interface cache)
  | .probeTimeout interface address =>
    runTimer cache address Entry.probeTimer (functionProbeTimeout interface cache)

end Ns3Noc.Ndisc
