import Ns3Noc.KeyedTables
import Mathlib.Data.Int.Order.Basic

/-!
# ARP cache

`ArpCache` with its entries and its timer, and `ArpL3Protocol::Lookup` and `Receive` on it. A
function fails where the code stops on an assertion or a fatal error. Times are in nanoseconds.
-/
namespace Ns3Noc.Arp

open KeyedTables

abbrev Ipv4Address : Type := BitVec 32

/-- A hardware address. -/
abbrev Address : Type := List UInt8

/-- The attributes of a cache: three timeouts, the requests that are sent again and the packets
that wait for one reply. -/
structure Attributes where
  aliveTimeout : ℤ
  deadTimeout : ℤ
  waitReplyTimeout : ℤ
  maxRetries : ℕ
  pendingQueueSize : ℕ
  alive_pos : 0 < aliveTimeout
  dead_pos : 0 < deadTimeout
  waitReply_pos : 0 < waitReplyTimeout

inductive EntryState where
  | alive
  | waitReply
  | dead
  deriving DecidableEq, Repr

/-- `ArpCache::Entry` -/
structure Entry (Packet : Type) where
  state : EntryState := .alive
  lastSeen : ℤ := 0
  macAddress : Address := []
  ipv4Address : Ipv4Address
  pending : List Packet := []
  retries : ℕ := 0

variable {Packet : Type}

namespace Entry

def isDead (entry : Entry Packet) : Bool := entry.state = .dead
def isAlive (entry : Entry Packet) : Bool := entry.state = .alive
def isWaitReply (entry : Entry Packet) : Bool := entry.state = .waitReply

def updateSeen (entry : Entry Packet) (now : ℤ) : Entry Packet := { entry with lastSeen := now }

def clearRetries (entry : Entry Packet) : Entry Packet := { entry with retries := 0 }

def incrementRetries (entry : Entry Packet) (now : ℤ) : Entry Packet :=
  { entry with retries := entry.retries + 1 }.updateSeen now

def markDead (entry : Entry Packet) (now : ℤ) : Entry Packet :=
  { entry with state := .dead }.clearRetries.updateSeen now

/-- Asserts that the entry waits for a reply. -/
def markAlive (entry : Entry Packet) (now : ℤ) (macAddress : Address) : Option (Entry Packet) :=
  if entry.state = .waitReply then
    some ({ entry with macAddress, state := .alive }.clearRetries.updateSeen now)
  else none

/-- The packet is queued if there is room. Asserts that the entry waits for a reply. -/
def updateWaitReply (entry : Entry Packet) (attributes : Attributes) (waiting : Packet) :
    Option (Entry Packet × Bool) :=
  if entry.state = .waitReply then
    if attributes.pendingQueueSize ≤ entry.pending.length then some (entry, false)
    else some ({ entry with pending := entry.pending ++ [waiting] }, true)
  else none

/-- Asserts that the entry is alive or dead and holds no packet. -/
def markWaitReply (entry : Entry Packet) (now : ℤ) (waiting : Packet) : Option (Entry Packet) :=
  if (entry.state = .alive ∨ entry.state = .dead) ∧ entry.pending = [] then
    some ({ entry with state := .waitReply, pending := entry.pending ++ [waiting] }.updateSeen now)
  else none

/-- Asserts that the entry is alive. -/
def getMacAddress (entry : Entry Packet) : Option Address :=
  if entry.state = .alive then some entry.macAddress else none

def getTimeout (entry : Entry Packet) (attributes : Attributes) : ℤ :=
  match entry.state with
  | .waitReply => attributes.waitReplyTimeout
  | .dead => attributes.deadTimeout
  | .alive => attributes.aliveTimeout

def isExpired (entry : Entry Packet) (attributes : Attributes) (now : ℤ) : Bool :=
  entry.getTimeout attributes < now - entry.lastSeen

/-- What the timer does with one entry: the entry, the address that is asked for again and the
packets that are dropped. -/
def handleWaitReplyTimeout (entry : Entry Packet) (attributes : Attributes) (now : ℤ) :
    Entry Packet × List Ipv4Address × List Packet :=
  if entry.isWaitReply then
    if entry.retries < attributes.maxRetries then
      (entry.incrementRetries now, [entry.ipv4Address], [])
    else ({ (entry.markDead now).clearRetries with pending := [] }, [], entry.pending)
  else (entry, [], [])

end Entry

/-- The entries by address, and when the timer runs out if it is running. -/
structure ArpCache (Packet : Type) where
  arpCache : List (Ipv4Address × Entry Packet) := []
  waitReplyTimer : Option ℤ := none

namespace ArpCache

def startWaitReplyTimer (cache : ArpCache Packet) (attributes : Attributes) (now : ℤ) :
    ArpCache Packet :=
  if cache.waitReplyTimer.isSome then cache
  else { cache with waitReplyTimer := some (now + attributes.waitReplyTimeout) }

/-- The entries that are asked for again restart the timer. -/
def handleWaitReplyTimeout (cache : ArpCache Packet) (attributes : Attributes) (now : ℤ) :
    ArpCache Packet × List Ipv4Address × List Packet :=
  let handled := cache.arpCache.map fun p => (p.1, p.2.handleWaitReplyTimeout attributes now)
  let requests := handled.flatMap fun p => p.2.2.1
  ({ arpCache := handled.map fun p => (p.1, p.2.1)
     waitReplyTimer :=
       if requests = [] then none else some (now + attributes.waitReplyTimeout) },
    requests, handled.flatMap fun p => p.2.2.2)

def flush (_ : ArpCache Packet) : ArpCache Packet := {}

def lookup (cache : ArpCache Packet) (destination : Ipv4Address) : Option (Entry Packet) :=
  find cache.arpCache destination

/-- Asserts that the address has no entry. -/
def add (cache : ArpCache Packet) (destination : Ipv4Address) :
    Option (ArpCache Packet × Entry Packet) :=
  match cache.lookup destination with
  | some _ => none
  | none =>
    let entry : Entry Packet := { ipv4Address := destination }
    some ({ cache with arpCache := (destination, entry) :: cache.arpCache }, entry)

def putEntry (cache : ArpCache Packet) (entry : Entry Packet) : ArpCache Packet :=
  { cache with arpCache := put cache.arpCache entry.ipv4Address entry }

end ArpCache

/-! ## `ArpL3Protocol` -/

/-- What `Lookup` does with the packet: a hardware address at once, a place in the queue, or a
drop. -/
inductive Answer where
  | resolved (hardwareDestination : Address)
  | queued
  | dropped
  deriving DecidableEq, Repr

/-- `entry->MarkWaitReply (packet)` for an entry of the cache. -/
def markWaitReply (cache : ArpCache Packet) (attributes : Attributes) (now : ℤ)
    (entry : Entry Packet) (packet : Packet) : Option (ArpCache Packet) :=
  (entry.markWaitReply now packet).map fun entry =>
    (cache.putEntry entry).startWaitReplyTimer attributes now

/-- `ArpL3Protocol::Lookup`, with the addresses that are asked for. -/
def lookup (cache : ArpCache Packet) (attributes : Attributes) (now : ℤ) (packet : Packet)
    (destination : Ipv4Address) : Option (ArpCache Packet × Answer × List Ipv4Address) :=
  match cache.lookup destination with
  | some entry =>
    if entry.isExpired attributes now then
      if entry.isWaitReply then none
      else (markWaitReply cache attributes now entry packet).map (·, .queued, [destination])
    else
      match entry.state with
      | .dead => some (cache, .dropped, [])
      | .alive => entry.getMacAddress.map fun mac => (cache, .resolved mac, [])
      | .waitReply =>
        (entry.updateWaitReply attributes packet).map fun (entry, room) =>
          (cache.putEntry entry, if room then .queued else .dropped, [])
  | none =>
    (cache.add destination).bind fun (cache, entry) =>
      (markWaitReply cache attributes now entry packet).map (·, .queued, [destination])

inductive ArpType where
  | request
  | reply
  | other
  deriving DecidableEq, Repr

structure ArpHeader where
  type : ArpType
  sourceHardwareAddress : Address
  destinationHardwareAddress : Address
  sourceIpv4Address : Ipv4Address
  destinationIpv4Address : Ipv4Address
  deriving DecidableEq, Repr

/-- The loop over the waiting packets of an entry that has become alive. The interface looks each
of them up again and sends those that are resolved. -/
def sendPending (attributes : Attributes) (now : ℤ) (source : Ipv4Address) :
    ℕ → ArpCache Packet → Option (ArpCache Packet × List Packet)
  | 0, _ => none
  | fuel + 1, cache =>
    (cache.lookup source).bind fun entry =>
      match entry.pending with
      | [] => some (cache, [])
      | packet :: pending =>
        (lookup (cache.putEntry { entry with pending }) attributes now packet source).bind
          fun (cache, answer, _) =>
            (sendPending attributes now source fuel cache).map fun (cache, sent) =>
              match answer with
              | .resolved _ => (cache, packet :: sent)
              | _ => (cache, sent)

/-- What is done with a reply for one of the interface's addresses. -/
def handleReply (cache : ArpCache Packet) (attributes : Attributes) (now : ℤ) (arp : ArpHeader) :
    Option (ArpCache Packet × List Packet) :=
  match cache.lookup arp.sourceIpv4Address with
  | none => some (cache, [])
  | some entry =>
    if entry.isWaitReply then
      (entry.markAlive now arp.sourceHardwareAddress).bind fun entry =>
        sendPending attributes now arp.sourceIpv4Address (entry.pending.length + 1)
          (cache.putEntry entry)
    else some (cache, [])

/-- `ArpL3Protocol::Receive` over the addresses of the interface. A request is answered without a
change of the cache. -/
def receive (cache : ArpCache Packet) (attributes : Attributes) (now : ℤ) (arp : ArpHeader)
    (device : Address) : List Ipv4Address → Option (ArpCache Packet × List Packet)
  | [] => some (cache, [])
  | address :: addresses =>
    if arp.type = .request ∧ arp.destinationIpv4Address = address then some (cache, [])
    else if arp.type = .reply ∧ arp.destinationIpv4Address = address ∧
        arp.destinationHardwareAddress = device then
      handleReply cache attributes now arp
    else receive cache attributes now arp device addresses

end Ns3Noc.Arp
