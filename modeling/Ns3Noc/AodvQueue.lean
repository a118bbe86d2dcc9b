import Ns3Noc.WhileLoops

/-!
# The request queue of AODV

Packets wait in the queue while a route is searched for. A packet that the queue drops is handed to
the error callback of its entry.
-/
namespace Ns3Noc.Aodv
open WhileLoops

abbrev Ipv4Address : Type := BitVec 32

scoped instance lawfulBEqIpv4Address : LawfulBEq Ipv4Address := inferInstance

/-- Simulation time in nanoseconds. -/
abbrev Time : Type := ℤ

/-- A data packet, with the interface in its `DeferredRouteOutputTag` if it has this tag. -/
structure Packet where
  uid : ℕ
  oif : Option ℤ
  deriving DecidableEq, Repr

structure Ipv4Header where
  source : Ipv4Address
  destination : Ipv4Address
  ttl : UInt8
  deriving DecidableEq, Repr

structure QueueEntry where
  packet : Packet
  header : Ipv4Header
  expire : Time
  deriving DecidableEq, Repr

def QueueEntry.isExpired (now : Time) (e : QueueEntry) : Bool := e.expire - now < 0

/-- `IsEqual` -/
def QueueEntry.isTo (dst : Ipv4Address) (en : QueueEntry) : Bool := en.header.destination = dst

/-- The queue, with the entries whose error callback has been called, oldest first. -/
structure RequestQueue where
  maxLen : ℕ
  queueTimeout : Time
  queue : List QueueEntry
  drops : List QueueEntry
  deriving DecidableEq, Repr

namespace RequestQueue
variable (q : RequestQueue) (now : Time)

def purge : RequestQueue :=
  { q with
    queue := q.queue.filter fun e => !e.isExpired now
    drops := q.drops ++ q.queue.filter (QueueEntry.isExpired now) }

/-- The most aged packet is dropped from a full queue. -/
def makeRoom : RequestQueue :=
  if q.queue.length = q.maxLen then
    { q with queue := q.queue.drop 1, drops := q.drops ++ q.queue.take 1 }
  else q

/-- There is an entry with the same packet and destination. -/
def holds (entry : QueueEntry) : Bool :=
  q.queue.any fun i => i.packet.uid = entry.packet.uid ∧
    i.header.destination = entry.header.destination

/-- With the entry as it is queued, if it is accepted. -/
def enqueue (entry : QueueEntry) : RequestQueue × Option QueueEntry :=
  let q := q.purge now
  if q.holds entry then (q, none)
  else
    let entry := { entry with expire := q.queueTimeout + now }
    let q := q.makeRoom
    ({ q with queue := q.queue ++ [entry] }, some entry)

def dropPacketWithDst (dst : Ipv4Address) : RequestQueue :=
  let q := q.purge now
  { q with
    queue := q.queue.filter fun e => !e.isTo dst
    drops := q.drops ++ q.queue.filter (QueueEntry.isTo dst) }

def dequeue (dst : Ipv4Address) : RequestQueue × Option QueueEntry :=
  let q := q.purge now
  match q.queue.find? (QueueEntry.isTo dst) with
  | none => (q, none)
  | some entry => ({ q with queue := q.queue.eraseP (QueueEntry.isTo dst) }, some entry)

end RequestQueue

/-! ## Sending -/

structure Ipv4Route where
  source : Ipv4Address
  gateway : Ipv4Address
  /-- `GetInterfaceForDevice` of the output device -/
  interface : ℤ
  deriving DecidableEq, Repr

/-- A call of the unicast forward callback. -/
structure Forwarded where
  route : Ipv4Route
  packet : Packet
  header : Ipv4Header
  deriving DecidableEq, Repr

/-- The tag of the packet asks for no other interface than that of the route. -/
def Ipv4Route.fits (route : Ipv4Route) (entry : QueueEntry) : Bool :=
  entry.packet.oif.all fun oif => oif = -1 ∨ oif = route.interface

def Ipv4Route.forward (route : Ipv4Route) (entry : QueueEntry) : Forwarded :=
  ⟨route, { entry.packet with oif := none },
    { entry.header with source := route.source, ttl := entry.header.ttl + 1 }⟩

structure Sending where
  queue : RequestQueue
  forwarded : List Forwarded
  deriving DecidableEq, Repr

/-- A turn of the loop of `SendPacketFromQueue`. -/
def sendPacketFromQueue (now : Time) (dst : Ipv4Address) (route : Ipv4Route) (s : Sending) :
    Turn Sending :=
  match s.queue.dequeue now dst with
  | (queue, none) => .ends { s with queue := queue }
  | (queue, some queueEntry) =>
    if route.fits queueEntry then .again ⟨queue, s.forwarded ++ [route.forward queueEntry]⟩
    else .ends { s with queue := queue }

/-! ## What leaves the queue -/

namespace RequestQueue
variable {q q' : RequestQueue} {now : Time} {dst : Ipv4Address}

/-- Some entries are dropped, and the others stay as they are. -/
structure Drops (q q' : RequestQueue) : Prop where
  maxLen : q'.maxLen = q.maxLen
  sublist : q'.queue.Sublist q.queue
  drops : ∃ dropped, q'.drops = q.drops ++ dropped ∧ q.queue.Perm (dropped ++ q'.queue)

theorem Drops.trans {q'' : RequestQueue} (h : Drops q q') (h' : Drops q' q'') : Drops q q'' := by
  obtain ⟨dropped, hdrops, hperm⟩ := h.drops
  obtain ⟨dropped', hdrops', hperm'⟩ := h'.drops
  refine ⟨h'.maxLen.trans h.maxLen, h'.sublist.trans h.sublist, dropped ++ dropped', ?_, ?_⟩
  · rw [hdrops', hdrops, List.append_assoc]
  · rw [List.append_assoc]
    exact hperm.trans (hperm'.append_left dropped)

/-- The entries that satisfy the predicate are dropped. -/
theorem drops_filter (q : RequestQueue) (p : QueueEntry → Bool) :
    Drops q { q with
      queue := q.queue.filter fun e => !p e
      drops := q.drops ++ q.queue.filter p } where
  maxLen := rfl
  sublist := List.filter_sublist
  drops := ⟨_, rfl, (List.filter_append_perm p q.queue).symm⟩

theorem drops_purge (q : RequestQueue) (now : Time) : Drops q (q.purge now) :=
  drops_filter q (QueueEntry.isExpired now)

theorem drops_makeRoom (q : RequestQueue) : Drops q q.makeRoom := by
  rw [makeRoom]
  split
  · refine ⟨rfl, List.drop_sublist 1 q.queue, q.queue.take 1, rfl, ?_⟩
    rw [List.take_append_drop]
  · exact ⟨rfl, List.Sublist.refl _, [], (List.append_nil _).symm, .refl _⟩

theorem drops_dropPacketWithDst (q : RequestQueue) (now : Time) (dst : Ipv4Address) :
    Drops q (q.dropPacketWithDst now dst) :=
  (drops_purge q now).trans (drops_filter _ _)

theorem length_makeRoom (h : q.queue.length ≤ q.maxLen) (hmaxLen : 1 ≤ q.maxLen) :
    q.makeRoom.queue.length + 1 ≤ q.maxLen := by
  rw [makeRoom]
  split
  · rw [List.length_drop]
    omega
  · omega

/-- The first entry for the destination is taken out. -/
theorem dequeue_eq_some {entry : QueueEntry} (h : q.dequeue now dst = (q', some entry)) :
    ∃ before after, (q.purge now).queue = before ++ entry :: after ∧
      entry.isTo dst ∧ (∀ e ∈ before, ¬e.isTo dst) ∧
      q' = { q.purge now with queue := before ++ after } := by
  rw [dequeue] at h
  cases hfind : (q.purge now).queue.find? (QueueEntry.isTo dst) with
  | none =>
    rw [hfind] at h
    cases (Prod.mk.inj h).2
  | some e =>
    rw [hfind] at h
    obtain ⟨hq, he⟩ := Prod.mk.inj h
    obtain rfl := Option.some.inj he
    obtain ⟨hto, before, after, hsplit, hbefore⟩ := List.find?_eq_some_iff_append.mp hfind
    have hnot : ∀ b ∈ before, ¬b.isTo dst := fun b hb => by simpa using hbefore b hb
    refine ⟨before, after, hsplit, hto, hnot, ?_⟩
    rw [← hq, hsplit, List.eraseP_append_right _ hnot, List.eraseP_cons_of_pos hto]

theorem dequeue_eq_none (h : q.dequeue now dst = (q', none)) :
    q' = q.purge now ∧ ∀ e ∈ (q.purge now).queue, ¬e.isTo dst := by
  rw [dequeue] at h
  cases hfind : (q.purge now).queue.find? (QueueEntry.isTo dst) with
  | none =>
    rw [hfind] at h
    exact ⟨(Prod.mk.inj h).1.symm, List.find?_eq_none.mp hfind⟩
  | some e =>
    rw [hfind] at h
    cases (Prod.mk.inj h).2

end RequestQueue

end Ns3Noc.Aodv
