import Mathlib

/-!
# The packet queue of a WiMAX connection

Packets are taken whole or in fragments, by the type of their MAC header. `none` is a failed
assertion.
-/
namespace Ns3Noc.Wimax

abbrev Bytes : Type := List UInt8

/-- `uint32_t` -/
def add (a b : ℕ) : ℕ := (a + b) % 4294967296

def sub (a b : ℕ) : ℕ := (a + (4294967296 - b)) % 4294967296

inductive HeaderType
  | generic
  | bandwidth
  deriving DecidableEq

/-- `MacHeaderType::GetSerializedSize` -/
def HeaderType.getSerializedSize (_ : HeaderType) : ℕ := 0

structure GenericMacHeader where
  type : ℕ
  len : ℕ
  cid : ℕ
  deriving DecidableEq

def GenericMacHeader.getSerializedSize (_ : GenericMacHeader) : ℕ := 6

structure FragmentationSubheader where
  fc : ℕ
  fsn : ℕ
  deriving DecidableEq

def FragmentationSubheader.getSerializedSize (_ : FragmentationSubheader) : ℕ := 2

/-- A packet has a size of 32 bits. -/
structure Packet where
  bytes : Bytes
  small : bytes.length < 4294967296

/-- The headers that `Dequeue` puts before the bytes of a packet. -/
structure Pdu where
  hdr : Option GenericMacHeader
  subhdr : Option FragmentationSubheader
  payload : Bytes
  deriving DecidableEq

def Pdu.getSize (p : Pdu) : ℕ :=
  (p.hdr.elim 0 GenericMacHeader.getSerializedSize) +
    (p.subhdr.elim 0 FragmentationSubheader.getSerializedSize) + p.payload.length

namespace Packet
variable (p : Packet)

def getSize : ℕ := p.bytes.length

/-- `Buffer::RemoveAtEnd` -/
def removeAtEnd (stop : ℕ) (bytes : Bytes) : Bytes := bytes.take (bytes.length - stop)

def createFragment (start length : ℕ) : Option Bytes :=
  if add start length ≤ p.getSize then
    some (removeAtEnd (sub p.getSize (add start length)) (p.bytes.drop start))
  else none

end Packet

structure QueueElement where
  packet : Packet
  hdrType : HeaderType
  hdr : GenericMacHeader
  fragmentation : Bool
  fragmentNumber : ℕ
  fragmentOffset : ℕ

namespace QueueElement
variable (element : QueueElement)

def create (packet : Packet) (hdrType : HeaderType) (hdr : GenericMacHeader) : QueueElement :=
  ⟨packet, hdrType, hdr, false, 0, 0⟩

/-- The default constructor. -/
def blank : QueueElement := create ⟨[], by decide⟩ .generic ⟨0, 0, 0⟩

/-- The generic header is added to data packets only. -/
def hdrSize : ℕ :=
  (if element.hdrType = .generic then element.hdr.getSerializedSize else 0) +
    element.hdrType.getSerializedSize

def getSize : ℕ := add element.packet.getSize element.hdrSize

def setFragmentation : QueueElement := { element with fragmentation := true }

def setFragmentNumber : QueueElement :=
  { element with fragmentNumber := add element.fragmentNumber 1 }

def setFragmentOffset (offset : ℕ) : QueueElement :=
  { element with fragmentOffset := add element.fragmentOffset offset }

/-- The header of a fragment of some size. -/
def fragmentHdr (size : ℕ) : Option GenericMacHeader :=
  if element.hdrType = .generic then
    some { element.hdr with type := element.hdr.type ||| 4, len := (size + 6 + 2) % 65536 }
  else none

end QueueElement

structure WimaxMacQueue where
  queue : List QueueElement
  maxSize : ℕ
  bytes : ℕ
  nrDataPackets : ℕ
  nrRequestPackets : ℕ

namespace WimaxMacQueue

def create (maxSize : ℕ) : WimaxMacQueue := ⟨[], maxSize, 0, 0, 0⟩

/-- The loop of `Front`, which leaves the last element where no one has the type. -/
def frontLoop (packetType : HeaderType) (element : QueueElement) :
    List QueueElement → QueueElement
  | [] => element
  | e :: rest => if e.hdrType = packetType then e else frontLoop packetType e rest

/-- The loop of `Pop`. -/
def popLoop (packetType : HeaderType) : List QueueElement → List QueueElement
  | [] => []
  | e :: rest => if e.hdrType = packetType then rest else e :: popLoop packetType rest

/-- The loop of the setters. -/
def setLoop (packetType : HeaderType) (set : QueueElement → QueueElement) :
    List QueueElement → List QueueElement
  | [] => []
  | e :: rest => if e.hdrType = packetType then set e :: rest else e :: setLoop packetType set rest

variable (q : WimaxMacQueue) (packetType : HeaderType)

def front : QueueElement := frontLoop packetType .blank q.queue

def pop : WimaxMacQueue := { q with queue := popLoop packetType q.queue }

def setFragmentation : WimaxMacQueue :=
  { q with queue := setLoop packetType .setFragmentation q.queue }

def setFragmentNumber : WimaxMacQueue :=
  { q with queue := setLoop packetType .setFragmentNumber q.queue }

def setFragmentOffset (offset : ℕ) : WimaxMacQueue :=
  { q with queue := setLoop packetType (·.setFragmentOffset offset) q.queue }

/-- `IsEmpty` of a type -/
def isEmpty : Bool :=
  if packetType = .generic then q.nrDataPackets == 0 else q.nrRequestPackets == 0

def checkForFragmentation : Bool := (q.front packetType).fragmentation

def getFirstPacketHdrSize : ℕ :=
  (q.front packetType).hdrSize + (if q.checkForFragmentation packetType then 2 else 0)

def getFirstPacketPayloadSize : ℕ :=
  if q.checkForFragmentation packetType then
    sub (q.front packetType).packet.getSize (q.front packetType).fragmentOffset
  else (q.front packetType).packet.getSize

def getFirstPacketRequiredByte : ℕ :=
  add (q.getFirstPacketPayloadSize packetType) (q.getFirstPacketHdrSize packetType)

def count (hdrType : HeaderType) : WimaxMacQueue :=
  if hdrType = .generic then { q with nrDataPackets := add q.nrDataPackets 1 }
  else { q with nrRequestPackets := add q.nrRequestPackets 1 }

def discount (hdrType : HeaderType) : WimaxMacQueue :=
  if hdrType = .generic then { q with nrDataPackets := sub q.nrDataPackets 1 }
  else { q with nrRequestPackets := sub q.nrRequestPackets 1 }

/-- With whether the packet was stored. -/
def enqueue (packet : Packet) (hdrType : HeaderType) (hdr : GenericMacHeader) :
    Bool × WimaxMacQueue :=
  if q.queue.length = q.maxSize then (false, q)
  else
    let element := QueueElement.create packet hdrType hdr
    let q := { q with queue := q.queue ++ [element] }.count hdrType
    (true, { q with bytes := add q.bytes element.getSize })

def dequeue : Option (Option Pdu × WimaxMacQueue) :=
  if q.queue.isEmpty then some (none, q)
  else
    let element := q.front packetType
    let q := (q.pop packetType).discount element.hdrType
    if element.fragmentation = false then
      some (some ⟨if element.hdrType = .generic then some element.hdr else none, none,
        element.packet.bytes⟩, { q with bytes := sub q.bytes element.getSize })
    else
      let fragmentSize := sub element.packet.getSize element.fragmentOffset
      (element.packet.createFragment element.fragmentOffset fragmentSize).map fun fragment =>
        (some ⟨element.fragmentHdr fragmentSize, some ⟨2, element.fragmentNumber % 256⟩,
          fragment⟩, { q with bytes := sub q.bytes fragmentSize })

/-- `Dequeue` with a number of bytes. It counts a generic header for every type. -/
def dequeueFragment (availableByte : ℕ) : Option (Option Pdu × WimaxMacQueue) :=
  if q.queue.isEmpty then some (none, q)
  else
    let element := q.front packetType
    let headerSize := 2 + element.hdr.getSerializedSize + element.hdrType.getSerializedSize
    let maxFragmentSize := sub availableByte headerSize
    (element.packet.createFragment element.fragmentOffset maxFragmentSize).map fun fragment =>
      let q := { q with bytes := sub q.bytes maxFragmentSize }
      let q := if element.fragmentation = false then q.setFragmentation packetType else q
      let fc := if element.fragmentation = false then 1 else 3
      (some ⟨element.fragmentHdr maxFragmentSize, some ⟨fc, element.fragmentNumber % 256⟩,
        fragment⟩, (q.setFragmentNumber packetType).setFragmentOffset packetType maxFragmentSize)

end WimaxMacQueue

inductive Call
  | enqueue (packet : Packet) (hdrType : HeaderType) (hdr : GenericMacHeader)
  | dequeue (packetType : HeaderType)
  | dequeueFragment (packetType : HeaderType) (availableByte : ℕ)

/-- What a call returns. -/
inductive Reply
  | stored (accepted : Bool)
  | taken (pdu : Option Pdu)

namespace WimaxMacQueue
variable (q : WimaxMacQueue)

def perform : Call → Option (Reply × WimaxMacQueue)
  | .enqueue packet hdrType hdr =>
    some (.stored (q.enqueue packet hdrType hdr).1, (q.enqueue packet hdrType hdr).2)
  | .dequeue packetType => (q.dequeue packetType).map fun r => (.taken r.1, r.2)
  | .dequeueFragment packetType availableByte =>
    (q.dequeueFragment packetType availableByte).map fun r => (.taken r.1, r.2)

/-- The guards of `SSScheduler::Schedule`. -/
def Allows : Call → Prop
  | .enqueue .. => True
  | .dequeue packetType => q.isEmpty packetType = false
  | .dequeueFragment packetType availableByte => q.isEmpty packetType = false ∧
    availableByte < q.getFirstPacketRequiredByte packetType ∧
      q.getFirstPacketHdrSize packetType +
        (if q.checkForFragmentation packetType then 0 else 2) < availableByte

end WimaxMacQueue

/-! ## What a queue is to do -/

/-- The header sizes and the payload that is not yet sent. -/
def QueueElement.pending (e : QueueElement) : ℕ :=
  e.hdrSize + (e.packet.bytes.length - e.fragmentOffset)

def total (queue : List QueueElement) : ℕ := (queue.map QueueElement.pending).sum

def ofType (type : HeaderType) (queue : List QueueElement) : List QueueElement :=
  queue.filter fun e => e.hdrType = type

structure Event where
  call : Call
  reply : Reply

/-- The packet of the type that is stored. -/
def Event.stored (type : HeaderType) : Event → Option Bytes
  | ⟨.enqueue packet hdrType _, .stored true⟩ =>
    if hdrType = type then some packet.bytes else none
  | _ => none

/-- The PDU of the type that is taken. -/
def Event.taken (type : HeaderType) : Event → Option Pdu
  | ⟨.dequeue packetType, .taken pdu⟩ => if packetType = type then pdu else none
  | ⟨.dequeueFragment packetType _, .taken pdu⟩ => if packetType = type then pdu else none
  | _ => none

/-- A fragment is not longer than what was available. -/
def Event.Fits : Event → Prop
  | ⟨.dequeueFragment _ availableByte, .taken pdu⟩ => ∀ p ∈ pdu, p.getSize ≤ availableByte
  | _ => True

/-- The fragment with a number. The subheader has eight bits for it. -/
structure Fragment (fc number : ℕ) (pdu : Pdu) : Prop where
  subhdr : pdu.subhdr = some ⟨fc, number % 256⟩
  nonempty : pdu.payload ≠ []

/-- The fragments before the last one. -/
def Started (pdus : List Pdu) : Prop :=
  ∀ k (h : k < pdus.length), Fragment (if k = 0 then 1 else 3) k pdus[k]

def joined (pdus : List Pdu) : Bytes := pdus.flatMap Pdu.payload

/-- All PDUs of a packet. -/
inductive Whole (packet : Bytes) : List Pdu → Prop
  | single (pdu : Pdu) : pdu.subhdr = none → pdu.payload = packet → packet ≠ [] →
      Whole packet [pdu]
  | fragments (pdus : List Pdu) (last : Pdu) : pdus ≠ [] → Started pdus →
      Fragment 2 pdus.length last → joined (pdus ++ [last]) = packet → Whole packet (pdus ++ [last])

/-- The PDUs of the first packet that waits. -/
def Sending : List Bytes → List Pdu → Prop
  | [], current => current = []
  | packet :: _, current => Started current ∧ joined current <+: packet

/-- The packets of a type leave in their order, and every PDU is of one of them. -/
def Transmits (type : HeaderType) (events : List Event) (queue : List QueueElement) : Prop :=
  ∃ finished groups current,
    events.filterMap (Event.stored type) =
        finished ++ (ofType type queue).map (fun e => e.packet.bytes) ∧
      events.filterMap (Event.taken type) = groups.flatten ++ current ∧
      List.Forall₂ Whole finished groups ∧
      Sending ((ofType type queue).map fun e => e.packet.bytes) current

structure Sound (events : List Event) (q : WimaxMacQueue) : Prop where
  bytes : q.bytes = total q.queue
  transmits : ∀ type, Transmits type events q.queue
  fits : ∀ event ∈ events, event.Fits

namespace WimaxMacQueue

/-- No assertion fails in the calls, and the queue is sound after each. -/
def Serves (events : List Event) (q : WimaxMacQueue) : List Call → Prop
  | [] => Sound events q
  | call :: calls => Sound events q ∧ ∃ reply q', q.perform call = some (reply, q') ∧
      q'.Serves (events ++ [⟨call, reply⟩]) calls

/-- The condition holds of each call where it is made. -/
def Always (P : WimaxMacQueue → Call → Prop) (q : WimaxMacQueue) : List Call → Prop
  | [] => True
  | call :: calls => P q call ∧ ∀ r ∈ q.perform call, r.2.Always P calls

/-- The counter does not overflow, no packet is empty, the last fragment is not of a data packet,
and there is room for the headers that are counted. -/
def Meets (q : WimaxMacQueue) : Call → Prop
  | .enqueue packet hdrType hdr => q.queue.length = q.maxSize ∨
      total q.queue + (QueueElement.create packet hdrType hdr).pending < 4294967296
  | .dequeue packetType => (q.front packetType).packet.bytes ≠ [] ∧
      ¬((q.front packetType).hdrType = .generic ∧ (q.front packetType).fragmentation = true)
  | .dequeueFragment packetType availableByte =>
    2 + (q.front packetType).hdr.getSerializedSize +
      (q.front packetType).hdrType.getSerializedSize < availableByte

end WimaxMacQueue

/-! ## The first element of a type -/

section First
variable {type : HeaderType} {queue before after : List QueueElement} {e : QueueElement}

/-- The element that the loops find. -/
structure First (type : HeaderType) (before : List QueueElement) (e : QueueElement) : Prop where
  other : ∀ e' ∈ before, e'.hdrType ≠ type
  hdrType : e.hdrType = type

theorem exists_first (h : ofType type queue ≠ []) :
    ∃ before e after, queue = before ++ e :: after ∧ First type before e := by
  induction queue with
  | nil => exact absurd rfl h
  | cons head rest ih =>
    by_cases hhead : head.hdrType = type
    · exact ⟨[], head, rest, rfl, by simp, hhead⟩
    · have hrest : ofType type rest ≠ [] := by
        rwa [ofType, List.filter_cons_of_neg (by simpa using hhead)] at h
      obtain ⟨before, e, after, rfl, hfirst⟩ := ih hrest
      refine ⟨head :: before, e, after, rfl, fun e' he' => ?_, hfirst.hdrType⟩
      rcases List.mem_cons.mp he' with rfl | he'
      · exact hhead
      · exact hfirst.other e' he'

theorem First.frontLoop (h : First type before e) (start : QueueElement) :
    WimaxMacQueue.frontLoop type start (before ++ e :: after) = e := by
  induction before generalizing start with
  | nil => exact if_pos h.hdrType
  | cons head rest ih =>
    rw [List.cons_append, WimaxMacQueue.frontLoop, if_neg (h.other head List.mem_cons_self)]
    exact ih ⟨fun e' he' => h.other e' (List.mem_cons_of_mem _ he'), h.hdrType⟩ head

theorem First.popLoop (h : First type before e) :
    WimaxMacQueue.popLoop type (before ++ e :: after) = before ++ after := by
  induction before with
  | nil => exact if_pos h.hdrType
  | cons head rest ih =>
    rw [List.cons_append, WimaxMacQueue.popLoop, if_neg (h.other head List.mem_cons_self),
      ih ⟨fun e' he' => h.other e' (List.mem_cons_of_mem _ he'), h.hdrType⟩, List.cons_append]

theorem First.setLoop (h : First type before e) (set : QueueElement → QueueElement) :
    WimaxMacQueue.setLoop type set (before ++ e :: after) = before ++ set e :: after := by
  induction before with
  | nil => exact if_pos h.hdrType
  | cons head rest ih =>
    rw [List.cons_append, WimaxMacQueue.setLoop, if_neg (h.other head List.mem_cons_self),
      ih ⟨fun e' he' => h.other e' (List.mem_cons_of_mem _ he'), h.hdrType⟩, List.cons_append]

theorem First.ofType_before (h : First type before e) : ofType type before = [] := by
  rw [ofType, List.filter_eq_nil_iff]
  intro e' he'
  simpa using h.other e' he'

/-- The element is the first of its type. -/
theorem First.ofType_eq (h : First type before e) :
    ofType type (before ++ e :: after) = e :: ofType type after := by
  rw [ofType, List.filter_append, ← ofType, h.ofType_before, List.nil_append,
    List.filter_cons_of_pos (by simpa using h.hdrType), ← ofType]

theorem First.ofType_pop (h : First type before e) :
    ofType type (before ++ after) = ofType type after := by
  rw [ofType, List.filter_append, ← ofType, h.ofType_before, List.nil_append, ← ofType]

/-- Nothing changes for another type. -/
theorem ofType_other {type' : HeaderType} (h : e.hdrType ≠ type') :
    ofType type' (before ++ e :: after) = ofType type' (before ++ after) := by
  rw [ofType, ofType, List.filter_append, List.filter_append,
    List.filter_cons_of_neg (by simpa using h)]

theorem total_append : total (before ++ after) = total before + total after := by
  rw [total, List.map_append, List.sum_append, ← total, ← total]

theorem total_cons : total (e :: after) = e.pending + total after := by
  rw [total, List.map_cons, List.sum_cons, ← total]

end First

/-! ## Transmissions -/

theorem Started.fragment {pdus : List Pdu} {pdu : Pdu} (h : Started pdus) (hmem : pdu ∈ pdus) :
    pdu.payload ≠ [] := by
  obtain ⟨k, hk, rfl⟩ := List.getElem_of_mem hmem
  exact (h k hk).nonempty

theorem Started.append {pdus : List Pdu} {pdu : Pdu} (h : Started pdus)
    (hnext : Fragment (if pdus.length = 0 then 1 else 3) pdus.length pdu) :
    Started (pdus ++ [pdu]) := by
  intro k hk
  rw [List.length_append, List.length_singleton] at hk
  rcases Nat.lt_succ_iff_lt_or_eq.mp hk with hlt | rfl
  · rw [List.getElem_append_left hlt]
    exact h k hlt
  · rw [List.getElem_append_right le_rfl]
    simpa using hnext

theorem joined_append (pdus : List Pdu) (pdu : Pdu) :
    joined (pdus ++ [pdu]) = joined pdus ++ pdu.payload := by
  rw [joined, List.flatMap_append, ← joined, List.flatMap_singleton]

theorem length_le_joined {pdus : List Pdu} (h : ∀ pdu ∈ pdus, pdu.payload ≠ []) :
    pdus.length ≤ (joined pdus).length := by
  induction pdus with
  | nil => exact Nat.zero_le _
  | cons pdu rest ih =>
    have hrest := ih fun pdu' hmem => h pdu' (List.mem_cons_of_mem _ hmem)
    have hpdu := List.length_pos_of_ne_nil (h pdu List.mem_cons_self)
    rw [joined, List.flatMap_cons, ← joined, List.length_append, List.length_cons]
    omega

/-- What an element remembers of the fragments that were sent of it. -/
structure Matches (e : QueueElement) (current : List Pdu) : Prop where
  started : Started current
  fragmentation : e.fragmentation = true ↔ current ≠ []
  number : e.fragmentNumber = current.length
  offset : e.fragmentOffset = (joined current).length
  sent : joined current <+: e.packet.bytes
  unsent : current ≠ [] → e.fragmentOffset < e.packet.bytes.length

/-- Nothing was sent of an element that is not the first one. -/
def Held : List QueueElement → List Pdu → Prop
  | [], current => current = []
  | e :: rest, current => Matches e current ∧ ∀ e' ∈ rest, Matches e' []

def Transmission (stored : List Bytes) (taken : List Pdu) (waiting : List QueueElement) : Prop :=
  ∃ finished groups current,
    stored = finished ++ waiting.map (fun e => e.packet.bytes) ∧
      taken = groups.flatten ++ current ∧ List.Forall₂ Whole finished groups ∧
      Held waiting current

section Transmission
variable {e d : QueueElement} {current : List Pdu} {p : Pdu} {stored : List Bytes}
  {taken : List Pdu} {waiting : List QueueElement}

theorem matches_create (packet : Packet) (hdrType : HeaderType) (hdr : GenericMacHeader) :
    Matches (.create packet hdrType hdr) [] where
  started := fun _ h => absurd h (Nat.not_lt_zero _)
  fragmentation := by simp [QueueElement.create]
  number := rfl
  offset := rfl
  sent := List.nil_prefix
  unsent h := absurd rfl h

theorem Matches.number_le (h : Matches e current) : e.fragmentNumber ≤ e.fragmentOffset := by
  rw [h.number, h.offset]
  exact length_le_joined fun _ => h.started.fragment

theorem Matches.joined_eq (h : Matches e current) :
    joined current = e.packet.bytes.take e.fragmentOffset := by
  rw [h.offset]
  exact List.prefix_iff_eq_take.mp h.sent

theorem Matches.offset_le (h : Matches e current) : e.fragmentOffset ≤ e.packet.bytes.length := by
  rw [h.offset]
  exact h.sent.length_le

theorem Matches.current_eq_nil (h : Matches e current) (hfrag : e.fragmentation = false) :
    current = [] := by
  by_contra hne
  rw [h.fragmentation.mpr hne] at hfrag
  cases hfrag

/-- A middle fragment, or the first one. -/
theorem Matches.more {n : ℕ} (h : Matches e current)
    (hsub : p.subhdr = some ⟨if e.fragmentation = false then 1 else 3, e.fragmentNumber % 256⟩)
    (hpayload : p.payload = (e.packet.bytes.drop e.fragmentOffset).take n) (hpos : 0 < n)
    (hlt : e.fragmentOffset + n < e.packet.bytes.length) (hpacket : d.packet = e.packet)
    (hfrag : d.fragmentation = true) (hnumber : d.fragmentNumber = e.fragmentNumber + 1)
    (hoffset : d.fragmentOffset = e.fragmentOffset + n) : Matches d (current ++ [p]) := by
  have hlength : p.payload.length = n := by
    rw [hpayload, List.length_take, List.length_drop]
    omega
  have hjoined : joined (current ++ [p]) = e.packet.bytes.take (e.fragmentOffset + n) := by
    rw [joined_append, h.joined_eq, hpayload, List.take_add]
  have hfc : (if e.fragmentation = false then 1 else 3) =
      if current.length = 0 then 1 else 3 := by
    by_cases hcurrent : current = []
    · have hfalse : e.fragmentation = false := by
        rw [← Bool.not_eq_true, h.fragmentation]
        exact not_not_intro hcurrent
      rw [if_pos hfalse, if_pos (List.length_eq_zero_iff.mpr hcurrent)]
    · have htrue := h.fragmentation.mpr hcurrent
      rw [if_neg (by rw [htrue]; decide), if_neg (mt List.length_eq_zero_iff.mp hcurrent)]
  exact {
    started := h.started.append {
      subhdr := by rw [hsub, hfc, h.number]
      nonempty := fun hnil => by rw [hnil, List.length_nil] at hlength; omega }
    fragmentation := iff_of_true hfrag (by simp)
    number := by rw [hnumber, h.number, List.length_append, List.length_singleton]
    offset := by rw [hoffset, joined_append, List.length_append, ← h.offset, hlength]
    sent := by
      rw [hjoined, hpacket]
      exact List.take_prefix _ _
    unsent := fun _ => by rw [hoffset, hpacket]; exact hlt }

theorem Held.tail (h : Held (e :: waiting) current) : Held waiting [] := by
  cases waiting with
  | nil => rfl
  | cons next rest =>
    exact ⟨h.2 next List.mem_cons_self, fun d he' => h.2 d (List.mem_cons_of_mem _ he')⟩

theorem Transmission.store (h : Transmission stored taken waiting) (he : Matches e []) :
    Transmission (stored ++ [e.packet.bytes]) taken (waiting ++ [e]) := by
  obtain ⟨finished, groups, current, hstored, htaken, hwhole, hheld⟩ := h
  refine ⟨finished, groups, current, ?_, htaken, hwhole, ?_⟩
  · rw [hstored, List.map_append, List.append_assoc, List.map_singleton]
  · cases waiting with
    | nil =>
      rw [show current = [] from hheld]
      exact ⟨he, by simp⟩
    | cons first rest =>
      refine ⟨hheld.1, fun d he' => ?_⟩
      rcases List.mem_append.mp he' with he' | he'
      · exact hheld.2 d he'
      · rw [List.mem_singleton.mp he']
        exact he

/-- The group of the first packet is complete. -/
theorem Transmission.finish (h : Transmission stored taken (e :: waiting))
    (hgroup : ∀ current, Matches e current → Whole e.packet.bytes (current ++ [p])) :
    Transmission stored (taken ++ [p]) waiting := by
  obtain ⟨finished, groups, current, hstored, htaken, hwhole, hheld⟩ := h
  refine ⟨finished ++ [e.packet.bytes], groups ++ [current ++ [p]], [], ?_, ?_, ?_, hheld.tail⟩
  · rw [hstored, List.map_cons, List.append_assoc, List.singleton_append]
  · rw [htaken, List.flatten_append, List.flatten_singleton, List.append_nil, List.append_assoc]
  · exact List.rel_append hwhole (.cons (hgroup current hheld.1) .nil)

theorem Transmission.whole (h : Transmission stored taken (e :: waiting))
    (hfrag : e.fragmentation = false) (hsub : p.subhdr = none)
    (hpayload : p.payload = e.packet.bytes) (hne : e.packet.bytes ≠ []) :
    Transmission stored (taken ++ [p]) waiting := by
  refine h.finish fun current hmatches => ?_
  rw [hmatches.current_eq_nil hfrag]
  exact .single p hsub hpayload hne

theorem Transmission.last (h : Transmission stored taken (e :: waiting))
    (hfrag : e.fragmentation = true) (hsub : p.subhdr = some ⟨2, e.fragmentNumber % 256⟩)
    (hpayload : p.payload = e.packet.bytes.drop e.fragmentOffset) :
    Transmission stored (taken ++ [p]) waiting := by
  refine h.finish fun current hmatches => ?_
  have hcurrent := hmatches.fragmentation.mp hfrag
  refine .fragments current p hcurrent hmatches.started ⟨?_, ?_⟩ ?_
  · rw [hsub, hmatches.number]
  · rw [hpayload, Ne, List.drop_eq_nil_iff]
    have hunsent := hmatches.unsent hcurrent
    omega
  · rw [joined_append, hmatches.joined_eq, hpayload, List.take_append_drop]

theorem Transmission.more (h : Transmission stored taken (e :: waiting))
    (hpacket : d.packet = e.packet)
    (hmore : ∀ current, Matches e current → Matches d (current ++ [p])) :
    Transmission stored (taken ++ [p]) (d :: waiting) := by
  obtain ⟨finished, groups, current, hstored, htaken, hwhole, hheld⟩ := h
  refine ⟨finished, groups, current ++ [p], ?_, ?_, hwhole, hmore current hheld.1, hheld.2⟩
  · rw [hstored, List.map_cons, List.map_cons, hpacket]
  · rw [htaken, List.append_assoc]

theorem Whole.nonempty {packet : Bytes} {group : List Pdu} (h : Whole packet group)
    (hmem : p ∈ group) : p.payload ≠ [] := by
  cases h with
  | single pdu' hsub hpayload hne =>
    rw [List.mem_singleton.mp hmem, hpayload]
    exact hne
  | fragments pdus last hpdus hstarted hlast hjoined =>
    rcases List.mem_append.mp hmem with hmem | hmem
    · exact hstarted.fragment hmem
    · rw [List.mem_singleton.mp hmem]
      exact hlast.nonempty

theorem nonempty_of_whole {finished : List Bytes} {groups : List (List Pdu)}
    (h : List.Forall₂ Whole finished groups) (hmem : p ∈ groups.flatten) : p.payload ≠ [] := by
  induction h with
  | nil => exact absurd hmem List.not_mem_nil
  | cons hwhole _ ih =>
    rw [List.flatten_cons, List.mem_append] at hmem
    exact hmem.elim hwhole.nonempty ih

end Transmission

theorem Held.sending {waiting : List QueueElement} {current : List Pdu} (h : Held waiting current) :
    Sending (waiting.map fun e => e.packet.bytes) current := by
  cases waiting with
  | nil => exact h
  | cons e rest => exact ⟨h.1.started, h.1.sent⟩

/-- No PDU of a sound queue is empty. -/
theorem Transmits.nonempty {type : HeaderType} {events : List Event} {queue : List QueueElement}
    {pdu : Pdu} (h : Transmits type events queue)
    (hmem : pdu ∈ events.filterMap (Event.taken type)) : pdu.payload ≠ [] := by
  obtain ⟨finished, groups, current, -, htaken, hwhole, hsending⟩ := h
  rw [htaken] at hmem
  rcases List.mem_append.mp hmem with hmem | hmem
  · exact nonempty_of_whole hwhole hmem
  · cases hwaiting : (ofType type queue).map fun e => e.packet.bytes with
    | nil =>
      rw [hwaiting] at hsending
      rw [show current = [] from hsending] at hmem
      exact absurd hmem List.not_mem_nil
    | cons packet rest =>
      rw [hwaiting] at hsending
      exact hsending.1.fragment hmem

/-! ## The calls -/

section Words
variable {a b : ℕ}

theorem add_of_lt (h : a + b < 4294967296) : add a b = a + b := Nat.mod_eq_of_lt h

theorem sub_of_le (ha : a < 4294967296) (h : b ≤ a) : sub a b = a - b := by
  rw [sub]
  omega

theorem add_lt : add a b < 4294967296 := Nat.mod_lt _ (by decide)

end Words

theorem Packet.createFragment_eq {p : Packet} {start length : ℕ}
    (h : start + length ≤ p.bytes.length) :
    p.createFragment start length = some ((p.bytes.drop start).take length) := by
  have hsmall := p.small
  rw [createFragment, add_of_lt (by omega), getSize, if_pos h, sub_of_le hsmall h, removeAtEnd,
    List.length_drop]
  congr 2
  omega

theorem QueueElement.hdrSize_le (e : QueueElement) : e.hdrSize ≤ 6 := by
  rw [QueueElement.hdrSize, HeaderType.getSerializedSize, GenericMacHeader.getSerializedSize]
  split <;> omega

namespace WimaxMacQueue
variable {q : WimaxMacQueue} {type : HeaderType} {before after : List QueueElement}
  {e : QueueElement} {current : List Pdu} {availableByte : ℕ}

/-- The counters of the two types. -/
structure Counted (q : WimaxMacQueue) : Prop where
  length : q.queue.length ≤ q.maxSize
  maxSize : q.maxSize < 4294967296
  data : q.nrDataPackets = (ofType .generic q.queue).length
  request : q.nrRequestPackets = (ofType .bandwidth q.queue).length

theorem Counted.ofType_ne_nil (h : q.Counted) (hempty : q.isEmpty type = false) :
    ofType type q.queue ≠ [] := by
  intro hnil
  cases type with
  | generic =>
    have hzero : q.nrDataPackets = 0 := by rw [h.data, hnil, List.length_nil]
    rw [isEmpty, if_pos rfl, hzero] at hempty
    cases hempty
  | bandwidth =>
    have hzero : q.nrRequestPackets = 0 := by rw [h.request, hnil, List.length_nil]
    rw [isEmpty, if_neg (by decide), hzero] at hempty
    cases hempty

/-- The queue with its first element of the type. -/
structure Heads (q : WimaxMacQueue) (type : HeaderType) (before : List QueueElement)
    (e : QueueElement) (after : List QueueElement) : Prop where
  queue : q.queue = before ++ e :: after
  first : First type before e

theorem Counted.exists_heads (h : q.Counted) (hempty : q.isEmpty type = false) :
    ∃ before e after, q.Heads type before e after := by
  obtain ⟨before, e, after, hqueue, hfirst⟩ := exists_first (h.ofType_ne_nil hempty)
  exact ⟨before, e, after, hqueue, hfirst⟩

theorem Heads.front (h : q.Heads type before e after) : q.front type = e := by
  rw [WimaxMacQueue.front, h.queue, h.first.frontLoop]

theorem Heads.not_isEmpty (h : q.Heads type before e after) : ¬q.queue.isEmpty = true := by
  rw [h.queue]
  simp

theorem Heads.ofType_eq (h : q.Heads type before e after) :
    ofType type q.queue = e :: ofType type after := by
  rw [h.queue, h.first.ofType_eq]

theorem Heads.pop (h : q.Heads type before e after) :
    q.pop type = { q with queue := before ++ after } := by
  rw [WimaxMacQueue.pop, h.queue, h.first.popLoop]

/-- What the setters leave of the first element. -/
def advanced (e : QueueElement) (size : ℕ) : QueueElement :=
  { e with
    fragmentation := true
    fragmentNumber := add e.fragmentNumber 1
    fragmentOffset := add e.fragmentOffset size }

theorem Heads.set (h : q.Heads type before e after) (size : ℕ) :
    setFragmentOffset (setFragmentNumber
        (if e.fragmentation = false then q.setFragmentation type else q) type) type size =
      { q with queue := before ++ advanced e size :: after } := by
  have hfirst {d : QueueElement} (he' : d.hdrType = e.hdrType) : First type before d :=
    ⟨h.first.other, he'.trans h.first.hdrType⟩
  by_cases hfrag : e.fragmentation = false
  · rw [if_pos hfrag, setFragmentation, setFragmentNumber, setFragmentOffset, h.queue]
    simp only [h.first.setLoop,
      (hfirst (d := e.setFragmentation) rfl).setLoop,
      (hfirst (d := e.setFragmentation.setFragmentNumber) rfl).setLoop]
    rfl
  · rw [if_neg hfrag, setFragmentNumber, setFragmentOffset, h.queue]
    simp only [h.first.setLoop, (hfirst (d := e.setFragmentNumber) rfl).setLoop]
    have htrue : true = e.fragmentation := ((Bool.not_eq_false _).mp hfrag).symm
    rw [advanced, htrue]
    rfl

@[simp] theorem discount_queue : (q.discount type).queue = q.queue := by
  cases type <;> simp [discount]

@[simp] theorem discount_maxSize : (q.discount type).maxSize = q.maxSize := by
  cases type <;> simp [discount]

@[simp] theorem discount_bytes : (q.discount type).bytes = q.bytes := by
  cases type <;> simp [discount]

/-- The queue without an element, after the counters were lowered. -/
def without (q : WimaxMacQueue) (before after : List QueueElement) (hdrType : HeaderType)
    (size : ℕ) : WimaxMacQueue :=
  { ({ q with queue := before ++ after }.discount hdrType) with bytes := sub q.bytes size }

theorem Heads.dequeue_whole (h : q.Heads type before e after) (hfrag : e.fragmentation = false) :
    q.dequeue type = some (some ⟨if e.hdrType = .generic then some e.hdr else none, none,
      e.packet.bytes⟩, q.without before after e.hdrType e.getSize) := by
  rw [dequeue, if_neg h.not_isEmpty]
  simp only [h.front, h.pop, if_pos hfrag, discount_bytes, without]

theorem Heads.dequeue_last (h : q.Heads type before e after) (hmatches : Matches e current)
    (hfrag : e.fragmentation = true) :
    q.dequeue type = some (some ⟨e.fragmentHdr (e.packet.bytes.length - e.fragmentOffset),
      some ⟨2, e.fragmentNumber % 256⟩, e.packet.bytes.drop e.fragmentOffset⟩,
      q.without before after e.hdrType (e.packet.bytes.length - e.fragmentOffset)) := by
  have hle := hmatches.offset_le
  have hfragment := e.packet.createFragment_eq
    (show e.fragmentOffset + (e.packet.bytes.length - e.fragmentOffset) ≤
      e.packet.bytes.length by omega)
  rw [← List.length_drop, List.take_length, List.length_drop] at hfragment
  rw [dequeue, if_neg h.not_isEmpty]
  simp only [h.front, h.pop, hfrag, Bool.true_eq_false, if_false, Packet.getSize,
    sub_of_le e.packet.small hle, hfragment, Option.map_some, discount_bytes, without]

/-- The offset stays before the last byte. -/
theorem Heads.fragment_lt (h : q.Heads type before e after) (hmatches : Matches e current)
    (hallows : q.Allows (.dequeueFragment type availableByte))
    (hmeets : q.Meets (.dequeueFragment type availableByte)) :
    8 < availableByte ∧ availableByte < 4294967296 ∧
      e.fragmentOffset + (availableByte - 8) < e.packet.bytes.length := by
  have hroom : 8 < availableByte := hmeets
  obtain ⟨-, hrequired, -⟩ := hallows
  have hsmall := e.packet.small
  have hhdr := e.hdrSize_le
  have hword : availableByte < 4294967296 := hrequired.trans add_lt
  refine ⟨hroom, hword, ?_⟩
  rw [getFirstPacketRequiredByte, add] at hrequired
  have hle := hrequired.trans_le (Nat.mod_le _ _)
  rw [getFirstPacketPayloadSize, getFirstPacketHdrSize, checkForFragmentation, h.front,
    Packet.getSize] at hle
  by_cases hfrag : e.fragmentation = true
  · rw [if_pos hfrag, if_pos hfrag, sub_of_le hsmall hmatches.offset_le] at hle
    omega
  · have hzero : e.fragmentOffset = 0 := by
      rw [hmatches.offset, hmatches.current_eq_nil (Bool.eq_false_iff.mpr hfrag)]
      rfl
    rw [if_neg hfrag, if_neg hfrag] at hle
    omega

theorem Heads.dequeueFragment_eq (h : q.Heads type before e after) (hmatches : Matches e current)
    (hallows : q.Allows (.dequeueFragment type availableByte))
    (hmeets : q.Meets (.dequeueFragment type availableByte)) :
    q.dequeueFragment type availableByte = some (some ⟨e.fragmentHdr (availableByte - 8),
      some ⟨if e.fragmentation = false then 1 else 3, e.fragmentNumber % 256⟩,
      (e.packet.bytes.drop e.fragmentOffset).take (availableByte - 8)⟩,
      { q with
        queue := before ++ advanced e (availableByte - 8) :: after
        bytes := sub q.bytes (availableByte - 8) }) := by
  obtain ⟨hroom, hword, hlt⟩ := h.fragment_lt hmatches hallows hmeets
  have hmax : sub availableByte (2 + e.hdr.getSerializedSize + e.hdrType.getSerializedSize) =
      availableByte - 8 := sub_of_le hword hroom.le
  have hset := (Heads.mk (q := { q with bytes := sub q.bytes (availableByte - 8) }) h.queue
    h.first).set (availableByte - 8)
  rw [dequeueFragment, if_neg h.not_isEmpty]
  simp only [h.front, hmax, Packet.createFragment_eq hlt.le, Option.map_some, hset]

end WimaxMacQueue

/-! ## Runs -/

section Queues
variable {type : HeaderType} {before after : List QueueElement} {e e' : QueueElement}

theorem length_ofType_replace (h : e'.hdrType = e.hdrType) :
    (ofType type (before ++ e' :: after)).length = (ofType type (before ++ e :: after)).length := by
  by_cases htype : e.hdrType = type
  · simp [ofType, List.filter_append, htype, h.trans htype]
  · rw [ofType_other htype, ofType_other (by rwa [h])]

theorem total_first : total (before ++ e :: after) = total (before ++ after) + e.pending := by
  rw [total_append, total_append, total_cons]
  omega

theorem Matches.pending {current : List Pdu} (h : Matches e current) :
    e.pending + e.fragmentOffset = e.hdrSize + e.packet.bytes.length := by
  have hle := h.offset_le
  rw [QueueElement.pending]
  omega

theorem Transmission.exists_matches {stored : List Bytes} {taken : List Pdu}
    {waiting : List QueueElement} (h : Transmission stored taken (e :: waiting)) :
    ∃ current, Matches e current := by
  obtain ⟨finished, groups, current, -, -, -, hheld⟩ := h
  exact ⟨current, hheld.1⟩

theorem filterMap_concat {α : Type} (f : Event → Option α) (events : List Event) (event : Event) :
    (events ++ [event]).filterMap f = events.filterMap f ++ (f event).toList := by
  rw [List.filterMap_append, List.filterMap_cons, List.filterMap_nil]
  cases f event <;> rfl

end Queues

namespace WimaxMacQueue
variable {q q' : WimaxMacQueue} {type : HeaderType} {before after : List QueueElement}
  {e d : QueueElement} {events : List Event}

theorem Counted.without (h : q.Counted) (hheads : q.Heads type before e after) (size : ℕ) :
    (q.without before after e.hdrType size).Counted := by
  obtain ⟨hlength, hmax, hdata, hrequest⟩ := h
  have hword : q.queue.length < 4294967296 := hlength.trans_lt hmax
  have hgeneric : (ofType .generic q.queue).length ≤ q.queue.length := List.length_filter_le _ _
  have hbandwidth : (ofType .bandwidth q.queue).length ≤ q.queue.length := List.length_filter_le _ _
  have hfirst := hheads.ofType_eq
  rw [hheads.queue] at hlength hfirst hdata hrequest hgeneric hbandwidth hword
  have hshorter : (before ++ after).length ≤ q.maxSize := by
    rw [List.length_append] at hlength ⊢
    rw [List.length_cons] at hlength
    omega
  have htype := hheads.first.hdrType
  cases type with
  | generic =>
    have hother : e.hdrType ≠ .bandwidth := by rw [htype]; decide
    rw [hfirst, List.length_cons] at hdata hgeneric
    rw [ofType_other hother] at hrequest
    rw [htype]
    exact ⟨hshorter, hmax, by
      change sub q.nrDataPackets 1 = (ofType .generic (before ++ after)).length
      rw [hheads.first.ofType_pop, hdata, sub_of_le (by omega) (by omega), Nat.add_sub_cancel],
      hrequest⟩
  | bandwidth =>
    have hother : e.hdrType ≠ .generic := by rw [htype]; decide
    rw [hfirst, List.length_cons] at hrequest hbandwidth
    rw [ofType_other hother] at hdata
    rw [htype]
    exact ⟨hshorter, hmax, hdata, by
      change sub q.nrRequestPackets 1 = (ofType .bandwidth (before ++ after)).length
      rw [hheads.first.ofType_pop, hrequest, sub_of_le (by omega) (by omega), Nat.add_sub_cancel]⟩

theorem Counted.replace (h : q.Counted) (hheads : q.Heads type before e after)
    (hsame : d.hdrType = e.hdrType) (bytes : ℕ) :
    { q with queue := before ++ d :: after, bytes := bytes }.Counted := by
  obtain ⟨hlength, hmax, hdata, hrequest⟩ := h
  rw [hheads.queue] at hlength hdata hrequest
  refine ⟨?_, hmax, ?_, ?_⟩
  · rw [List.length_append, List.length_cons] at hlength ⊢
    exact hlength
  · rw [length_ofType_replace hsame]
    exact hdata
  · rw [length_ofType_replace hsame]
    exact hrequest

/-- What holds after every call that meets the condition. -/
structure Inv (events : List Event) (q : WimaxMacQueue) : Prop where
  counted : q.Counted
  bytes : q.bytes = total q.queue
  small : total q.queue < 4294967296
  transmission : ∀ type, Transmission (events.filterMap (Event.stored type))
    (events.filterMap (Event.taken type)) (ofType type q.queue)
  fits : ∀ event ∈ events, event.Fits

theorem Inv.sound (h : Inv events q) : Sound events q where
  bytes := h.bytes
  transmits type := by
    obtain ⟨finished, groups, current, hstored, htaken, hwhole, hheld⟩ := h.transmission type
    exact ⟨finished, groups, current, hstored, htaken, hwhole, hheld.sending⟩
  fits := h.fits

theorem inv_create {maxSize : ℕ} (h : maxSize < 4294967296) : Inv [] (create maxSize) where
  counted := ⟨Nat.zero_le _, h, rfl, rfl⟩
  bytes := rfl
  small := by change 0 < 4294967296; decide
  transmission _ := ⟨[], [], [], rfl, rfl, .nil, rfl⟩
  fits _ hmem := absurd hmem List.not_mem_nil

theorem fits_concat {event : Event} (h : ∀ event ∈ events, event.Fits) (hevent : event.Fits) :
    ∀ event' ∈ events ++ [event], event'.Fits := by
  intro event' hmem
  rcases List.mem_append.mp hmem with hmem | hmem
  · exact h event' hmem
  · rw [List.mem_singleton.mp hmem]
    exact hevent

/-! ### Enqueue -/

section Enqueue
variable {packet : Packet} {hdrType : HeaderType} {hdr : GenericMacHeader}

theorem pending_create : (QueueElement.create packet hdrType hdr).pending =
    (QueueElement.create packet hdrType hdr).hdrSize + packet.bytes.length := rfl

@[simp] theorem count_queue : (q.count type).queue = q.queue := by
  cases type <;> simp [count]

@[simp] theorem count_maxSize : (q.count type).maxSize = q.maxSize := by
  cases type <;> simp [count]

@[simp] theorem count_bytes : (q.count type).bytes = q.bytes := by
  cases type <;> simp [count]

/-- The queue with one more element. -/
def extended (q : WimaxMacQueue) (e : QueueElement) : WimaxMacQueue :=
  { ({ q with queue := q.queue ++ [e] }.count e.hdrType) with bytes := add q.bytes e.getSize }

@[simp] theorem extended_queue : (q.extended e).queue = q.queue ++ [e] := count_queue

theorem enqueue_full (h : q.queue.length = q.maxSize) :
    q.enqueue packet hdrType hdr = (false, q) := if_pos h

theorem enqueue_stored (h : q.queue.length ≠ q.maxSize) :
    q.enqueue packet hdrType hdr = (true, q.extended (.create packet hdrType hdr)) := by
  rw [enqueue, if_neg h, extended]
  simp only [count_bytes]
  rfl

theorem Counted.extended (h : q.Counted) (hfull : q.queue.length ≠ q.maxSize) :
    (q.extended e).Counted := by
  obtain ⟨hlength, hmax, hdata, hrequest⟩ := h
  have hgeneric : (ofType .generic q.queue).length ≤ q.queue.length := List.length_filter_le _ _
  have hbandwidth : (ofType .bandwidth q.queue).length ≤ q.queue.length := List.length_filter_le _ _
  have hlonger : (q.extended e).queue.length ≤ (q.extended e).maxSize := by
    rw [extended_queue, WimaxMacQueue.extended, count_maxSize, List.length_append,
      List.length_singleton]
    exact Nat.lt_of_le_of_ne hlength hfull
  cases htype : e.hdrType with
  | generic =>
    refine ⟨hlonger, by simpa [WimaxMacQueue.extended] using hmax, ?_, ?_⟩
    · rw [extended_queue, WimaxMacQueue.extended, htype, count, if_pos rfl, hdata]
      rw [add_of_lt (by omega)]
      simp [ofType, htype]
    · rw [extended_queue, WimaxMacQueue.extended, htype, count, if_pos rfl, hrequest]
      simp [ofType, htype]
  | bandwidth =>
    refine ⟨hlonger, by simpa [WimaxMacQueue.extended] using hmax, ?_, ?_⟩
    · rw [extended_queue, WimaxMacQueue.extended, htype, count, if_neg (by decide), hdata]
      simp [ofType, htype]
    · rw [extended_queue, WimaxMacQueue.extended, htype, count, if_neg (by decide), hrequest]
      rw [add_of_lt (by omega)]
      simp [ofType, htype]

theorem total_extended : total (q.extended e).queue = total q.queue + e.pending := by
  rw [extended_queue, total_append, total_cons]
  rfl

theorem Inv.enqueue (h : Inv events q) (hmeets : q.Meets (.enqueue packet hdrType hdr)) :
    Inv (events ++ [⟨.enqueue packet hdrType hdr, .stored (q.enqueue packet hdrType hdr).1⟩])
      (q.enqueue packet hdrType hdr).2 := by
  by_cases hfull : q.queue.length = q.maxSize
  · rw [enqueue_full hfull]
    refine ⟨h.counted, h.bytes, h.small, fun type => ?_, fits_concat h.fits trivial⟩
    rw [filterMap_concat, filterMap_concat]
    simpa [Event.stored, Event.taken] using h.transmission type
  · have hsum := hmeets.resolve_left hfull
    rw [enqueue_stored hfull]
    refine ⟨h.counted.extended hfull, ?_, ?_, fun type => ?_, fits_concat h.fits trivial⟩
    · rw [total_extended, pending_create, ← h.bytes]
      rw [pending_create, ← h.bytes] at hsum
      rw [extended, QueueElement.getSize]
      change add q.bytes (add packet.bytes.length _) = _
      rw [add_of_lt (a := packet.bytes.length) (by omega), add_of_lt (by omega)]
      omega
    · rw [total_extended]
      exact hsum
    · rw [extended_queue, filterMap_concat, filterMap_concat]
      by_cases htype : hdrType = type
      · have hstore := (h.transmission type).store (matches_create packet hdrType hdr)
        simpa [Event.stored, Event.taken, htype, ofType, QueueElement.create] using hstore
      · simpa [Event.stored, Event.taken, htype, ofType, QueueElement.create] using
          h.transmission type

end Enqueue

/-! ### Dequeue -/

section Dequeue
variable {availableByte : ℕ} {pdu : Pdu} {call : Call} {reply : Reply}

/-- A PDU of one type says nothing about the other. -/
theorem Inv.transmission_other {type' : HeaderType} (h : Inv events q)
    (hheads : q.Heads type before e after) (hother : type ≠ type') :
    Transmission (events.filterMap (Event.stored type')) (events.filterMap (Event.taken type'))
      (ofType type' (before ++ after)) := by
  have htransmission := h.transmission type'
  rwa [hheads.queue, ofType_other (by rwa [hheads.first.hdrType])] at htransmission

theorem Inv.transmission_first (h : Inv events q) (hheads : q.Heads type before e after) :
    Transmission (events.filterMap (Event.stored type)) (events.filterMap (Event.taken type))
      (e :: ofType type after) := by
  have htransmission := h.transmission type
  rwa [hheads.ofType_eq] at htransmission

theorem Inv.total_eq (h : Inv events q) (hheads : q.Heads type before e after) :
    q.bytes = total (before ++ after) + e.pending := by
  rw [h.bytes, hheads.queue, total_first]

theorem Inv.bytes_lt (h : Inv events q) : q.bytes < 4294967296 := by
  rw [h.bytes]
  exact h.small

theorem without_queue (size : ℕ) : (q.without before after type size).queue = before ++ after :=
  discount_queue

/-- An element is taken away as a whole. -/
theorem Inv.taken (h : Inv events q) (hheads : q.Heads type before e after)
    (htransmits : Transmission (events.filterMap (Event.stored type))
      (events.filterMap (Event.taken type) ++ [pdu]) (ofType type after)) :
    Inv (events ++ [⟨.dequeue type, .taken (some pdu)⟩])
      (q.without before after e.hdrType e.pending) := by
  have hbytes := h.total_eq hheads
  have hword := h.bytes_lt
  refine ⟨h.counted.without hheads _, ?_, ?_, fun type' => ?_, fits_concat h.fits trivial⟩
  · rw [without_queue]
    change sub q.bytes e.pending = _
    rw [sub_of_le hword (by omega)]
    omega
  · rw [without_queue]
    omega
  · rw [without_queue, filterMap_concat, filterMap_concat]
    by_cases htype : type = type'
    · subst htype
      simpa [Event.stored, Event.taken, hheads.first.ofType_pop] using htransmits
    · simpa [Event.stored, Event.taken, htype] using h.transmission_other hheads htype

theorem Inv.dequeue (h : Inv events q) (hallows : q.Allows (.dequeue type))
    (hmeets : q.Meets (.dequeue type)) :
    ∃ r, q.dequeue type = some r ∧ Inv (events ++ [⟨.dequeue type, .taken r.1⟩]) r.2 := by
  obtain ⟨before, e, after, hheads⟩ := h.counted.exists_heads hallows
  have htransmission := h.transmission_first hheads
  obtain ⟨current, hmatches⟩ := htransmission.exists_matches
  rw [Meets, hheads.front] at hmeets
  obtain ⟨hne, hdata⟩ := hmeets
  have hpending := hmatches.pending
  have hle := hmatches.offset_le
  by_cases hfrag : e.fragmentation = true
  · -- The last fragment of a bandwidth request, which has no generic header.
    have hhdr : e.hdrSize = 0 := by
      rw [QueueElement.hdrSize, if_neg fun hgeneric => hdata ⟨hgeneric, hfrag⟩]
      rfl
    have hsize : e.packet.bytes.length - e.fragmentOffset = e.pending := by omega
    have htaken := h.taken hheads (htransmission.last (p := ⟨e.fragmentHdr e.pending, _, _⟩)
      hfrag rfl rfl)
    exact ⟨_, hheads.dequeue_last hmatches hfrag, by rwa [hsize]⟩
  · have hfalse : e.fragmentation = false := Bool.eq_false_iff.mpr hfrag
    have hsize : e.getSize = e.pending := by
      have hzero : e.fragmentOffset = 0 := by
        rw [hmatches.offset, hmatches.current_eq_nil hfalse]
        rfl
      have hbytes := h.total_eq hheads
      have hword := h.bytes_lt
      rw [QueueElement.getSize, Packet.getSize, add_of_lt (by omega)]
      omega
    have htaken := h.taken hheads (htransmission.whole (p := ⟨if e.hdrType = .generic then
      some e.hdr else none, none, e.packet.bytes⟩) hfalse rfl rfl hne)
    exact ⟨_, hheads.dequeue_whole hfalse, by rwa [hsize]⟩

theorem fragmentHdr_size (e : QueueElement) (size : ℕ) :
    ((e.fragmentHdr size).elim 0 GenericMacHeader.getSerializedSize) ≤ 6 := by
  rw [QueueElement.fragmentHdr]
  split
  · exact le_rfl
  · exact Nat.zero_le _

theorem Inv.dequeueFragment (h : Inv events q)
    (hallows : q.Allows (.dequeueFragment type availableByte))
    (hmeets : q.Meets (.dequeueFragment type availableByte)) :
    ∃ r, q.dequeueFragment type availableByte = some r ∧
      Inv (events ++ [⟨.dequeueFragment type availableByte, .taken r.1⟩]) r.2 := by
  obtain ⟨before, e, after, hheads⟩ := h.counted.exists_heads hallows.1
  have htransmission := h.transmission_first hheads
  obtain ⟨current, hmatches⟩ := htransmission.exists_matches
  obtain ⟨hroom, hword, hlt⟩ := hheads.fragment_lt hmatches hallows hmeets
  have hsmall := e.packet.small
  have hnumber := hmatches.number_le
  have hpending := hmatches.pending
  have hbytes := h.total_eq hheads
  have hbound := h.bytes_lt
  have hadvanced : (advanced e (availableByte - 8)).pending + (availableByte - 8) = e.pending := by
    change e.hdrSize + (e.packet.bytes.length - add e.fragmentOffset (availableByte - 8)) + _ = _
    rw [add_of_lt (by omega)]
    omega
  have hfirst : First type before (advanced e (availableByte - 8)) :=
    ⟨hheads.first.other, hheads.first.hdrType⟩
  refine ⟨_, hheads.dequeueFragment_eq hmatches hallows hmeets, h.counted.replace
    (d := advanced e (availableByte - 8)) hheads rfl _, ?_, ?_, fun type' => ?_,
    fits_concat h.fits fun p hp => ?_⟩
  · change sub q.bytes _ = total _
    rw [total_first, sub_of_le hbound (by omega)]
    omega
  · rw [total_first]
    omega
  · change Transmission _ _ (ofType type' (before ++ advanced e (availableByte - 8) :: after))
    rw [filterMap_concat, filterMap_concat]
    by_cases htype : type = type'
    · subst htype
      rw [hfirst.ofType_eq]
      have hmore := htransmission.more (d := advanced e (availableByte - 8))
        (p := ⟨e.fragmentHdr (availableByte - 8),
          some ⟨if e.fragmentation = false then 1 else 3, e.fragmentNumber % 256⟩,
          (e.packet.bytes.drop e.fragmentOffset).take (availableByte - 8)⟩) rfl
        fun current hmatches => hmatches.more rfl rfl (by omega) hlt rfl rfl
          (add_of_lt (by omega)) (add_of_lt (by omega))
      simpa [Event.stored, Event.taken] using hmore
    · rw [ofType_other (by rw [hfirst.hdrType]; exact htype)]
      simpa [Event.stored, Event.taken, htype] using h.transmission_other hheads htype
  · obtain rfl := Option.some.inj hp
    have hhdr := fragmentHdr_size e (availableByte - 8)
    change (e.fragmentHdr (availableByte - 8)).elim 0 _ + 2 +
      ((e.packet.bytes.drop e.fragmentOffset).take (availableByte - 8)).length ≤ _
    rw [List.length_take, List.length_drop]
    omega

theorem Inv.perform (h : Inv events q) (hallows : q.Allows call) (hmeets : q.Meets call) :
    ∃ reply q', q.perform call = some (reply, q') ∧ Inv (events ++ [⟨call, reply⟩]) q' := by
  cases call with
  | enqueue packet hdrType hdr => exact ⟨_, _, rfl, h.enqueue hmeets⟩
  | dequeue packetType =>
    obtain ⟨r, hr, hinv⟩ := h.dequeue hallows hmeets
    exact ⟨_, _, by rw [WimaxMacQueue.perform, hr, Option.map_some], hinv⟩
  | dequeueFragment packetType availableByte =>
    obtain ⟨r, hr, hinv⟩ := h.dequeueFragment hallows hmeets
    exact ⟨_, _, by rw [WimaxMacQueue.perform, hr, Option.map_some], hinv⟩

/-! ### Where the condition fails -/

/-- A call that is answered with an empty PDU. -/
theorem not_sound_of_empty {event : Event} (htaken : event.taken type = some pdu)
    (hempty : pdu.payload = []) : ¬Sound (events ++ [event]) q' := by
  intro hsound
  refine (hsound.transmits type).nonempty ?_ hempty
  rw [filterMap_concat, htaken]
  exact List.mem_append_right _ List.mem_cons_self

theorem not_sound_enqueue {packet : Packet} {hdrType : HeaderType} {hdr : GenericMacHeader}
    (hmeets : ¬q.Meets (.enqueue packet hdrType hdr)) :
    ¬Sound (events ++ [⟨.enqueue packet hdrType hdr, reply⟩]) (q.enqueue packet hdrType hdr).2 := by
  intro hsound
  obtain ⟨hfull, hsum⟩ := not_or.mp hmeets
  have hbytes := hsound.bytes
  rw [enqueue_stored hfull] at hbytes
  have hword : (q.extended (.create packet hdrType hdr)).bytes < 4294967296 := add_lt
  rw [hbytes, total_extended] at hword
  exact hsum hword

theorem Inv.not_sound_dequeue {r : Option Pdu × WimaxMacQueue} (h : Inv events q)
    (hallows : q.Allows (.dequeue type)) (hmeets : ¬q.Meets (.dequeue type))
    (hdequeue : q.dequeue type = some r) :
    ¬Sound (events ++ [⟨.dequeue type, .taken r.1⟩]) r.2 := by
  obtain ⟨before, e, after, hheads⟩ := h.counted.exists_heads hallows
  obtain ⟨current, hmatches⟩ := (h.transmission_first hheads).exists_matches
  rw [Meets, hheads.front, not_and_or, not_not, not_not] at hmeets
  have hpending := hmatches.pending
  by_cases hfrag : e.fragmentation = true
  · have hunsent := hmatches.unsent (hmatches.fragmentation.mp hfrag)
    have hgeneric : e.hdrType = .generic := by
      refine (hmeets.resolve_left fun hnil => ?_).1
      rw [hnil, List.length_nil] at hunsent
      omega
    have hhdr : e.hdrSize = 6 := by
      rw [QueueElement.hdrSize, if_pos hgeneric]
      rfl
    rw [hheads.dequeue_last hmatches hfrag] at hdequeue
    cases hdequeue
    -- The six bytes of the generic header stay in the counter.
    intro hsound
    have hbytes := hsound.bytes
    have htotal := h.total_eq hheads
    have hword := h.bytes_lt
    rw [without_queue] at hbytes
    change sub q.bytes _ = _ at hbytes
    rw [sub_of_le hword (by omega)] at hbytes
    omega
  · have hnil := hmeets.resolve_right fun hdata => hfrag hdata.2
    rw [hheads.dequeue_whole (Bool.eq_false_iff.mpr hfrag)] at hdequeue
    cases hdequeue
    exact not_sound_of_empty (if_pos rfl) hnil

theorem Inv.not_sound_dequeueFragment {r : Option Pdu × WimaxMacQueue} (h : Inv events q)
    (hallows : q.Allows (.dequeueFragment type availableByte))
    (hmeets : ¬q.Meets (.dequeueFragment type availableByte))
    (hdequeue : q.dequeueFragment type availableByte = some r) :
    ¬Sound (events ++ [⟨.dequeueFragment type availableByte, .taken r.1⟩]) r.2 := by
  obtain ⟨before, e, after, hheads⟩ := h.counted.exists_heads hallows.1
  obtain ⟨current, hmatches⟩ := (h.transmission_first hheads).exists_matches
  have hroom : availableByte ≤ 8 := Nat.le_of_not_lt hmeets
  have hle := hmatches.offset_le
  have hsmall := e.packet.small
  have hmax : sub availableByte (2 + e.hdr.getSerializedSize + e.hdrType.getSerializedSize) =
      sub availableByte 8 := rfl
  rw [WimaxMacQueue.dequeueFragment, if_neg hheads.not_isEmpty] at hdequeue
  simp only [hheads.front, hmax] at hdequeue
  -- The number of bytes wraps around: the fragment is empty, or too long.
  have hwrap : sub availableByte 8 = 0 ∨ sub availableByte 8 + 8 = availableByte + 4294967296 := by
    rw [sub]
    omega
  generalize sub availableByte 8 = size at hdequeue hwrap
  obtain ⟨fragment, hfragment, rfl⟩ := Option.map_eq_some_iff.mp hdequeue
  have hshort : fragment = [] ∨ availableByte < fragment.length := by
    rw [Packet.createFragment, Packet.getSize] at hfragment
    by_cases hadd : add e.fragmentOffset size ≤ e.packet.bytes.length
    · rw [if_pos hadd] at hfragment
      have hlength := congrArg List.length (Option.some.inj hfragment)
      rw [Packet.removeAtEnd, List.length_take, List.length_drop, sub_of_le hsmall hadd] at hlength
      rw [add] at hlength hadd
      rw [← List.length_eq_zero_iff]
      omega
    · rw [if_neg hadd] at hfragment
      cases hfragment
  rcases hshort with hempty | hlong
  · exact not_sound_of_empty (if_pos rfl) hempty
  · intro hsound
    have hfits := hsound.fits _ (List.mem_append_right _ List.mem_cons_self) _ rfl
    rw [Pdu.getSize] at hfits
    exact absurd (hfits.trans_lt hlong) (by change ¬_ + fragment.length < fragment.length; omega)

theorem Inv.not_sound (h : Inv events q) (hallows : q.Allows call) (hmeets : ¬q.Meets call)
    (hperform : q.perform call = some (reply, q')) : ¬Sound (events ++ [⟨call, reply⟩]) q' := by
  cases call with
  | enqueue packet hdrType hdr =>
    cases hperform
    exact not_sound_enqueue hmeets
  | dequeue packetType =>
    obtain ⟨r, hr, hreply⟩ := Option.map_eq_some_iff.mp hperform
    cases hreply
    exact h.not_sound_dequeue hallows hmeets hr
  | dequeueFragment packetType availableByte =>
    obtain ⟨r, hr, hreply⟩ := Option.map_eq_some_iff.mp hperform
    cases hreply
    exact h.not_sound_dequeueFragment hallows hmeets hr

end Dequeue

theorem Serves.sound {calls : List Call} (h : q.Serves events calls) : Sound events q := by
  cases calls with
  | nil => exact h
  | cons => exact h.1

theorem Inv.serves_iff {calls : List Call} (h : Inv events q) (hallows : q.Always Allows calls) :
    q.Serves events calls ↔ q.Always Meets calls := by
  induction calls generalizing q events with
  | nil => exact iff_of_true h.sound trivial
  | cons call calls ih =>
    obtain ⟨hallow, hlater⟩ := hallows
    constructor
    · intro hserves
      obtain ⟨-, reply, q', hperform, hrest⟩ := hserves
      have hmeets : q.Meets call := by
        by_contra hnot
        exact h.not_sound hallow hnot hperform hrest.sound
      refine ⟨hmeets, fun r hr => ?_⟩
      obtain ⟨reply₁, q₁, hperform₁, hinv⟩ := h.perform hallow hmeets
      rw [hperform] at hr hperform₁
      cases hr
      cases hperform₁
      exact (ih hinv (hlater _ hperform)).mp hrest
    · intro halways
      obtain ⟨hmeets, hrest⟩ := halways
      obtain ⟨reply, q', hperform, hinv⟩ := h.perform hallow hmeets
      exact ⟨h.sound, reply, q', hperform,
        (ih hinv (hlater _ hperform)).mpr (hrest _ hperform)⟩

/-- In the calls that the scheduler makes, the queue transmits the packets and counts the bytes
exactly as long as each call meets the condition. -/
theorem serves_create_iff {maxSize : ℕ} (hsize : maxSize < 4294967296) {calls : List Call}
    (hallows : (create maxSize).Always Allows calls) :
    (create maxSize).Serves [] calls ↔ (create maxSize).Always Meets calls :=
  (inv_create hsize).serves_iff hallows

instance (call : Call) : Decidable (q.Allows call) :=
  match call with
  | .enqueue .. => isTrue trivial
  | .dequeue _ => inferInstanceAs (Decidable (_ = false))
  | .dequeueFragment .. => inferInstanceAs (Decidable (_ = false ∧ _ < _ ∧ _ < _))

instance (call : Call) : Decidable (q.Meets call) :=
  match call with
  | .enqueue .. => inferInstanceAs (Decidable (_ = _ ∨ _ < _))
  | .dequeue _ => inferInstanceAs (Decidable (_ ≠ [] ∧ ¬(_ = _ ∧ _ = _)))
  | .dequeueFragment .. => inferInstanceAs (Decidable (_ < _))

instance decidableAlways (P : WimaxMacQueue → Call → Prop) [∀ q call, Decidable (P q call)] :
    ∀ (q : WimaxMacQueue) (calls : List Call), Decidable (q.Always P calls)
  | _, [] => isTrue trivial
  | q, call :: calls =>
    have : ∀ q' : WimaxMacQueue, Decidable (q'.Always P calls) := fun q' =>
      decidableAlways P q' calls
    inferInstanceAs (Decidable (P q call ∧ ∀ r ∈ q.perform call, r.2.Always P calls))

/-- Twenty bytes of data, of which a fragment is sent between two bandwidth requests. -/
def sampleCalls : List Call :=
  [.enqueue ⟨List.replicate 20 0, by decide⟩ .generic ⟨0, 26, 1⟩,
    .enqueue ⟨List.replicate 6 1, by decide⟩ .bandwidth ⟨0, 0, 1⟩, .dequeue .bandwidth,
    .dequeueFragment .generic 12, .enqueue ⟨List.replicate 6 2, by decide⟩ .bandwidth ⟨0, 0, 1⟩,
    .dequeue .bandwidth, .dequeueFragment .generic 12]

theorem serves_sampleCalls : (create 4).Serves [] sampleCalls :=
  (serves_create_iff (by decide) (by decide +kernel)).mpr (by decide +kernel)

/-- The generic header of a packet that was sent in fragments is never taken off the counter. -/
theorem not_serves_create : ¬∀ (maxSize : ℕ) (calls : List Call), maxSize < 4294967296 →
    (create maxSize).Always Allows calls → (create maxSize).Serves [] calls := by
  intro hall
  have hallows : (create 4).Always Allows (sampleCalls ++ [.dequeue .generic]) := by decide +kernel
  have hmeets : ¬(create 4).Always Meets (sampleCalls ++ [.dequeue .generic]) := by decide +kernel
  exact hmeets (((inv_create (by decide)).serves_iff hallows).mp (hall 4 _ (by decide) hallows))

end WimaxMacQueue

end Ns3Noc.Wimax
