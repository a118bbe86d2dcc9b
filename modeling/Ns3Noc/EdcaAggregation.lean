import Ns3Noc.MsduAggregation

/-!
# The A-MSDUs of an EDCA queue

The part of `EdcaTxopN::NotifyAccessGranted` that adds queued packets to the current one.
-/
namespace Ns3Noc.Wifi.Amsdu
open AlignedStreams Fragmentation WhileLoops

local instance neZeroTids : NeZero 16 := ⟨by decide⟩

local instance neZeroSequences : NeZero 4096 := ⟨by decide⟩

inductive TypeOfStation where
  | sta
  | ap
  | adhocSta
  deriving DecidableEq, Repr

structure MacHeader extends WifiMacHeader where
  addr3 : Mac48Address
  amsduPresent : Bool
  deriving DecidableEq, Repr

def isBroadcast (address : Mac48Address) : Bool := address = BitVec.allOnes 48

/-- Which packet it is, and its bytes. One packet can be queued several times. -/
structure PacketPtr where
  address : ℕ
  content : Packet
  deriving DecidableEq, Repr

structure Item where
  packet : PacketPtr
  hdr : MacHeader
  tstamp : ℤ
  deriving DecidableEq, Repr

structure WifiMacQueue where
  maxDelay : ℤ
  queue : List Item
  deriving DecidableEq, Repr

namespace WifiMacQueue
variable (queue : WifiMacQueue)

def cleanup (now : ℤ) : WifiMacQueue :=
  { queue with queue := queue.queue.filter fun i => i.tstamp + queue.maxDelay > now }

/-- `PeekByTidAndAddress` with `ADDR1`, without the cleanup -/
def findByTidAndAddress (tid : ℕ) (dest : Mac48Address) : Option Item :=
  queue.queue.find? fun it => it.hdr.isQosData && it.hdr.addr1 = dest && it.hdr.qosTid = tid

def peekByTidAndAddress (now : ℤ) (tid : ℕ) (dest : Mac48Address) : WifiMacQueue × Option Item :=
  (queue.cleanup now, (queue.cleanup now).findByTidAndAddress tid dest)

/-- The item that `Remove` erases -/
def find (packet : PacketPtr) : Option Item := queue.queue.find? fun it => it.packet = packet

def remove (packet : PacketPtr) : WifiMacQueue :=
  { queue with queue := queue.queue.eraseP fun it => it.packet = packet }

end WifiMacQueue

structure EdcaTxopN where
  typeOfStation : TypeOfStation
  queue : WifiMacQueue
  /-- The `MaxAmsduSize` of the aggregator, where there is one -/
  aggregator : Option UInt32
  currentPacket : Packet
  currentHdr : MacHeader
  bssid : Mac48Address
  deriving DecidableEq, Repr

/-- The variables of the aggregation, and the items removed by it so far -/
structure Aggregation where
  queue : WifiMacQueue
  currentAggregatedPacket : Packet
  isAmsdu : Bool
  removed : List Item
  deriving DecidableEq, Repr

namespace EdcaTxopN
variable (txop : EdcaTxopN) (now : ℤ) (maxAmsduLength : UInt32)

def mapSrcAddressForAggregation (hdr : MacHeader) : Mac48Address :=
  if txop.typeOfStation = .sta ∨ txop.typeOfStation = .adhocSta then hdr.addr2 else hdr.addr3

def mapDestAddressForAggregation (hdr : MacHeader) : Mac48Address :=
  if txop.typeOfStation = .ap ∨ txop.typeOfStation = .adhocSta then hdr.addr1 else hdr.addr3

def msdu (packet : Packet) (hdr : MacHeader) : Msdu :=
  ⟨packet, txop.mapSrcAddressForAggregation hdr, txop.mapDestAddressForAggregation hdr⟩

def peek (queue : WifiMacQueue) : WifiMacQueue × Option Item :=
  queue.peekByTidAndAddress now txop.currentHdr.qosTid txop.currentHdr.addr1

/-- The limit of the aggregator and the first item, where an aggregation is tried -/
def mayAggregate : Option (UInt32 × Item) :=
  if txop.currentHdr.isQosData then
    (txop.peek now txop.queue).2.bind fun peeked =>
      if isBroadcast txop.currentHdr.addr1 || txop.currentHdr.ctrlRetry then none
      else txop.aggregator.map fun maxAmsduLength => (maxAmsduLength, peeked)
  else none

/-- The current packet is added first, with the addresses of the first item. Nothing looks at
whether it was accepted. -/
def startAggregation (peeked : Item) : Aggregation where
  queue := txop.queue.cleanup now
  currentAggregatedPacket :=
    (aggregate maxAmsduLength (txop.msdu txop.currentPacket peeked.hdr) []).getD []
  isAmsdu := false
  removed := []

def aggregationTurn (s : Aggregation) : Turn Aggregation :=
  let (queue, peeked) := txop.peek now s.queue
  match peeked with
  | none => .ends { s with queue := queue }
  | some it =>
    match aggregate maxAmsduLength (txop.msdu it.packet.content it.hdr)
        s.currentAggregatedPacket with
    | none => .ends { s with queue := queue }
    | some currentAggregatedPacket =>
      .again ⟨queue.remove it.packet, currentAggregatedPacket, true,
        s.removed ++ (queue.find it.packet).toList⟩

/-- What is sent after the loop -/
def afterAggregation (s : Aggregation) : EdcaTxopN :=
  if s.isAmsdu then
    { txop with
      queue := s.queue
      currentHdr := { txop.currentHdr with
        amsduPresent := true
        addr3 := txop.bssid }
      currentPacket := s.currentAggregatedPacket }
  else { txop with queue := s.queue }

/-- The current packet and those taken from the queue, each with the addresses of its own header -/
def ownMsdus (removed : List Item) : List Msdu :=
  txop.msdu txop.currentPacket txop.currentHdr ::
    removed.map fun it => txop.msdu it.packet.content it.hdr

/-- A built aggregate is no longer than the limit, and gives back the current packet and those taken
from the queue. -/
def LosesNothing : Prop :=
  ∀ maxAmsduLength peeked, txop.mayAggregate now = some (maxAmsduLength, peeked) →
    ∃ s, Ends (txop.aggregationTurn now maxAmsduLength)
        (txop.startAggregation now maxAmsduLength peeked) s ∧
      (s.isAmsdu = true →
        (txop.afterAggregation s).currentPacket.length ≤ maxAmsduLength.toNat ∧
        DeaggregatesTo (txop.afterAggregation s).currentPacket (txop.ownMsdus s.removed))

/-- A packet of this size is accepted behind so many bytes. -/
def Fits (maxAmsduLength : UInt32) (size bytes : ℕ) : Prop :=
  Fragmentation.uint32 (14 + size + bytes + padding 4 bytes) ≤ maxAmsduLength.toNat

instance (size bytes : ℕ) : Decidable (Fits maxAmsduLength size bytes) :=
  inferInstanceAs (Decidable (_ ≤ _))

/-- The items that fit one after the other behind so many bytes, each with the item that is erased
for it: another one where its packet is queued several times. -/
def taken : ℕ → ℕ → WifiMacQueue → List (Item × Item)
  | 0, _, _ => []
  | fuel + 1, bytes, queue =>
    let (queue, peeked) := txop.peek now queue
    match peeked with
    | none => []
    | some it =>
      if Fits maxAmsduLength it.packet.content.length bytes then
        (it, (queue.find it.packet).getD it) ::
          taken fuel (bytes + padding 4 bytes + (14 + it.packet.content.length))
            (queue.remove it.packet)
      else []

/-- The items that fit behind the current packet. -/
def takenItems : List (Item × Item) :=
  txop.taken now maxAmsduLength (txop.queue.queue.length + 1)
    (if Fits maxAmsduLength txop.currentPacket.length 0 then 14 + txop.currentPacket.length else 0)
    (txop.queue.cleanup now)

/-- The current packet is not too long while another one is not, the addresses of the first item
are its own, every item erased has the addresses of the one that it is erased for, and no length is
too long for its field. -/
structure Aggregates (peeked : Item) : Prop where
  fits : Fits maxAmsduLength txop.currentPacket.length 0
  addresses : txop.msdu txop.currentPacket peeked.hdr = txop.msdu txop.currentPacket txop.currentHdr
  erased : ∀ x ∈ txop.takenItems now maxAmsduLength,
    txop.msdu x.2.packet.content x.2.hdr = txop.msdu x.1.packet.content x.1.hdr
  current_lt : txop.currentPacket.length < 65536
  taken_lt : ∀ x ∈ txop.takenItems now maxAmsduLength, x.1.packet.content.length < 65536
  amsduLength_lt : amsduLength (txop.currentPacket.length ::
    (txop.takenItems now maxAmsduLength).map fun x => x.1.packet.content.length) < 4294967296

section Taken

variable {txop now maxAmsduLength} {fuel bytes : ℕ} {queue : WifiMacQueue}
  {it : Item} {items : List (Item × Item)}

theorem mem_of_peek (h : (txop.peek now queue).2 = some it) : it ∈ (queue.cleanup now).queue :=
  List.mem_of_find?_eq_some h

/-- `Remove` finds an item with the same packet. -/
theorem exists_find (h : it ∈ queue.queue) :
    ∃ found, queue.find it.packet = some found ∧ found.packet = it.packet := by
  have hsome : (queue.find it.packet).isSome := by
    rw [WifiMacQueue.find, List.find?_isSome]
    exact ⟨it, h, by simp⟩
  obtain ⟨found, hfound⟩ := Option.isSome_iff_exists.mp hsome
  exact ⟨found, hfound, by simpa using List.find?_some hfound⟩

theorem length_remove (h : it ∈ queue.queue) :
    (queue.remove it.packet).queue.length = queue.queue.length - 1 :=
  List.length_eraseP_of_mem h (by simp)

theorem length_cleanup_le (now : ℤ) (queue : WifiMacQueue) :
    (queue.cleanup now).queue.length ≤ queue.queue.length :=
  List.length_filter_le _ _

theorem taken_packet {x : Item × Item} (hx : x ∈ txop.taken now maxAmsduLength fuel bytes queue) :
    x.2.packet = x.1.packet := by
  induction fuel generalizing bytes queue with
  | zero => cases hx
  | succ fuel ih =>
    rw [taken] at hx
    dsimp only at hx
    split at hx
    · cases hx
    · next it hit =>
      split at hx
      · rcases List.mem_cons.mp hx with rfl | hx
        · obtain ⟨found, hfound, hpacket⟩ := exists_find (mem_of_peek hit)
          have hqueue : (txop.peek now queue).1 = queue.cleanup now := rfl
          rw [hqueue, hfound]
          exact hpacket
        · exact ih hx
      · cases hx

theorem aggregate_of_fits (msdus : List Msdu) (msdu : Msdu)
    (h : Fits maxAmsduLength msdu.packet.length (amsdu msdus).length) :
    aggregate maxAmsduLength msdu (amsdu msdus) = some (amsdu (msdus ++ [msdu])) ∧
      Fragmentation.uint32 (amsdu (msdus ++ [msdu])).length ≤ maxAmsduLength.toNat := by
  have haggregate : aggregate maxAmsduLength msdu (amsdu msdus) = some _ := if_pos h
  obtain ⟨hamsdu, hle⟩ := aggregate_amsdu haggregate
  rw [hamsdu] at haggregate hle
  exact ⟨haggregate, hle⟩

theorem aggregate_of_not_fits (msdus : List Msdu) (msdu : Msdu)
    (h : ¬Fits maxAmsduLength msdu.packet.length (amsdu msdus).length) :
    aggregate maxAmsduLength msdu (amsdu msdus) = none :=
  if_neg h

theorem length_amsdu_concat (msdus : List Msdu) (msdu : Msdu) :
    (amsdu (msdus ++ [msdu])).length = (amsdu msdus).length + padding 4 (amsdu msdus).length +
      (14 + msdu.packet.length) := by
  rw [amsdu, List.map_append, List.map_singleton, length_stream_concat (by decide),
    Msdu.length_subframe]
  rfl

/-- The loop adds the items that fit. -/
theorem exists_ends (hfuel : queue.queue.length < fuel) (msdus : List Msdu) (isAmsdu : Bool)
    (removed : List Item) (hle : Fragmentation.uint32 (amsdu msdus).length ≤ maxAmsduLength.toNat)
    (hitems : txop.taken now maxAmsduLength fuel (amsdu msdus).length queue = items) :
    ∃ s, Ends (txop.aggregationTurn now maxAmsduLength) ⟨queue, amsdu msdus, isAmsdu, removed⟩ s ∧
      s.currentAggregatedPacket =
        amsdu (msdus ++ items.map fun x => txop.msdu x.1.packet.content x.1.hdr) ∧
      Fragmentation.uint32 s.currentAggregatedPacket.length ≤ maxAmsduLength.toNat ∧
      s.removed = removed ++ items.map Prod.snd ∧
      (s.isAmsdu = true ↔ isAmsdu = true ∨ items ≠ []) := by
  induction fuel generalizing queue msdus isAmsdu removed items with
  | zero => exact absurd hfuel (Nat.not_lt_zero _)
  | succ fuel ih =>
    have hqueue : (txop.peek now queue).1 = queue.cleanup now := rfl
    rw [taken] at hitems
    dsimp only at hitems
    rw [hqueue] at hitems
    split at hitems
    · next hnone =>
      subst hitems
      refine ⟨⟨queue.cleanup now, amsdu msdus, isAmsdu, removed⟩, .here ?_, by simp, hle, by simp,
        by simp⟩
      simp only [aggregationTurn, hnone]
      rfl
    · next it hit =>
      have hmem := mem_of_peek hit
      split at hitems
      · next hfits =>
        obtain ⟨found, hfound, -⟩ := exists_find hmem
        obtain ⟨haggregate, hle'⟩ :=
          aggregate_of_fits msdus (txop.msdu it.packet.content it.hdr) hfits
        have hturn :
            txop.aggregationTurn now maxAmsduLength ⟨queue, amsdu msdus, isAmsdu, removed⟩ =
            .again ⟨(queue.cleanup now).remove it.packet,
              amsdu (msdus ++ [txop.msdu it.packet.content it.hdr]), true, removed ++ [found]⟩ := by
          simp only [aggregationTurn, hit, haggregate]
          rw [hqueue, hfound]
          rfl
        have hlength : ((queue.cleanup now).remove it.packet).queue.length < fuel := by
          have hcleanup := length_cleanup_le now queue
          have hpos := List.length_pos_of_mem hmem
          rw [length_remove hmem]
          omega
        obtain ⟨s, hends, hpacket, hlast, hremoved, hamsdu⟩ := ih hlength
          (msdus ++ [txop.msdu it.packet.content it.hdr]) true (removed ++ [found]) hle' rfl
        rw [length_amsdu_concat] at hpacket hremoved hamsdu
        subst hitems
        refine ⟨s, hends.again hturn, ?_, hlast, ?_, ?_⟩
        · rw [hpacket, List.append_assoc]
          rfl
        · rw [hremoved, hfound, List.append_assoc]
          rfl
        · rw [hamsdu]
          simp
      · next hfits =>
        have haggregate := aggregate_of_not_fits msdus (txop.msdu it.packet.content it.hdr) hfits
        subst hitems
        refine ⟨⟨queue.cleanup now, amsdu msdus, isAmsdu, removed⟩, .here ?_, by simp, hle, by simp,
          by simp⟩
        simp only [aggregationTurn, hit, haggregate]
        rfl

end Taken

section Result

variable {txop now maxAmsduLength} {peeked : Item}

/-- The current packet with the addresses it is given, where it is accepted. -/
def first (txop : EdcaTxopN) (maxAmsduLength : UInt32) (peeked : Item) : List Msdu :=
  if Fits maxAmsduLength txop.currentPacket.length 0 then
    [txop.msdu txop.currentPacket peeked.hdr]
  else []

/-- What the aggregate holds. -/
def aggregatedMsdus (txop : EdcaTxopN) (now : ℤ) (maxAmsduLength : UInt32) (peeked : Item) :
    List Msdu :=
  txop.first maxAmsduLength peeked ++
    (txop.takenItems now maxAmsduLength).map fun x => txop.msdu x.1.packet.content x.1.hdr

theorem startAggregation_eq (txop : EdcaTxopN) (now : ℤ) (maxAmsduLength : UInt32) (peeked : Item) :
    txop.startAggregation now maxAmsduLength peeked =
        ⟨txop.queue.cleanup now, amsdu (txop.first maxAmsduLength peeked), false, []⟩ ∧
      (amsdu (txop.first maxAmsduLength peeked)).length =
        (if Fits maxAmsduLength txop.currentPacket.length 0 then 14 + txop.currentPacket.length
        else 0) ∧
      Fragmentation.uint32 (amsdu (txop.first maxAmsduLength peeked)).length ≤
        maxAmsduLength.toNat := by
  have hempty : amsdu [] = [] := rfl
  rw [startAggregation, first]
  by_cases hfits : Fits maxAmsduLength txop.currentPacket.length 0
  · obtain ⟨haggregate, hle⟩ := aggregate_of_fits [] (txop.msdu txop.currentPacket peeked.hdr) hfits
    rw [hempty] at haggregate
    rw [if_pos hfits, if_pos hfits, haggregate]
    exact ⟨rfl, Msdu.length_subframe _, hle⟩
  · have haggregate := aggregate_of_not_fits [] (txop.msdu txop.currentPacket peeked.hdr) hfits
    rw [hempty] at haggregate
    rw [if_neg hfits, if_neg hfits, haggregate]
    exact ⟨rfl, rfl, Nat.zero_le _⟩

theorem exists_ends_start (txop : EdcaTxopN) (now : ℤ) (maxAmsduLength : UInt32) (peeked : Item) :
    ∃ s, Ends (txop.aggregationTurn now maxAmsduLength)
        (txop.startAggregation now maxAmsduLength peeked) s ∧
      s.currentAggregatedPacket = amsdu (txop.aggregatedMsdus now maxAmsduLength peeked) ∧
      Fragmentation.uint32 s.currentAggregatedPacket.length ≤ maxAmsduLength.toNat ∧
      s.removed = (txop.takenItems now maxAmsduLength).map Prod.snd ∧
      (s.isAmsdu = true ↔ txop.takenItems now maxAmsduLength ≠ []) := by
  have hfuel : (txop.queue.cleanup now).queue.length < txop.queue.queue.length + 1 :=
    Nat.lt_succ_of_le (length_cleanup_le now txop.queue)
  obtain ⟨hstart, hlength, hle⟩ := txop.startAggregation_eq now maxAmsduLength peeked
  have hitems : txop.taken now maxAmsduLength (txop.queue.queue.length + 1)
      (amsdu (txop.first maxAmsduLength peeked)).length (txop.queue.cleanup now) =
      txop.takenItems now maxAmsduLength := by
    rw [hlength, takenItems]
  obtain ⟨s, hends, hpacket, hlast, hremoved, hamsdu⟩ := exists_ends hfuel
    (txop.first maxAmsduLength peeked) false [] hle hitems
  rw [hstart]
  exact ⟨s, hends, hpacket, hlast, hremoved, by simpa using hamsdu⟩

/-- The aggregate holds what it has to, and no length is too long, exactly under the condition. -/
theorem aggregates_iff (txop : EdcaTxopN) (now : ℤ) (maxAmsduLength : UInt32) (peeked : Item) :
    (txop.ownMsdus ((txop.takenItems now maxAmsduLength).map Prod.snd) =
        txop.aggregatedMsdus now maxAmsduLength peeked ∧
      (∀ m ∈ txop.aggregatedMsdus now maxAmsduLength peeked, m.packet.length < 65536) ∧
      (amsdu (txop.aggregatedMsdus now maxAmsduLength peeked)).length < 4294967296) ↔
      txop.Aggregates now maxAmsduLength peeked := by
  have hown : txop.ownMsdus ((txop.takenItems now maxAmsduLength).map Prod.snd) =
      txop.msdu txop.currentPacket txop.currentHdr ::
        (txop.takenItems now maxAmsduLength).map fun x =>
          txop.msdu x.2.packet.content x.2.hdr := by
    rw [ownMsdus, List.map_map]
    rfl
  by_cases hfits : Fits maxAmsduLength txop.currentPacket.length 0
  · have hall : txop.aggregatedMsdus now maxAmsduLength peeked =
        txop.msdu txop.currentPacket peeked.hdr ::
          (txop.takenItems now maxAmsduLength).map fun x =>
            txop.msdu x.1.packet.content x.1.hdr := by
      rw [aggregatedMsdus, first, if_pos hfits]
      rfl
    rw [hown, hall, List.cons.injEq, List.map_inj_left, length_amsdu, List.map_cons, List.map_map,
      List.forall_mem_cons, List.forall_mem_map]
    constructor
    · rintro ⟨⟨hcurrent, herased⟩, ⟨hlt, hlts⟩, hlength⟩
      exact ⟨hfits, hcurrent.symm, herased, hlt, hlts, hlength⟩
    · intro h
      exact ⟨⟨h.addresses.symm, h.erased⟩, ⟨h.current_lt, h.taken_lt⟩, h.amsduLength_lt⟩
  · -- the aggregate is one packet short
    have hall : txop.aggregatedMsdus now maxAmsduLength peeked =
        (txop.takenItems now maxAmsduLength).map fun x =>
          txop.msdu x.1.packet.content x.1.hdr := by
      rw [aggregatedMsdus, first, if_neg hfits, List.nil_append]
    constructor
    · rintro ⟨h, -⟩
      rw [hown, hall] at h
      have hlength := congrArg List.length h
      simp at hlength
    · exact fun h => absurd h.fits hfits

theorem losesNothing_iff (txop : EdcaTxopN) (now : ℤ) : txop.LosesNothing now ↔
    ∀ maxAmsduLength peeked, txop.mayAggregate now = some (maxAmsduLength, peeked) →
      txop.takenItems now maxAmsduLength ≠ [] → txop.Aggregates now maxAmsduLength peeked := by
  refine forall_congr' fun maxAmsduLength => forall_congr' fun peeked => imp_congr_right fun _ => ?_
  obtain ⟨s, hends, hpacket, hle, hremoved, hamsdu⟩ :=
    exists_ends_start txop now maxAmsduLength peeked
  have hcontents : ∀ m ∈ txop.aggregatedMsdus now maxAmsduLength peeked,
      ∃ m' ∈ txop.ownMsdus s.removed, m'.packet = m.packet := by
    intro m hm
    rcases List.mem_append.mp hm with hm | hm
    · rw [first] at hm
      split at hm
      · rw [List.mem_singleton.mp hm]
        exact ⟨_, List.mem_cons_self, rfl⟩
      · cases hm
    · obtain ⟨x, hx, rfl⟩ := List.mem_map.mp hm
      refine ⟨txop.msdu x.2.packet.content x.2.hdr, List.mem_cons_of_mem _ ?_, ?_⟩
      · rw [hremoved, List.map_map]
        exact List.mem_map_of_mem hx
      · exact congrArg PacketPtr.content (taken_packet hx)
  rw [hpacket] at hle
  have hiff := deaggregatesTo_amsdu_iff hcontents hle
  rw [hremoved, aggregates_iff, ← hremoved] at hiff
  constructor
  · rintro ⟨s', hends', h⟩ hitems
    obtain rfl := hends'.unique hends
    have hbuilt := hamsdu.mpr hitems
    have h := h hbuilt
    rw [afterAggregation, if_pos hbuilt, hpacket] at h
    exact hiff.mp h
  · intro h
    refine ⟨s, hends, fun hbuilt => ?_⟩
    rw [afterAggregation, if_pos hbuilt, hpacket]
    exact hiff.mpr (h (hamsdu.mp hbuilt))

/-- A station sends to two destinations behind one access point. -/
def twoDestinations : EdcaTxopN :=
  let hdr (dest : Mac48Address) : MacHeader :=
    ⟨⟨.data, 8, false, false, 2, 1, 0, 0, 0⟩, dest, false⟩
  ⟨.sta, ⟨10, [⟨⟨0, [5, 6]⟩, hdr 4, 0⟩]⟩, some 7935, [1, 2, 3], hdr 3, 2⟩

end Result

end EdcaTxopN

end Ns3Noc.Wifi.Amsdu
