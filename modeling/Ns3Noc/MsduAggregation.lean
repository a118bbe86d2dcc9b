import Ns3Noc.PaddedSections
import Ns3Noc.BigEndian
import Ns3Noc.WifiFragmentation

/-!
# Aggregation of MSDUs

`MsduStandardAggregator` fills up before it adds a subframe, `MsduAggregator` skips the filling
after it has taken one.
-/
namespace Ns3Noc.Wifi.Amsdu
open AlignedStreams BigEndian Fragmentation WhileLoops

structure AmsduSubframeHeader where
  da : Mac48Address
  sa : Mac48Address
  length : UInt16
  deriving DecidableEq, Repr

namespace AmsduSubframeHeader

/-- The length is written with its low byte first. -/
def serialize (hdr : AmsduSubframeHeader) : Packet :=
  toBytes 6 hdr.da.toNat ++ toBytes 6 hdr.sa.toNat ++ (toBytes 2 hdr.length.toNat).reverse

/-- Fails where the packet is shorter than a header. -/
def deserialize (packet : Packet) : Option (AmsduSubframeHeader × Packet) :=
  (readNumber 6 packet).bind fun (da, packet) =>
    (readNumber 6 packet).bind fun (sa, packet) =>
      if 2 ≤ packet.length then
        some (⟨BitVec.ofNat 48 da, BitVec.ofNat 48 sa,
          UInt16.ofNat (ofBytes (packet.take 2).reverse)⟩, packet.drop 2)
      else none

theorem length_serialize (hdr : AmsduSubframeHeader) : hdr.serialize.length = 14 := by
  simp [serialize]

theorem deserialize_serialize (hdr : AmsduSubframeHeader) (packet : Packet) :
    deserialize (hdr.serialize ++ packet) = some (hdr, packet) := by
  have hda : hdr.da.toNat < 256 ^ 6 := hdr.da.isLt
  have hsa : hdr.sa.toNat < 256 ^ 6 := hdr.sa.isLt
  have hlength : hdr.length.toNat < 256 ^ 2 := hdr.length.toNat_lt
  have hreverse : ((toBytes 2 hdr.length.toNat).reverse).length = 2 := by simp
  rw [deserialize, serialize, List.append_assoc, List.append_assoc, readNumber_toBytes hda]
  simp only [Option.bind_some]
  rw [readNumber_toBytes hsa]
  simp only [Option.bind_some]
  rw [if_pos (by simp), List.take_left' hreverse, List.drop_left' hreverse, List.reverse_reverse,
    ofBytes_toBytes hlength]
  simp

end AmsduSubframeHeader

/-- A packet with the addresses for its subframe. -/
structure Msdu where
  packet : Packet
  source : Mac48Address
  dest : Mac48Address
  deriving DecidableEq, Repr

def Msdu.header (msdu : Msdu) : AmsduSubframeHeader :=
  ⟨msdu.dest, msdu.source, UInt16.ofNat msdu.packet.length⟩

def Msdu.subframe (msdu : Msdu) : Packet := msdu.header.serialize ++ msdu.packet

@[simp] theorem Msdu.length_subframe (msdu : Msdu) :
    msdu.subframe.length = 14 + msdu.packet.length := by
  rw [subframe, List.length_append, AmsduSubframeHeader.length_serialize]

/-! ## `MsduStandardAggregator` -/

section Aggregate

def calculatePadding (packet : Packet) : ℕ := (4 - packet.length % 4) % 4

/-- `Aggregate`. Where the packet is not accepted nothing changes. -/
def aggregate (maxAmsduLength : UInt32) (msdu : Msdu) (aggregatedPacket : Packet) : Option Packet :=
  if Fragmentation.uint32 (14 + msdu.packet.length + aggregatedPacket.length +
      calculatePadding aggregatedPacket) ≤ maxAmsduLength.toNat then
    some (aggregatedPacket ++ List.replicate (calculatePadding aggregatedPacket) 0 ++ msdu.subframe)
  else none

/-- The aggregate of packets that are all accepted, from an empty one on. -/
def aggregateAll (maxAmsduLength : UInt32) (msdus : List Msdu) : Option Packet :=
  msdus.foldlM (fun aggregatedPacket msdu => aggregate maxAmsduLength msdu aggregatedPacket) []

/-- The aggregate of packets of any lengths. -/
def amsdu (msdus : List Msdu) : Packet := stream 4 0 (msdus.map Msdu.subframe)

/-- How long an aggregate of packets of these sizes is. -/
def amsduLength (sizes : List ℕ) : ℕ := streamLength 4 (sizes.map (14 + ·))

variable {maxAmsduLength : UInt32} {msdu : Msdu} {msdus : List Msdu} {aggregatedPacket : Packet}

theorem length_amsdu (msdus : List Msdu) :
    (amsdu msdus).length = amsduLength (msdus.map fun msdu => msdu.packet.length) := by
  rw [amsdu, length_stream, amsduLength, List.map_map, List.map_map]
  congr 1
  exact List.map_congr_left fun msdu _ => msdu.length_subframe

theorem aggregate_amsdu (h : aggregate maxAmsduLength msdu (amsdu msdus) = some aggregatedPacket) :
    aggregatedPacket = amsdu (msdus ++ [msdu]) ∧
      Fragmentation.uint32 aggregatedPacket.length ≤ maxAmsduLength.toNat := by
  obtain ⟨hfits, h⟩ := Option.ite_none_right_eq_some.mp h
  have hamsdu : aggregatedPacket = amsdu (msdus ++ [msdu]) := by
    rw [amsdu, List.map_append, List.map_singleton, stream_concat (by decide)]
    exact (Option.some.inj h).symm
  refine ⟨hamsdu, le_of_eq_of_le ?_ hfits⟩
  rw [hamsdu, amsdu, List.map_append, List.map_singleton, length_stream_concat (by decide),
    Msdu.length_subframe]
  congr 1
  have hpadding : calculatePadding (amsdu msdus) =
    padding 4 (stream 4 0 (msdus.map Msdu.subframe)).length := rfl
  rw [hpadding, amsdu]
  omega

theorem aggregateAll_concat (msdus : List Msdu) (msdu : Msdu) :
    aggregateAll maxAmsduLength (msdus ++ [msdu]) =
      (aggregateAll maxAmsduLength msdus).bind (aggregate maxAmsduLength msdu) := by
  rw [aggregateAll, List.foldlM_append]
  simp [aggregateAll, List.foldlM]

theorem aggregateAll_eq (h : aggregateAll maxAmsduLength msdus = some aggregatedPacket) :
    aggregatedPacket = amsdu msdus ∧
      Fragmentation.uint32 aggregatedPacket.length ≤ maxAmsduLength.toNat := by
  induction msdus using List.reverseRecOn generalizing aggregatedPacket with
  | nil =>
    obtain rfl := Option.some.inj h
    exact ⟨rfl, Nat.zero_le _⟩
  | append_singleton msdus msdu ih =>
    rw [aggregateAll_concat] at h
    obtain ⟨before, hbefore, h⟩ := Option.bind_eq_some_iff.mp h
    rw [(ih hbefore).1] at h
    exact aggregate_amsdu h

end Aggregate

/-! ## `MsduAggregator` -/

/-- The variables of the loop in `Deaggregate` -/
structure Deaggregation where
  deserialized : ℕ
  aggregatedPacket : Packet
  set : List (Packet × AmsduSubframeHeader)
  deriving DecidableEq, Repr

def deaggregateTurn (maxSize : ℕ) (s : Deaggregation) : Turn Deaggregation :=
  if s.deserialized < maxSize then
    match AmsduSubframeHeader.deserialize s.aggregatedPacket with
    | none => .fails
    | some (hdr, packet) =>
      match createFragment packet 0 hdr.length.toNat with
      | none => .fails
      | some extractedMsdu =>
        let packet := packet.drop hdr.length.toNat
        let deserialized := Fragmentation.uint32 (s.deserialized + 14 + hdr.length.toNat)
        let padding := (4 - (hdr.length.toNat + 14) % 4) % 4
        if padding > 0 ∧ deserialized < maxSize then
          .again ⟨Fragmentation.uint32 (deserialized + padding), packet.drop padding,
            s.set ++ [(extractedMsdu, hdr)]⟩
        else .again ⟨deserialized, packet, s.set ++ [(extractedMsdu, hdr)]⟩
  else .ends s

def msduOf (extracted : Packet × AmsduSubframeHeader) : Msdu :=
  ⟨extracted.1, extracted.2.sa, extracted.2.da⟩

/-- `Deaggregate` ends with these packets and addresses. -/
def DeaggregatesTo (aggregatedPacket : Packet) (msdus : List Msdu) : Prop :=
  ∃ s, Ends (deaggregateTurn (Fragmentation.uint32 aggregatedPacket.length))
      ⟨0, aggregatedPacket, []⟩ s ∧
    s.set.map msduOf = msdus

section Deaggregate

variable {maxSize d : ℕ} {msdu : Msdu} {msdus expected : List Msdu} {aggregatedPacket : Packet}

theorem Msdu.header_length (h : msdu.packet.length < 65536) :
    msdu.header.length.toNat = msdu.packet.length := by
  rw [header, UInt16.toNat_ofNat']
  exact Nat.mod_eq_of_lt h

theorem amsdu_cons_cons (first next : Msdu) (msdus : List Msdu) :
    amsdu (first :: next :: msdus) = first.subframe ++
      (List.replicate (padding 4 (14 + first.packet.length)) 0 ++ amsdu (next :: msdus)) := by
  rw [amsdu, List.map_cons, List.map_cons, stream, Msdu.length_subframe, List.append_assoc]
  rfl

theorem lt_length_amsdu (msdu : Msdu) (msdus : List Msdu) : 0 < (amsdu (msdu :: msdus)).length := by
  cases msdus with
  | nil =>
    have hamsdu : amsdu [msdu] = msdu.subframe := rfl
    rw [hamsdu, Msdu.length_subframe]
    omega
  | cons next msdus =>
    rw [amsdu_cons_cons, List.length_append, Msdu.length_subframe]
    omega

/-- A subframe is taken whole, with the filling behind it unless the aggregate is over. -/
theorem deaggregateTurn_subframe (hd : d < maxSize) (hlength : msdu.packet.length < 65536)
    (rest : Packet) (set : List (Packet × AmsduSubframeHeader)) :
    deaggregateTurn maxSize ⟨d, msdu.subframe ++ rest, set⟩ =
      if (4 - (msdu.packet.length + 14) % 4) % 4 > 0 ∧
          Fragmentation.uint32 (d + 14 + msdu.packet.length) < maxSize then
        .again ⟨Fragmentation.uint32 (Fragmentation.uint32 (d + 14 + msdu.packet.length) +
            (4 - (msdu.packet.length + 14) % 4) % 4),
          rest.drop ((4 - (msdu.packet.length + 14) % 4) % 4), set ++ [(msdu.packet, msdu.header)]⟩
      else
        .again ⟨Fragmentation.uint32 (d + 14 + msdu.packet.length), rest,
          set ++ [(msdu.packet, msdu.header)]⟩ := by
  have hfragment :
      createFragment (msdu.packet ++ rest) 0 msdu.packet.length = some msdu.packet := by
    have hfits : (msdu.packet ++ rest).length ≥ Fragmentation.uint32 (0 + msdu.packet.length) := by
      rw [Fragmentation.uint32, List.length_append]
      omega
    rw [createFragment, if_pos hfits, List.drop_zero, List.take_left]
  simp only [deaggregateTurn, if_pos hd, Msdu.subframe, List.append_assoc,
    AmsduSubframeHeader.deserialize_serialize, Msdu.header_length hlength, hfragment,
    List.drop_left]

/-- The run over an aggregate, subframe by subframe. -/
theorem leads_amsdu (hlengths : ∀ m ∈ msdu :: msdus, m.packet.length < 65536)
    (hsize : d + (amsdu (msdu :: msdus)).length = maxSize) (hmax : maxSize < 4294967296)
    (set : List (Packet × AmsduSubframeHeader)) :
    Leads (deaggregateTurn maxSize) ⟨d, amsdu (msdu :: msdus), set⟩
      ⟨maxSize, [], set ++ (msdu :: msdus).map fun m => (m.packet, m.header)⟩ := by
  have hlength := hlengths msdu List.mem_cons_self
  have hd : d < maxSize := by
    have hpos := lt_length_amsdu msdu msdus
    omega
  induction msdus generalizing msdu d set with
  | nil =>
    have hamsdu : amsdu [msdu] = msdu.subframe := rfl
    rw [hamsdu, Msdu.length_subframe] at hsize
    have hend : Fragmentation.uint32 (d + 14 + msdu.packet.length) = maxSize := by
      rw [Fragmentation.uint32]
      omega
    refine .single ?_
    have hturn := deaggregateTurn_subframe hd hlength [] set
    rw [List.append_nil, hend, if_neg (by omega)] at hturn
    rw [hamsdu, hturn]
    rfl
  | cons next msdus ih =>
    have hpos := lt_length_amsdu next msdus
    rw [amsdu_cons_cons, List.length_append, List.length_append, List.length_replicate,
      Msdu.length_subframe] at hsize
    have hpadding : (4 - (msdu.packet.length + 14) % 4) % 4 =
        padding 4 (14 + msdu.packet.length) := by
      rw [padding, Nat.add_comm]
    have hnext : Fragmentation.uint32 (d + 14 + msdu.packet.length) =
        d + 14 + msdu.packet.length := by
      rw [Fragmentation.uint32]
      omega
    have hskip : Fragmentation.uint32
        (d + 14 + msdu.packet.length + padding 4 (14 + msdu.packet.length)) =
        d + 14 + msdu.packet.length + padding 4 (14 + msdu.packet.length) := by
      rw [Fragmentation.uint32]
      omega
    have hturn : deaggregateTurn maxSize ⟨d, amsdu (msdu :: next :: msdus), set⟩ =
        .again ⟨d + 14 + msdu.packet.length + padding 4 (14 + msdu.packet.length),
          amsdu (next :: msdus), set ++ [(msdu.packet, msdu.header)]⟩ := by
      rw [amsdu_cons_cons, deaggregateTurn_subframe hd hlength _ set, hpadding, hnext, hskip]
      by_cases hzero : padding 4 (14 + msdu.packet.length) = 0
      · rw [if_neg (by omega), hzero]
        rfl
      · rw [if_pos (by omega), List.drop_left' List.length_replicate]
    refine .head hturn ?_
    have hrest := @ih (d + 14 + msdu.packet.length + padding 4 (14 + msdu.packet.length)) next
      (fun m hm => hlengths m (List.mem_cons_of_mem msdu hm)) (by omega)
      (set ++ [(msdu.packet, msdu.header)])
      (hlengths next (List.mem_cons_of_mem msdu List.mem_cons_self)) (by omega)
    rw [List.append_assoc, List.singleton_append] at hrest
    exact hrest

theorem deaggregatesTo_amsdu (hlengths : ∀ m ∈ msdus, m.packet.length < 65536)
    (hsize : (amsdu msdus).length < 4294967296) : DeaggregatesTo (amsdu msdus) msdus := by
  have hmax : Fragmentation.uint32 (amsdu msdus).length = (amsdu msdus).length :=
    Nat.mod_eq_of_lt hsize
  rw [DeaggregatesTo, hmax]
  cases msdus with
  | nil => exact ⟨_, .here rfl, rfl⟩
  | cons msdu msdus =>
    have hover (set : List (Packet × AmsduSubframeHeader)) :
        deaggregateTurn (amsdu (msdu :: msdus)).length ⟨(amsdu (msdu :: msdus)).length, [], set⟩ =
          .ends ⟨(amsdu (msdu :: msdus)).length, [], set⟩ :=
      if_neg (lt_irrefl _)
    refine ⟨_, (leads_amsdu hlengths (Nat.zero_add _) hsize []).ends (.here (hover _)), ?_⟩
    rw [List.nil_append, List.map_map]
    exact List.map_id' _

theorem deaggregateTurn_again {s s' : Deaggregation} (h : deaggregateTurn maxSize s = .again s') :
    ∃ extracted, s'.set = s.set ++ [extracted] ∧ extracted.1.length < 65536 := by
  rw [deaggregateTurn] at h
  split at h
  · split at h
    · cases h
    · next hdr packet _ =>
      split at h
      · cases h
      · next extractedMsdu hfragment =>
        obtain ⟨-, hfragment⟩ := Option.ite_none_right_eq_some.mp hfragment
        obtain rfl := Option.some.inj hfragment
        have hlength : ((packet.drop 0).take hdr.length.toNat).length < 65536 :=
          (List.length_take_le _ _).trans_lt hdr.length.toNat_lt
        dsimp only at h
        split at h
        · obtain rfl := Turn.again.inj h
          exact ⟨_, rfl, hlength⟩
        · obtain rfl := Turn.again.inj h
          exact ⟨_, rfl, hlength⟩
  · cases h

theorem deaggregateTurn_ends {s s' : Deaggregation} (h : deaggregateTurn maxSize s = .ends s') :
    s' = s := by
  rw [deaggregateTurn] at h
  split at h
  · split at h
    · cases h
    · split at h
      · cases h
      · dsimp only at h
        split at h <;> cases h
  · exact (Turn.ends.inj h).symm

/-- The length of a subframe has two bytes. -/
theorem DeaggregatesTo.length_lt (h : DeaggregatesTo aggregatedPacket expected) :
    ∀ m ∈ expected, m.packet.length < 65536 := by
  obtain ⟨s, hends, rfl⟩ := h
  have hshort := hends.induct
    (P := fun start => (∀ x ∈ start.set, x.1.length < 65536) → ∀ x ∈ s.set, x.1.length < 65536)
    (fun last hlast hshort => by rwa [deaggregateTurn_ends hlast])
    (fun s₁ s₂ hturn ih hshort => by
      obtain ⟨extracted, hset, hlength⟩ := deaggregateTurn_again hturn
      refine ih ?_
      rw [hset]
      intro x hx
      rcases List.mem_append.mp hx with hx | hx
      · exact hshort x hx
      · rwa [List.mem_singleton.mp hx])
  intro m hm
  obtain ⟨x, hx, rfl⟩ := List.mem_map.mp hm
  exact hshort (fun x hx => absurd hx List.not_mem_nil) x hx

/-- An aggregate is deaggregated to no packets but its own, and to these exactly when every length
fits into its field. -/
theorem deaggregatesTo_amsdu_iff {maxAmsduLength : UInt32}
    (hcontents : ∀ m ∈ msdus, ∃ m' ∈ expected, m'.packet = m.packet)
    (hfits : Fragmentation.uint32 (amsdu msdus).length ≤ maxAmsduLength.toNat) :
    ((amsdu msdus).length ≤ maxAmsduLength.toNat ∧ DeaggregatesTo (amsdu msdus) expected) ↔
      expected = msdus ∧ (∀ m ∈ msdus, m.packet.length < 65536) ∧
        (amsdu msdus).length < 4294967296 := by
  have hmax : maxAmsduLength.toNat < 4294967296 := maxAmsduLength.toNat_lt
  constructor
  · rintro ⟨hle, h⟩
    have hlengths : ∀ m ∈ msdus, m.packet.length < 65536 := by
      intro m hm
      obtain ⟨m', hm', hpacket⟩ := hcontents m hm
      rw [← hpacket]
      exact h.length_lt m' hm'
    have hsize := hle.trans_lt hmax
    obtain ⟨s, hs, hown⟩ := deaggregatesTo_amsdu hlengths hsize
    obtain ⟨s', hs', hexpected⟩ := h
    rw [hs'.unique hs] at hexpected
    exact ⟨hexpected.symm.trans hown, hlengths, hsize⟩
  · rintro ⟨rfl, hlengths, hsize⟩
    have huint : Fragmentation.uint32 (amsdu expected).length = (amsdu expected).length :=
      Nat.mod_eq_of_lt hsize
    exact ⟨huint.symm.trans_le hfits, deaggregatesTo_amsdu hlengths hsize⟩

/-- If all packets are accepted, the aggregate is no longer than the limit and gives them back. -/
def ReturnsAll (maxAmsduLength : UInt32) (msdus : List Msdu) : Prop :=
  ∀ aggregatedPacket, aggregateAll maxAmsduLength msdus = some aggregatedPacket →
    aggregatedPacket.length ≤ maxAmsduLength.toNat ∧ DeaggregatesTo aggregatedPacket msdus

theorem returnsAll_iff (maxAmsduLength : UInt32) (msdus : List Msdu) :
    ReturnsAll maxAmsduLength msdus ↔ ((aggregateAll maxAmsduLength msdus).isSome →
      (∀ m ∈ msdus, m.packet.length < 65536) ∧
        amsduLength (msdus.map fun m => m.packet.length) < 4294967296) := by
  rw [ReturnsAll, ← length_amsdu]
  cases haggregate : aggregateAll maxAmsduLength msdus with
  | none => simp
  | some aggregatedPacket =>
    obtain ⟨rfl, hfits⟩ := aggregateAll_eq haggregate
    have hiff := deaggregatesTo_amsdu_iff (fun m hm => ⟨m, hm, rfl⟩) hfits
    rw [eq_self_iff_true, true_and] at hiff
    simpa using hiff

end Deaggregate

end Ns3Noc.Wifi.Amsdu
