import Ns3Noc.MacRxMiddle
import Ns3Noc.WhileLoops

/-!
# Fragmentation of Wi-Fi frames

`WifiRemoteStationManager` decides on the size of the whole frame, and cuts the payload into parts
as long as the threshold.
-/
namespace Ns3Noc.Wifi.Fragmentation
open WhileLoops

local instance neZeroSixteen : NeZero 16 := ⟨by decide⟩

local instance neZeroSequences : NeZero 4096 := ⟨by decide⟩

/-- `uint32_t` arithmetic -/
def uint32 (n : ℕ) : ℕ := n % 4294967296

def WIFI_MAC_FCS_LENGTH : ℕ := 4

/-- The header of a frame to send. -/
structure TxHeader extends WifiMacHeader where
  ctrlToDs : Bool
  ctrlFromDs : Bool
  deriving DecidableEq, Repr

def TxHeader.getSize (hdr : TxHeader) : ℕ :=
  match hdr.ctrlType with
  | .mgt => 2 + 2 + 6 + 6 + 6 + 2
  | .ctl =>
    if hdr.ctrlSubtype = 11 then 2 + 2 + 6 + 6
    else if hdr.ctrlSubtype = 12 ∨ hdr.ctrlSubtype = 13 then 2 + 2 + 6
    else if hdr.ctrlSubtype = 8 ∨ hdr.ctrlSubtype = 9 then 2 + 2 + 6 + 6
    else 0
  | .data =>
    2 + 2 + 6 + 6 + 6 + 2 + (if hdr.ctrlToDs && hdr.ctrlFromDs then 6 else 0) +
      (if hdr.ctrlSubtype &&& 0x08 != 0 then 2 else 0)

/-- The frame that is being sent, and the fragmentation threshold of the station manager. -/
structure DcaTxop where
  fragmentationThreshold : ℕ
  currentPacket : Packet
  currentHdr : TxHeader
  fragmentNumber : ℕ
  deriving DecidableEq, Repr

namespace DcaTxop
variable (txop : DcaTxop)

/-- No station manager overrides `DoNeedFragmentation`. -/
def needFragmentation : Bool :=
  !txop.currentHdr.addr1.isGroup &&
    uint32 (txop.currentPacket.length + txop.currentHdr.getSize + WIFI_MAC_FCS_LENGTH) >
      txop.fragmentationThreshold

def getNFragments : ℕ := uint32 (txop.currentPacket.length / txop.fragmentationThreshold + 1)

def nextFragment : DcaTxop := { txop with fragmentNumber := (txop.fragmentNumber + 1) % 256 }

def getFragmentSize : ℕ :=
  if txop.fragmentNumber ≥ txop.getNFragments then 0
  else if txop.fragmentNumber = txop.getNFragments - 1 then
    txop.currentPacket.length % txop.fragmentationThreshold
  else txop.fragmentationThreshold

/-- Fails the assertion on the number. -/
def getFragmentOffset : Option ℕ :=
  if txop.fragmentNumber < txop.getNFragments then
    some (uint32 (txop.fragmentNumber * txop.fragmentationThreshold))
  else none

def isLastFragment : Bool := txop.fragmentNumber = txop.getNFragments - 1

end DcaTxop

/-- `CreateFragment` of a packet -/
def createFragment (p : Packet) (start length : ℕ) : Option Packet :=
  if p.length ≥ uint32 (start + length) then some ((p.drop start).take length) else none

def DcaTxop.getFragmentPacket (txop : DcaTxop) : Option (TxHeader × Packet) :=
  if txop.currentHdr.addr1.isGroup then none
  else txop.getFragmentOffset.bind fun startOffset =>
    (createFragment txop.currentPacket startOffset txop.getFragmentSize).map fun fragment =>
      ({ txop.currentHdr with
        seqFrag := Fin.ofNat 16 txop.fragmentNumber
        ctrlMoreFrag := !txop.isLastFragment }, fragment)

/-- The fragments so far -/
structure Cutting where
  txop : DcaTxop
  fragments : List (TxHeader × Packet)
  deriving DecidableEq, Repr

/-- One fragment is cut, and the next one follows unless it is the last. -/
def Cutting.turn (s : Cutting) : Turn Cutting :=
  match s.txop.getFragmentPacket with
  | none => .fails
  | some fragment =>
    if s.txop.isLastFragment then .ends { s with fragments := s.fragments ++ [fragment] }
    else .again ⟨s.txop.nextFragment, s.fragments ++ [fragment]⟩

/-! ## The fragments of a packet -/

section Fragments
variable {threshold : ℕ} {packet : Packet} {hdr : TxHeader}

/-- The payload of a fragment -/
def part (threshold : ℕ) (packet : Packet) (i : ℕ) : Packet :=
  (packet.drop (i * threshold)).take
    (if i = packet.length / threshold then packet.length % threshold else threshold)

def fragment (threshold : ℕ) (packet : Packet) (hdr : TxHeader) (i : ℕ) : TxHeader × Packet :=
  ({ hdr with
    seqFrag := Fin.ofNat 16 i
    ctrlMoreFrag := !decide (i = packet.length / threshold) }, part threshold packet i)

/-- All fragments of a packet -/
def fragments (threshold : ℕ) (packet : Packet) (hdr : TxHeader) : List (TxHeader × Packet) :=
  (List.range (packet.length / threshold + 1)).map (fragment threshold packet hdr)

theorem getNFragments_eq (hdr : TxHeader) (hcount : packet.length / threshold < 16) (i : ℕ) :
    (DcaTxop.mk threshold packet hdr i).getNFragments = packet.length / threshold + 1 := by
  rw [DcaTxop.getNFragments, uint32]
  exact Nat.mod_eq_of_lt (by dsimp only; omega)

theorem isLastFragment_eq (hdr : TxHeader) (hcount : packet.length / threshold < 16) (i : ℕ) :
    (DcaTxop.mk threshold packet hdr i).isLastFragment =
      decide (i = packet.length / threshold) := by
  rw [DcaTxop.isLastFragment, getNFragments_eq hdr hcount i, Nat.add_sub_cancel]

theorem getFragmentPacket_eq (hgroup : ¬hdr.addr1.isGroup) (hsize : packet.length < 2 ^ 32)
    (hcount : packet.length / threshold < 16) {i : ℕ} (hi : i ≤ packet.length / threshold) :
    (DcaTxop.mk threshold packet hdr i).getFragmentPacket =
      some (fragment threshold packet hdr i) := by
  have hn := getNFragments_eq hdr hcount i
  have hsplit := Nat.div_add_mod packet.length threshold
  have hoffset : i * threshold ≤ packet.length :=
    (Nat.mul_le_mul_right threshold hi).trans (Nat.div_mul_le_self _ _)
  have hlength : (DcaTxop.mk threshold packet hdr i).getFragmentSize =
      if i = packet.length / threshold then packet.length % threshold else threshold := by
    rw [DcaTxop.getFragmentSize, hn]
    dsimp only
    rw [if_neg (by omega), Nat.add_sub_cancel]
  have hend : i * threshold + (if i = packet.length / threshold then packet.length % threshold
      else threshold) ≤ packet.length := by
    split
    · next hlast =>
      rw [hlast, Nat.mul_comm]
      exact hsplit.le
    · next hnot =>
      have hnext : (i + 1) * threshold ≤ packet.length :=
        (Nat.mul_le_mul_right threshold (by omega)).trans (Nat.div_mul_le_self _ _)
      rwa [Nat.add_one_mul] at hnext
  have hlast := isLastFragment_eq hdr hcount i
  rw [DcaTxop.getFragmentPacket, if_neg hgroup, DcaTxop.getFragmentOffset, hn,
    if_pos (Nat.lt_succ_of_le hi), Option.bind_some, hlength, hlast, uint32,
    Nat.mod_eq_of_lt (by dsimp only; omega), createFragment, uint32,
    Nat.mod_eq_of_lt (by dsimp only; omega), if_pos hend]
  rfl

/-- The loop cuts the fragments that are left. -/
theorem ends_cutting (hgroup : ¬hdr.addr1.isGroup) (hsize : packet.length < 2 ^ 32)
    (hcount : packet.length / threshold < 16) (left i : ℕ)
    (hleft : i + left = packet.length / threshold) (before : List (TxHeader × Packet)) :
    Ends Cutting.turn ⟨⟨threshold, packet, hdr, i⟩, before⟩
      ⟨⟨threshold, packet, hdr, packet.length / threshold⟩,
        before ++ (List.range' i (left + 1)).map (fragment threshold packet hdr)⟩ := by
  have hpacket := getFragmentPacket_eq hgroup hsize hcount
    (show i ≤ _ from hleft ▸ Nat.le_add_right i left)
  have hlast := isLastFragment_eq hdr hcount i
  induction left generalizing i before with
  | zero =>
    obtain rfl : i = packet.length / threshold := hleft
    refine .here ?_
    rw [Cutting.turn]
    dsimp only
    rw [hpacket]
    dsimp only
    rw [hlast, if_pos (decide_eq_true rfl)]
    rfl
  | succ left ih =>
    have hne : ¬i = packet.length / threshold := by omega
    have hturn : Cutting.turn ⟨⟨threshold, packet, hdr, i⟩, before⟩ =
        .again ⟨⟨threshold, packet, hdr, i + 1⟩, before ++ [fragment threshold packet hdr i]⟩ := by
      have hnumber : (i + 1) % 256 = i + 1 := Nat.mod_eq_of_lt (by omega)
      rw [Cutting.turn]
      dsimp only
      rw [hpacket]
      dsimp only
      rw [hlast, if_neg (by simpa using hne), DcaTxop.nextFragment, hnumber]
    rw [List.range'_succ, List.map_cons, List.append_cons]
    exact .again hturn (ih (i + 1) (by omega) _
      (getFragmentPacket_eq hgroup hsize hcount (by omega)) (isLastFragment_eq hdr hcount (i + 1)))

/-- The fragments for numbers 0, 1, ... until the last one. -/
theorem ends_fragments (hgroup : ¬hdr.addr1.isGroup) (hsize : packet.length < 2 ^ 32)
    (hcount : packet.length / threshold < 16) :
    Ends Cutting.turn ⟨⟨threshold, packet, hdr, 0⟩, []⟩
      ⟨⟨threshold, packet, hdr, packet.length / threshold⟩, fragments threshold packet hdr⟩ := by
  have hends := ends_cutting hgroup hsize hcount (packet.length / threshold) 0 (Nat.zero_add _) []
  rwa [← List.range_eq_range'] at hends

/-- The parts before the last one are as long as the threshold. -/
theorem flatten_parts {n : ℕ} (hn : n ≤ packet.length / threshold) :
    ((List.range n).map (part threshold packet)).flatten = packet.take (n * threshold) := by
  induction n with
  | zero => simp
  | succ n ih =>
    have hfull : (n + 1) * threshold ≤ packet.length :=
      (Nat.mul_le_mul_right threshold hn).trans (Nat.div_mul_le_self _ _)
    have hne : ¬n = packet.length / threshold := by omega
    rw [List.range_succ, List.map_append, List.flatten_append, ih (by omega), List.map_singleton,
      List.flatten_singleton, part, if_neg hne, Nat.add_one_mul, List.take_add]

theorem flatten_fragments (threshold : ℕ) (packet : Packet) (hdr : TxHeader) :
    ((fragments threshold packet hdr).map Prod.snd).flatten = packet := by
  have hparts : (fragments threshold packet hdr).map Prod.snd =
      (List.range (packet.length / threshold + 1)).map (part threshold packet) := by
    rw [fragments, List.map_map]
    rfl
  have hsplit := Nat.div_add_mod packet.length threshold
  rw [Nat.mul_comm] at hsplit
  rw [hparts, List.range_succ, List.map_append, List.flatten_append, flatten_parts (Nat.le_refl _),
    List.map_singleton, List.flatten_singleton, part, if_pos rfl, ← List.take_add, hsplit,
    List.take_length]

/-- What fragmentation should come to. -/
structure WellFragmented (threshold : ℕ) (packet : Packet) (fragments : List (TxHeader × Packet)) :
    Prop where
  nonempty : ∀ f ∈ fragments, f.2 ≠ []
  concat : (fragments.map Prod.snd).flatten = packet
  moreFragments : ∃ before last, fragments = before ++ [last] ∧
    (∀ f ∈ before, f.1.ctrlMoreFrag) ∧ ¬last.1.ctrlMoreFrag
  length_le : ∀ f ∈ fragments, f.1.getSize + f.2.length + WIFI_MAC_FCS_LENGTH ≤ threshold

theorem moreFragments_fragments (threshold : ℕ) (packet : Packet) (hdr : TxHeader) :
    ∃ before last, fragments threshold packet hdr = before ++ [last] ∧
      (∀ f ∈ before, f.1.ctrlMoreFrag) ∧ ¬last.1.ctrlMoreFrag := by
  refine ⟨(List.range (packet.length / threshold)).map (fragment threshold packet hdr),
    fragment threshold packet hdr (packet.length / threshold), ?_, fun f hf => ?_, ?_⟩
  · rw [fragments, List.range_succ, List.map_append, List.map_singleton]
  · obtain ⟨i, hi, rfl⟩ := List.mem_map.mp hf
    have hne := (List.mem_range.mp hi).ne
    simp [fragment, hne]
  · simp [fragment]

/-- The last fragment is empty where the threshold divides the size, and the others are not. -/
theorem nonempty_fragments_iff (hthreshold : 0 < threshold) :
    (∀ f ∈ fragments threshold packet hdr, f.2 ≠ []) ↔ ¬threshold ∣ packet.length := by
  have hsplit := Nat.div_add_mod packet.length threshold
  rw [Nat.mul_comm] at hsplit
  have hlast : (part threshold packet (packet.length / threshold)).length =
      packet.length % threshold := by
    rw [part, if_pos rfl, List.length_take, List.length_drop]
    omega
  rw [Nat.dvd_iff_mod_eq_zero]
  constructor
  · intro h hzero
    refine h _ (List.mem_map.mpr ⟨packet.length / threshold,
      List.mem_range.mpr (Nat.lt_succ_self _), rfl⟩) ?_
    exact List.length_eq_zero_iff.mp (hlast.trans hzero)
  · intro h f hf
    obtain ⟨i, hi, rfl⟩ := List.mem_map.mp hf
    show part threshold packet i ≠ []
    rw [← List.length_pos_iff]
    by_cases heq : i = packet.length / threshold
    · rw [heq, hlast]
      omega
    · have hfull : (i + 1) * threshold ≤ packet.length :=
        (Nat.mul_le_mul_right threshold (by have := List.mem_range.mp hi; omega)).trans
          (Nat.div_mul_le_self _ _)
      rw [Nat.add_one_mul] at hfull
      rw [part, if_neg heq, List.length_take, List.length_drop]
      omega

/-- The first fragment is too long with its header and FCS. -/
theorem first_too_long (hneed : threshold < packet.length + hdr.getSize + WIFI_MAC_FCS_LENGTH) :
    threshold < hdr.getSize + (part threshold packet 0).length + WIFI_MAC_FCS_LENGTH := by
  rw [part, Nat.zero_mul, List.drop_zero, List.length_take]
  rw [WIFI_MAC_FCS_LENGTH] at hneed ⊢
  split
  · next hzero =>
    have hsplit := Nat.div_add_mod packet.length threshold
    rw [← hzero, Nat.mul_zero, Nat.zero_add] at hsplit
    omega
  · next hne =>
    have hle : threshold ≤ packet.length := by
      by_contra hlt
      exact hne (Nat.div_eq_of_lt (by omega)).symm
    omega

theorem not_wellFragmented_of_need (txop : DcaTxop) (hnumber : txop.fragmentNumber = 0)
    (hsize : txop.currentPacket.length < 2 ^ 32)
    (hcount : txop.currentPacket.length / txop.fragmentationThreshold < 16)
    (hneed : txop.needFragmentation) :
    ¬∃ r, Ends Cutting.turn ⟨txop, []⟩ r ∧
      WellFragmented txop.fragmentationThreshold txop.currentPacket r.fragments := by
  obtain ⟨threshold, packet, hdr, number⟩ := txop
  obtain rfl : number = 0 := hnumber
  obtain ⟨hgroup, hlong⟩ := Bool.and_eq_true_iff.mp hneed
  have hgroup : ¬hdr.addr1.isGroup := by simpa using hgroup
  have hneed : threshold < packet.length + hdr.getSize + WIFI_MAC_FCS_LENGTH :=
    (of_decide_eq_true hlong).trans_le (Nat.mod_le _ _)
  rintro ⟨r, hr, hwell⟩
  obtain rfl := (ends_fragments hgroup hsize hcount).unique hr
  have hle := hwell.length_le (fragment threshold packet hdr 0)
    (List.mem_map.mpr ⟨0, List.mem_range.mpr (Nat.succ_pos _), rfl⟩)
  exact absurd hle (Nat.not_le.mpr (first_too_long hneed))

/-- No packet that needs fragmentation is fragmented well, though its fragments make up the packet
and tell rightly which is the last. -/
theorem not_wellFragmented (txop : DcaTxop) (hnumber : txop.fragmentNumber = 0)
    (hthreshold : 256 ≤ txop.fragmentationThreshold)
    (hsize : txop.currentPacket.length < 2 ^ 32)
    (hcount : txop.currentPacket.length / txop.fragmentationThreshold + 1 ≤ 16)
    (hneed : txop.needFragmentation) :
    (¬∃ r, Ends Cutting.turn ⟨txop, []⟩ r ∧
      WellFragmented txop.fragmentationThreshold txop.currentPacket r.fragments) ∧
    ∃ r, Ends Cutting.turn ⟨txop, []⟩ r ∧
      (r.fragments.map Prod.snd).flatten = txop.currentPacket ∧
      (∃ before last, r.fragments = before ++ [last] ∧ (∀ f ∈ before, f.1.ctrlMoreFrag) ∧
        ¬last.1.ctrlMoreFrag) ∧
      ((∀ f ∈ r.fragments, f.2 ≠ []) ↔
        ¬txop.fragmentationThreshold ∣ txop.currentPacket.length) := by
  refine ⟨not_wellFragmented_of_need txop hnumber hsize hcount hneed, ?_⟩
  obtain ⟨threshold, packet, hdr, number⟩ := txop
  obtain rfl : number = 0 := hnumber
  have hgroup : ¬hdr.addr1.isGroup := by simpa using (Bool.and_eq_true_iff.mp hneed).1
  exact ⟨_, ends_fragments hgroup hsize hcount, flatten_fragments threshold packet hdr,
    moreFragments_fragments threshold packet hdr,
    nonempty_fragments_iff (Nat.lt_of_lt_of_le (by omega) hthreshold)⟩

/-- A data frame to one station -/
def dataHeader : TxHeader :=
  { ctrlType := .data, ctrlSubtype := 0, ctrlMoreFrag := false, ctrlRetry := false, addr1 := 2,
    addr2 := 1, seqSeq := Fin.ofNat 4096 0, seqFrag := Fin.ofNat 16 0, qosTid := 0,
    ctrlToDs := true, ctrlFromDs := false }

def zeros (n : ℕ) : Packet := List.replicate n 0

theorem length_zeros (n : ℕ) : (zeros n).length = n := List.length_replicate

attribute [irreducible] zeros

theorem length_zeros_lt {n : ℕ} (hn : n < 300000) : (zeros n).length < 2 ^ 32 := by
  rw [length_zeros]
  exact hn.trans (by norm_num)

theorem parts_zeros {n : ℕ} (hn : n < 3840) : (zeros n).length / 256 < 16 := by
  rw [length_zeros]
  omega

theorem need_zeros {n : ℕ} (h : 228 < n) (hn : n < 300000) :
    (DcaTxop.mk 256 (zeros n) dataHeader 0).needFragmentation := by
  have hlong : uint32 (n + 24 + 4) > 256 := by
    rw [uint32]
    omega
  rw [DcaTxop.needFragmentation]
  dsimp only
  rw [length_zeros]
  exact Bool.and_eq_true_iff.mpr ⟨rfl, decide_eq_true hlong⟩

theorem not_wellFragmented_300 :
    ¬∃ r, Ends Cutting.turn ⟨⟨256, zeros 300, dataHeader, 0⟩, []⟩ r ∧
      WellFragmented 256 (zeros 300) r.fragments :=
  (not_wellFragmented ⟨256, zeros 300, dataHeader, 0⟩ rfl (Nat.le_refl 256)
    (length_zeros_lt (by omega)) (parts_zeros (by omega)) (need_zeros (by omega) (by omega))).1

/-- A payload that has to be fragmented because of its header and FCS alone is not cut at all. -/
theorem not_wellFragmented_240 :
    ¬∃ r, Ends Cutting.turn ⟨⟨256, zeros 240, dataHeader, 0⟩, []⟩ r ∧
      WellFragmented 256 (zeros 240) r.fragments :=
  not_wellFragmented_of_need ⟨256, zeros 240, dataHeader, 0⟩ rfl
    (length_zeros_lt (by omega)) (parts_zeros (by omega)) (need_zeros (by omega) (by omega))

end Fragments

end Ns3Noc.Wifi.Fragmentation
