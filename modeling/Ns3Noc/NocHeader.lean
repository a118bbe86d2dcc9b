import Mathlib.Algebra.Order.BigOperators.Group.List
import Mathlib.Data.List.GetD
import Mathlib.Data.UInt
import Mathlib.Tactic.IntervalCases
import Mathlib.Tactic.Linarith

/-!
# The header of a head flit

Each dimension has one byte: seven bits of offset and a direction bit that is set for
the back direction. A setter replaces the offset and keeps the direction bit the byte
had before.
-/
namespace Ns3Noc

inductive RoutingDirection where
  | none | forward | back
  deriving DecidableEq, Repr

namespace RoutingDirection

/-- `NocRoutingProtocol::GetOpositeRoutingDirection`. -/
def opposite : RoutingDirection → RoutingDirection
  | forward => back
  | back => forward
  | none => none

@[simp] theorem opposite_opposite (d : RoutingDirection) : d.opposite.opposite = d := by
  cases d <;> rfl

/-- The direction of the sign of an offset. -/
def towards (offset : ℤ) : RoutingDirection := if 0 < offset then forward else back

@[simp] theorem towards_eq_forward {offset : ℤ} : towards offset = forward ↔ 0 < offset := by
  simp [towards]

theorem towards_eq_back {offset : ℤ} (h : offset ≠ 0) : towards offset = back ↔ offset < 0 := by
  simp only [towards]
  split <;> simp <;> omega

end RoutingDirection

def DIRECTION_BIT_MASK : UInt8 := 0x80
def OFFSET_BIT_MASK : UInt8 := 0x7F

namespace OffsetByte

def isForward (b : UInt8) : Bool := b &&& DIRECTION_BIT_MASK != DIRECTION_BIT_MASK

def offset (b : UInt8) : UInt8 := b &&& OFFSET_BIT_MASK

/-- What every offset setter of the header stores over the byte `b`. -/
def withOffset (b o : UInt8) : UInt8 := if isForward b then o else o ||| DIRECTION_BIT_MASK

/-- The displacement the byte stands for. -/
def signed (b : UInt8) : ℤ := if isForward b then (offset b).toNat else -((offset b).toNat : ℤ)

/-- The byte an encoder builds from a direction bit and a magnitude. -/
def encode (negative : Bool) (magnitude : ℕ) : UInt8 :=
  (if negative then DIRECTION_BIT_MASK else 0) ||| UInt8.ofNat magnitude

theorem forall_byte {P : UInt8 → Prop} (h : ∀ n < 256, P (UInt8.ofNat n)) (b : UInt8) : P b := by
  simpa using h b.toNat b.toNat_lt

theorem natAbs_signed (b : UInt8) : (signed b).natAbs = (offset b).toNat := by
  unfold signed
  split <;> simp

theorem signed_eq_zero_iff (b : UInt8) : signed b = 0 ↔ offset b = 0 := by
  rw [← Int.natAbs_eq_zero, natAbs_signed, ← UInt8.toNat_inj]
  rfl

theorem offset_toNat_le (b : UInt8) : (offset b).toNat ≤ 127 := by
  revert b
  refine forall_byte ?_
  decide +kernel

theorem isForward_of_signed_pos {b : UInt8} (h : 0 < signed b) : isForward b = true := by
  unfold signed at h
  split at h
  · assumption
  · omega

theorem not_isForward_of_signed_neg {b : UInt8} (h : signed b < 0) : isForward b = false := by
  unfold signed at h
  split at h
  · omega
  · simpa using ‹¬isForward b = true›

/-- Lowering the offset by one moves the displacement one step towards zero. -/
theorem signed_decrement (b : UInt8) (h : signed b ≠ 0) :
    signed (withOffset b (offset b - 1)) = signed b - (signed b).sign := by
  revert b
  refine forall_byte ?_
  decide +kernel

theorem signed_withOffset_self (b : UInt8) : withOffset b (offset b) = b := by
  revert b
  refine forall_byte ?_
  decide +kernel

theorem signed_encode_nonneg {m : ℕ} (hm : m ≤ 127) : signed (encode false m) = m := by
  have h : ∀ m < 128, signed (encode false m) = m := by decide +kernel
  exact h m (by omega)

theorem signed_encode_neg {m : ℕ} (hm : m ≤ 127) : signed (encode true m) = -m := by
  have h : ∀ m < 128, signed (encode true m) = -(m : ℤ) := by decide +kernel
  exact h m (by omega)

/-- Encoding the sign and the magnitude loses nothing below 128. -/
theorem signed_encode {d : ℤ} (hd : d.natAbs ≤ 127) : signed (encode (d < 0) d.natAbs) = d := by
  by_cases h : d < 0
  · simp only [h, decide_true]
    rw [signed_encode_neg hd]
    omega
  · simp only [h, decide_false]
    rw [signed_encode_nonneg hd]
    omega

end OffsetByte

/-- `NocHeader`: one distance byte and one source coordinate for every dimension. -/
structure NocHeader where
  distance : List UInt8
  source : List UInt8
  deriving DecidableEq, Repr

namespace NocHeader

/-- The header of `NocHeader ()` for a topology with the given number of dimensions. -/
def blank (dimensions : ℕ) : NocHeader := ⟨List.replicate dimensions 0, List.replicate dimensions 0⟩

def isEmpty (h : NocHeader) : Bool := h.distance.all (· == 0) && h.source.all (· == 0)

/-- The distance byte of a dimension. -/
def byte (h : NocHeader) (i : ℕ) : UInt8 := h.distance.getD i 0

def hasForwardDirection (h : NocHeader) (i : ℕ) : Bool := OffsetByte.isForward (h.byte i)
def hasBackDirection (h : NocHeader) (i : ℕ) : Bool := !h.hasForwardDirection i

def hasEastDirection (h : NocHeader) : Bool := OffsetByte.isForward (h.byte 0)
def hasWestDirection (h : NocHeader) : Bool := !h.hasEastDirection
def hasNorthDirection (h : NocHeader) : Bool := OffsetByte.isForward (h.byte 1)
def hasSouthDirection (h : NocHeader) : Bool := !h.hasNorthDirection

def getXOffset (h : NocHeader) : UInt8 := OffsetByte.offset (h.byte 0)
def getYOffset (h : NocHeader) : UInt8 := OffsetByte.offset (h.byte 1)
def getOffset (h : NocHeader) : List UInt8 := h.distance.map OffsetByte.offset

def setXOffset (h : NocHeader) (xOffset : UInt8) : NocHeader :=
  { h with distance := h.distance.set 0 (OffsetByte.withOffset (h.byte 0) xOffset) }

def setYOffset (h : NocHeader) (yOffset : UInt8) : NocHeader :=
  { h with distance := h.distance.set 1 (OffsetByte.withOffset (h.byte 1) yOffset) }

/-- `vector::at` throws when there are fewer offsets than dimensions. -/
def setOffset (h : NocHeader) (offset : List UInt8) : Option NocHeader :=
  if offset.length < h.distance.length then none
  else some { h with distance := List.zipWith OffsetByte.withOffset h.distance offset }

/-- The signed displacement the header holds for dimension `i`. -/
def signedOffset (h : NocHeader) (i : ℕ) : ℤ := OffsetByte.signed (h.byte i)

/-- The sum of the offset magnitudes. -/
def magnitude (h : NocHeader) : ℕ := (h.distance.map (fun b => (OffsetByte.offset b).toNat)).sum

@[simp] theorem getOffset_getD (h : NocHeader) (i : ℕ) :
    h.getOffset.getD i 0 = OffsetByte.offset (h.byte i) := by
  rw [getOffset, byte, List.getD_eq_getElem?_getD, List.getD_eq_getElem?_getD, List.getElem?_map]
  cases h.distance[i]? <;> rfl

/-- Replacing one offset replaces one distance byte. -/
theorem setOffset_set (h : NocHeader) {k : ℕ} (hk : k < h.distance.length) (o : UInt8) :
    h.setOffset (h.getOffset.set k o) =
      some { h with distance := h.distance.set k (OffsetByte.withOffset (h.byte k) o) } := by
  have hlen : ¬(h.getOffset.set k o).length < h.distance.length := by simp [getOffset]
  rw [setOffset, if_neg hlen]
  congr 2
  apply List.ext_getElem (by simp [getOffset])
  intro i hi _
  rcases eq_or_ne i k with rfl | hik
  · simp [byte, getOffset, hk]
  · simp [getOffset, hik.symm, OffsetByte.signed_withOffset_self]

theorem magnitude_set (h : NocHeader) {k : ℕ} (hk : k < h.distance.length) (b : UInt8) :
    magnitude { h with distance := h.distance.set k b } + (OffsetByte.offset (h.byte k)).toNat =
      h.magnitude + (OffsetByte.offset b).toNat := by
  have hsplit : h.distance = h.distance.take k ++ h.byte k :: h.distance.drop (k + 1) := by
    rw [byte, List.getD_eq_getElem _ _ hk, List.cons_getElem_drop_succ, List.take_append_drop]
  have hset : h.distance.set k b = h.distance.take k ++ b :: h.distance.drop (k + 1) := by
    rw [List.set_eq_take_append_cons_drop, if_pos hk]
  rw [magnitude, magnitude, hset]
  conv_rhs => rw [hsplit]
  simp only [List.map_append, List.map_cons, List.sum_append, List.sum_cons]
  omega

/-- The header asks for no further hop exactly when every offset is zero. -/
theorem magnitude_eq_zero_iff (h : NocHeader) :
    h.magnitude = 0 ↔ ∀ k < h.distance.length, h.signedOffset k = 0 := by
  simp only [magnitude, List.sum_eq_zero_iff, List.mem_map, signedOffset,
    OffsetByte.signed_eq_zero_iff]
  constructor
  · intro hz k hk
    rw [← UInt8.toNat_inj]
    refine hz _ ⟨h.byte k, ?_, rfl⟩
    rw [byte, List.getD_eq_getElem _ _ hk]
    exact List.getElem_mem hk
  · rintro hz _ ⟨b, hb, rfl⟩
    obtain ⟨k, hk, rfl⟩ := List.getElem_of_mem hb
    have := hz k hk
    rw [byte, List.getD_eq_getElem _ _ hk] at this
    rw [this]
    rfl

@[simp] theorem length_setXOffset (h : NocHeader) (o : UInt8) :
    (h.setXOffset o).distance.length = h.distance.length := by simp [setXOffset]

@[simp] theorem length_setYOffset (h : NocHeader) (o : UInt8) :
    (h.setYOffset o).distance.length = h.distance.length := by simp [setYOffset]

theorem byte_set (h : NocHeader) {k : ℕ} (hk : k < h.distance.length) (b : UInt8) (i : ℕ) :
    byte { h with distance := h.distance.set k b } i = if i = k then b else h.byte i := by
  rcases eq_or_ne i k with rfl | hik
  · simp [byte, hk]
  · simp [byte, hik, hik.symm]

/-- The header after a hop in dimension `k`: that offset is one lower, the direction bit stays. -/
def lower (h : NocHeader) (k : ℕ) : NocHeader :=
  { h with
    distance := h.distance.set k (OffsetByte.withOffset (h.byte k) (OffsetByte.offset (h.byte k) - 1)) }

@[simp] theorem length_lower (h : NocHeader) (k : ℕ) :
    (h.lower k).distance.length = h.distance.length := by simp [lower]

theorem signedOffset_lower (h : NocHeader) {k : ℕ} (hk : k < h.distance.length)
    (hne : h.signedOffset k ≠ 0) (i : ℕ) : (h.lower k).signedOffset i =
      if i = k then h.signedOffset k - (h.signedOffset k).sign else h.signedOffset i := by
  rw [signedOffset, lower, byte_set _ hk]
  split
  · exact OffsetByte.signed_decrement (h.byte k) hne
  · rfl

theorem magnitude_lower (h : NocHeader) {k : ℕ} (hk : k < h.distance.length)
    (hne : h.signedOffset k ≠ 0) : (h.lower k).magnitude + 1 = h.magnitude := by
  have hset := h.magnitude_set hk
    (OffsetByte.withOffset (h.byte k) (OffsetByte.offset (h.byte k) - 1))
  have hsigned := h.signedOffset_lower hk hne k
  rw [if_pos rfl, signedOffset, lower, byte_set _ hk, if_pos rfl] at hsigned
  rw [← OffsetByte.natAbs_signed, ← OffsetByte.natAbs_signed, hsigned] at hset
  rw [lower]
  rcases lt_or_gt_of_ne hne with hneg | hpos
  · rw [Int.sign_eq_neg_one_of_neg hneg] at hset
    simp only [signedOffset] at hneg hset
    omega
  · rw [Int.sign_eq_one_of_pos hpos] at hset
    simp only [signedOffset] at hpos hset
    omega

end NocHeader
end Ns3Noc

/-!
## Truthful headers

What every routing protocol owes to the next router: the header of a flit holds the
displacement from the node the flit is at to its destination.
-/
namespace Ns3Noc

/-- The header of a flit at a node holds the true displacement to the destination. -/
structure Truthful (dimensions nodes : ℕ) (displacement : ℕ → ℕ → ℕ → ℤ) (destination : ℕ)
    (s : ℕ × NocHeader) : Prop where
  node_lt : s.1 < nodes
  length_eq : s.2.distance.length = dimensions
  offsets : ∀ k < dimensions, s.2.signedOffset k = displacement k s.1 destination

variable {dimensions nodes : ℕ} {displacement : ℕ → ℕ → ℕ → ℤ}

/-- A hop in dimension `k` keeps the header truthful when the flit moves one position along
that dimension. -/
theorem Truthful.lower {destination v : ℕ} {header : NocHeader}
    (hs : Truthful dimensions nodes displacement destination (v, header)) {k u : ℕ}
    (hk : k < dimensions) (hu : u < nodes) (hne : header.signedOffset k ≠ 0)
    (hself : displacement k u destination =
      header.signedOffset k - (header.signedOffset k).sign)
    (hother : ∀ j, j ≠ k → displacement j u destination = displacement j v destination) :
    Truthful dimensions nodes displacement destination (u, header.lower k) := by
  obtain ⟨-, hlen, hoff⟩ := hs
  dsimp only at hlen hoff
  refine ⟨hu, by simpa using hlen, ?_⟩
  intro j hj
  rw [header.signedOffset_lower (by omega) hne]
  rcases eq_or_ne j k with rfl | hjk
  · rw [if_pos rfl, hself]
  · rw [if_neg hjk, hother j hjk]
    exact hoff j hj

end Ns3Noc

/-!
## NocPacket

A flit is a packet with a tag. Payload and the fields of the tag that only statistics or load
components read are left out.
-/
namespace Ns3Noc

inductive NocPacketType where
  | head
  | data
  | tail
  deriving DecidableEq, Repr

/-- A packet, the fields of its tag and, on a head packet, its header. -/
structure NocPacket where
  uid : ℕ
  packetType : NocPacketType
  packetHeadUid : ℕ
  dataFlitCount : ℕ
  packetBlocked : Bool
  header : NocHeader
  deriving DecidableEq, Repr

/-- A call of a constructor. A head packet leaves the head uid of its tag uninitialised; it has
some value all the same. -/
inductive NewPacket where
  | head (header : NocHeader) (dataFlitCount uninitialised : ℕ)
  | body (headPacketUid : ℕ) (isTailPacket : Bool)
  deriving DecidableEq, Repr

namespace NewPacket

/-- `NocPacket::NocPacket`. The constructors for head packets pass `dataFlitCount` on to the
header, which ignores it, and leave it 0 in the tag. -/
def build (uid : ℕ) : NewPacket → NocPacket
  | head header _ uninitialised => ⟨uid, .head, uninitialised, 0, false, header⟩
  | body headPacketUid isTailPacket =>
    ⟨uid, if isTailPacket then .tail else .data, headPacketUid, 0, false, ⟨[], []⟩⟩

@[simp] theorem uid_build (new : NewPacket) (uid : ℕ) : (new.build uid).uid = uid := by
  cases new <;> rfl

end NewPacket
end Ns3Noc
