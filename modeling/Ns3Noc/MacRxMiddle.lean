import Mathlib

/-!
# Defragmentation and duplicate filtering

`MacRxMiddle` with the state that it keeps for each originator. A function returns `none` where an
assertion fails.
-/
namespace Ns3Noc.Wifi

abbrev Mac48Address : Type := BitVec 48

/-- The lowest bit of the first byte. -/
def Mac48Address.isGroup (address : Mac48Address) : Bool := address.getLsbD 40

abbrev Packet : Type := List UInt8

inductive CtrlType where
  | mgt
  | ctl
  | data
  deriving DecidableEq, Repr

structure WifiMacHeader where
  ctrlType : CtrlType
  ctrlSubtype : BitVec 4
  ctrlMoreFrag : Bool
  ctrlRetry : Bool
  addr1 : Mac48Address
  addr2 : Mac48Address
  seqSeq : Fin 4096
  seqFrag : Fin 16
  qosTid : ℕ
  deriving DecidableEq, Repr

namespace WifiMacHeader

variable (hdr : WifiMacHeader)

def isData : Bool := hdr.ctrlType = .data
def isMgt : Bool := hdr.ctrlType = .mgt
def isQosData : Bool := hdr.ctrlType = .data && hdr.ctrlSubtype &&& 0x08 != 0
def getSequenceControl : ℕ := hdr.seqSeq.val <<< 4 ||| hdr.seqFrag.val

theorem getSequenceControl_eq : hdr.getSequenceControl = 16 * hdr.seqSeq + hdr.seqFrag := by
  have h := Nat.two_pow_add_eq_or_of_lt (i := 4) hdr.seqFrag.isLt hdr.seqSeq.val
  rw [getSequenceControl, Nat.shiftLeft_eq, Nat.mul_comm, ← h]

end WifiMacHeader

structure OriginatorRxStatus where
  defragmenting : Bool
  lastSequenceControl : ℕ
  fragments : List Packet
  deriving DecidableEq, Repr

namespace OriginatorRxStatus

/-- The constructor. -/
def create : OriginatorRxStatus := ⟨false, 0xffff, []⟩

variable (status : OriginatorRxStatus)

def accumulateFirstFragment (packet : Packet) : Option OriginatorRxStatus :=
  if status.defragmenting then none
  else some { status with
    defragmenting := true
    fragments := status.fragments ++ [packet] }

def accumulateLastFragment (packet : Packet) : Option (OriginatorRxStatus × Packet) :=
  if status.defragmenting then
    some ({ status with
      defragmenting := false
      fragments := [] }, (status.fragments ++ [packet]).flatten)
  else none

def accumulateFragment (packet : Packet) : Option OriginatorRxStatus :=
  if status.defragmenting then some { status with fragments := status.fragments ++ [packet] }
  else none

def isNextFragment (sequenceControl : ℕ) : Bool :=
  sequenceControl >>> 4 = status.lastSequenceControl >>> 4 ∧
    sequenceControl &&& 0x0f = (status.lastSequenceControl &&& 0x0f) + 1

def setSequenceControl (sequenceControl : ℕ) : OriginatorRxStatus :=
  { status with lastSequenceControl := sequenceControl }

end OriginatorRxStatus

/-- A key of `m_qosOriginatorStatus` or of `m_originatorStatus`. -/
inductive OriginatorKey where
  | qos (source : Mac48Address) (tid : ℕ)
  | other (source : Mac48Address)
  deriving DecidableEq, Repr

namespace MacRxMiddle

/-- `Lookup`; the status of a new key is created by the constructor. -/
def lookup (hdr : WifiMacHeader) : OriginatorKey :=
  if hdr.isQosData && !hdr.addr2.isGroup then .qos hdr.addr2 hdr.qosTid else .other hdr.addr2

def isDuplicate (hdr : WifiMacHeader) (originator : OriginatorRxStatus) : Bool :=
  hdr.ctrlRetry && originator.lastSequenceControl = hdr.getSequenceControl

def handleFragments (packet : Packet) (hdr : WifiMacHeader) (originator : OriginatorRxStatus) :
    Option (OriginatorRxStatus × Option Packet) :=
  if originator.defragmenting then
    if hdr.ctrlMoreFrag then
      if originator.isNextFragment hdr.getSequenceControl then
        (originator.accumulateFragment packet).map fun originator =>
          (originator.setSequenceControl hdr.getSequenceControl, none)
      else some (originator, none)
    else
      if originator.isNextFragment hdr.getSequenceControl then
        (originator.accumulateLastFragment packet).map fun (originator, p) =>
          (originator.setSequenceControl hdr.getSequenceControl, some p)
      else some (originator, none)
  else
    if hdr.ctrlMoreFrag then
      (originator.accumulateFirstFragment packet).map fun originator =>
        (originator.setSequenceControl hdr.getSequenceControl, none)
    else some (originator, some packet)

/-- What `Receive` does to the status, with the packet given to `m_callback`. -/
def receiveFrom (packet : Packet) (hdr : WifiMacHeader) (originator : OriginatorRxStatus) :
    Option (OriginatorRxStatus × Option Packet) :=
  if hdr.isData || hdr.isMgt then
    if isDuplicate hdr originator then some (originator, none)
    else
      (handleFragments packet hdr originator).map fun
        | (originator, none) => (originator, none)
        | (originator, some agregate) =>
          if hdr.addr1.isGroup then (originator, some agregate)
          else (originator.setSequenceControl hdr.getSequenceControl, some agregate)
  else none

def receive (statuses : OriginatorKey → OriginatorRxStatus) (packet : Packet)
    (hdr : WifiMacHeader) : Option ((OriginatorKey → OriginatorRxStatus) × Option Packet) :=
  (receiveFrom packet hdr (statuses (lookup hdr))).map fun (originator, agregate) =>
    (Function.update statuses (lookup hdr) originator, agregate)

end MacRxMiddle

/-! ## One frame -/

namespace MacRxMiddle

variable {hdr : WifiMacHeader} {packet : Packet} {originator : OriginatorRxStatus}

theorem isNextFragment_iff {sequenceControl : ℕ} :
    originator.isNextFragment sequenceControl = true ↔
      sequenceControl / 16 = originator.lastSequenceControl / 16 ∧
        sequenceControl % 16 = originator.lastSequenceControl % 16 + 1 := by
  have hand : ∀ a : ℕ, a &&& 0x0f = a % 16 := fun a => Nat.and_two_pow_sub_one_eq_mod a 4
  have hshift : ∀ a : ℕ, a >>> 4 = a / 16 := fun a => Nat.shiftRight_eq_div_pow a 4
  rw [OriginatorRxStatus.isNextFragment, decide_eq_true_eq, hand, hand, hshift, hshift]

variable (packet)

theorem receiveFrom_duplicate (hkind : (hdr.isData || hdr.isMgt) = true)
    (hdup : isDuplicate hdr originator = true) :
    receiveFrom packet hdr originator = some (originator, none) := by
  rw [receiveFrom, if_pos hkind, if_pos hdup]

section

variable (hkind : (hdr.isData || hdr.isMgt) = true) (hdup : isDuplicate hdr originator = false)

include hkind hdup

/-- A frame other than the next fragment is dropped while an MSDU is being assembled. -/
theorem receiveFrom_other (hdefragmenting : originator.defragmenting = true)
    (hnext : originator.isNextFragment hdr.getSequenceControl = false) :
    receiveFrom packet hdr originator = some (originator, none) := by
  rw [receiveFrom, if_pos hkind, hdup, handleFragments, hdefragmenting, hnext]
  cases hdr.ctrlMoreFrag <;> rfl

theorem receiveFrom_next (hdefragmenting : originator.defragmenting = true)
    (hnext : originator.isNextFragment hdr.getSequenceControl = true)
    (hmore : hdr.ctrlMoreFrag = true) :
    receiveFrom packet hdr originator =
      some (⟨true, hdr.getSequenceControl, originator.fragments ++ [packet]⟩, none) := by
  rw [receiveFrom, if_pos hkind, hdup, handleFragments, hdefragmenting, hnext, hmore,
    OriginatorRxStatus.accumulateFragment, hdefragmenting]
  rfl

theorem receiveFrom_last (hdefragmenting : originator.defragmenting = true)
    (hnext : originator.isNextFragment hdr.getSequenceControl = true)
    (hmore : hdr.ctrlMoreFrag = false) :
    receiveFrom packet hdr originator =
      some (⟨false, hdr.getSequenceControl, []⟩,
        some (originator.fragments ++ [packet]).flatten) := by
  rw [receiveFrom, if_pos hkind, hdup, handleFragments, hdefragmenting, hnext, hmore,
    OriginatorRxStatus.accumulateLastFragment, hdefragmenting]
  cases hdr.addr1.isGroup
  · simp [OriginatorRxStatus.setSequenceControl]
  · simp [OriginatorRxStatus.setSequenceControl]

theorem receiveFrom_first (hdefragmenting : originator.defragmenting = false)
    (hmore : hdr.ctrlMoreFrag = true) :
    receiveFrom packet hdr originator =
      some (⟨true, hdr.getSequenceControl, originator.fragments ++ [packet]⟩, none) := by
  rw [receiveFrom, if_pos hkind, hdup, handleFragments, hdefragmenting, hmore,
    OriginatorRxStatus.accumulateFirstFragment, hdefragmenting]
  rfl

theorem receiveFrom_whole (hdefragmenting : originator.defragmenting = false)
    (hmore : hdr.ctrlMoreFrag = false) :
    ∃ last, receiveFrom packet hdr originator =
      some (⟨false, last, originator.fragments⟩, some packet) := by
  obtain ⟨defragmenting, last, fragments⟩ := originator
  obtain rfl := hdefragmenting
  rw [receiveFrom, if_pos hkind, hdup, handleFragments, hmore]
  cases hdr.addr1.isGroup
  · exact ⟨hdr.getSequenceControl, by simp [OriginatorRxStatus.setSequenceControl]⟩
  · exact ⟨last, by simp⟩

end

end MacRxMiddle

end Ns3Noc.Wifi
