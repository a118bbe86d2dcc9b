import Ns3Noc.BitFields
import Mathlib

/-!
# The 802.11 MAC header

The type of a header, its size, and how it is written and read. `none` is a failed assertion or a
read beyond the end of the buffer.
-/
namespace Ns3Noc.WifiHeader

abbrev Bytes : Type := List UInt8

abbrev Mac48Address : Type := Vector UInt8 6

inductive WifiMacType
  | ctlRts
  | ctlCts
  | ctlAck
  | ctlBackreq
  | ctlBackresp
  | mgtBeacon
  | mgtAssociationRequest
  | mgtAssociationResponse
  | mgtDisassociation
  | mgtReassociationRequest
  | mgtReassociationResponse
  | mgtProbeRequest
  | mgtProbeResponse
  | mgtAuthentication
  | mgtDeauthentication
  | mgtAction
  | mgtActionNoAck
  | mgtMultihopAction
  | data
  | dataCfack
  | dataCfpoll
  | dataCfackCfpoll
  | dataNull
  | dataNullCfack
  | dataNullCfpoll
  | dataNullCfackCfpoll
  | qosdata
  | qosdataCfack
  | qosdataCfpoll
  | qosdataCfackCfpoll
  | qosdataNull
  | qosdataNullCfpoll
  | qosdataNullCfackCfpoll
  deriving DecidableEq, Repr

structure WifiMacHeader where
  ctrlType : ℕ
  ctrlSubtype : ℕ
  ctrlToDs : ℕ
  ctrlFromDs : ℕ
  ctrlMoreFrag : ℕ
  ctrlRetry : ℕ
  ctrlMoreData : ℕ
  ctrlWep : ℕ
  ctrlOrder : ℕ
  duration : ℕ
  addr1 : Mac48Address
  addr2 : Mac48Address
  addr3 : Mac48Address
  seqFrag : ℕ
  seqSeq : ℕ
  addr4 : Mac48Address
  qosTid : ℕ
  qosEosp : ℕ
  qosAckPolicy : ℕ
  amsduPresent : ℕ
  qosStuff : ℕ
  deriving DecidableEq

def TYPE_MGT : ℕ := 0
def TYPE_CTL : ℕ := 1
def TYPE_DATA : ℕ := 2

def SUBTYPE_CTL_BACKREQ : ℕ := 8
def SUBTYPE_CTL_BACKRESP : ℕ := 9
def SUBTYPE_CTL_RTS : ℕ := 11
def SUBTYPE_CTL_CTS : ℕ := 12
def SUBTYPE_CTL_ACK : ℕ := 13

namespace WifiMacHeader
variable (h : WifiMacHeader)

/-- The two assignments of a case of `SetType`. -/
def assign (ctrlType ctrlSubtype : ℕ) : WifiMacHeader :=
  { h with ctrlType := ctrlType, ctrlSubtype := ctrlSubtype }

/-- The switch of `SetType`. Three cases have no break. -/
def assignType : WifiMacType → WifiMacHeader
  | .ctlBackreq => h.assign TYPE_CTL SUBTYPE_CTL_BACKREQ
  | .ctlBackresp => h.assign TYPE_CTL SUBTYPE_CTL_BACKRESP
  | .ctlRts => h.assign TYPE_CTL SUBTYPE_CTL_RTS
  | .ctlCts => h.assign TYPE_CTL SUBTYPE_CTL_CTS
  | .ctlAck => h.assign TYPE_CTL SUBTYPE_CTL_ACK
  | .mgtAssociationRequest => h.assign TYPE_MGT 0
  | .mgtAssociationResponse => h.assign TYPE_MGT 1
  | .mgtReassociationRequest => h.assign TYPE_MGT 2
  | .mgtReassociationResponse => h.assign TYPE_MGT 3
  | .mgtProbeRequest => h.assign TYPE_MGT 4
  | .mgtProbeResponse => h.assign TYPE_MGT 5
  | .mgtBeacon => h.assign TYPE_MGT 8
  | .mgtDisassociation => h.assign TYPE_MGT 10
  | .mgtAuthentication => h.assign TYPE_MGT 11
  | .mgtDeauthentication =>
    (((h.assign TYPE_MGT 12).assign TYPE_MGT 13).assign TYPE_MGT 14).assign TYPE_MGT 15
  | .mgtAction => ((h.assign TYPE_MGT 13).assign TYPE_MGT 14).assign TYPE_MGT 15
  | .mgtActionNoAck => (h.assign TYPE_MGT 14).assign TYPE_MGT 15
  | .mgtMultihopAction => h.assign TYPE_MGT 15
  | .data => h.assign TYPE_DATA 0
  | .dataCfack => h.assign TYPE_DATA 1
  | .dataCfpoll => h.assign TYPE_DATA 2
  | .dataCfackCfpoll => h.assign TYPE_DATA 3
  | .dataNull => h.assign TYPE_DATA 4
  | .dataNullCfack => h.assign TYPE_DATA 5
  | .dataNullCfpoll => h.assign TYPE_DATA 6
  | .dataNullCfackCfpoll => h.assign TYPE_DATA 7
  | .qosdata => h.assign TYPE_DATA 8
  | .qosdataCfack => h.assign TYPE_DATA 9
  | .qosdataCfpoll => h.assign TYPE_DATA 10
  | .qosdataCfackCfpoll => h.assign TYPE_DATA 11
  | .qosdataNull => h.assign TYPE_DATA 12
  | .qosdataNullCfpoll => h.assign TYPE_DATA 14
  | .qosdataNullCfackCfpoll => h.assign TYPE_DATA 15

def setType (type : WifiMacType) : WifiMacHeader :=
  { h.assignType type with ctrlToDs := 0, ctrlFromDs := 0 }

/-- The cases of `GetType` for management frames. -/
def managementType : ℕ → Option WifiMacType
  | 0 => some .mgtAssociationRequest
  | 1 => some .mgtAssociationResponse
  | 2 => some .mgtReassociationRequest
  | 3 => some .mgtReassociationResponse
  | 4 => some .mgtProbeRequest
  | 5 => some .mgtProbeResponse
  | 8 => some .mgtBeacon
  | 10 => some .mgtDisassociation
  | 11 => some .mgtAuthentication
  | 12 => some .mgtDeauthentication
  | 13 => some .mgtAction
  | 14 => some .mgtActionNoAck
  | 15 => some .mgtMultihopAction
  | _ => none

def controlType (ctrlSubtype : ℕ) : Option WifiMacType :=
  if ctrlSubtype = SUBTYPE_CTL_BACKREQ then some .ctlBackreq
  else if ctrlSubtype = SUBTYPE_CTL_BACKRESP then some .ctlBackresp
  else if ctrlSubtype = SUBTYPE_CTL_RTS then some .ctlRts
  else if ctrlSubtype = SUBTYPE_CTL_CTS then some .ctlCts
  else if ctrlSubtype = SUBTYPE_CTL_ACK then some .ctlAck
  else none

def dataType : ℕ → Option WifiMacType
  | 0 => some .data
  | 1 => some .dataCfack
  | 2 => some .dataCfpoll
  | 3 => some .dataCfackCfpoll
  | 4 => some .dataNull
  | 5 => some .dataNullCfack
  | 6 => some .dataNullCfpoll
  | 7 => some .dataNullCfackCfpoll
  | 8 => some .qosdata
  | 9 => some .qosdataCfack
  | 10 => some .qosdataCfpoll
  | 11 => some .qosdataCfackCfpoll
  | 12 => some .qosdataNull
  | 14 => some .qosdataNullCfpoll
  | 15 => some .qosdataNullCfackCfpoll
  | _ => none

def getType : Option WifiMacType :=
  if h.ctrlType = TYPE_MGT then managementType h.ctrlSubtype
  else if h.ctrlType = TYPE_CTL then controlType h.ctrlSubtype
  else if h.ctrlType = TYPE_DATA then dataType h.ctrlSubtype
  else none

def getSequenceControl : ℕ := (h.seqSeq <<< 4 ||| h.seqFrag) % 65536

def getFrameControl : ℕ :=
  (h.ctrlType <<< 2) &&& (0x3 <<< 2) ||| (h.ctrlSubtype <<< 4) &&& (0xf <<< 4) |||
    (h.ctrlToDs <<< 8) &&& (0x1 <<< 8) ||| (h.ctrlFromDs <<< 9) &&& (0x1 <<< 9) |||
    (h.ctrlMoreFrag <<< 10) &&& (0x1 <<< 10) ||| (h.ctrlRetry <<< 11) &&& (0x1 <<< 11) |||
    (h.ctrlMoreData <<< 13) &&& (0x1 <<< 13) ||| (h.ctrlWep <<< 14) &&& (0x1 <<< 14) |||
    (h.ctrlOrder <<< 15) &&& (0x1 <<< 15)

def getQosControl : ℕ :=
  (h.qosTid ||| h.qosEosp <<< 4 ||| h.qosAckPolicy <<< 5 ||| h.amsduPresent <<< 7 |||
    h.qosStuff <<< 8) % 65536

def setFrameControl (ctrl : ℕ) : WifiMacHeader :=
  { h with
    ctrlType := (ctrl >>> 2) &&& 0x03
    ctrlSubtype := (ctrl >>> 4) &&& 0x0f
    ctrlToDs := (ctrl >>> 8) &&& 0x01
    ctrlFromDs := (ctrl >>> 9) &&& 0x01
    ctrlMoreFrag := (ctrl >>> 10) &&& 0x01
    ctrlRetry := (ctrl >>> 11) &&& 0x01
    ctrlMoreData := (ctrl >>> 13) &&& 0x01
    ctrlWep := (ctrl >>> 14) &&& 0x01
    ctrlOrder := (ctrl >>> 15) &&& 0x01 }

def setSequenceControl (seq : ℕ) : WifiMacHeader :=
  { h with seqFrag := seq &&& 0x0f, seqSeq := (seq >>> 4) &&& 0x0fff }

def setQosControl (qos : ℕ) : WifiMacHeader :=
  { h with
    qosTid := qos &&& 0x000f
    qosEosp := (qos >>> 4) &&& 0x0001
    qosAckPolicy := (qos >>> 5) &&& 0x0003
    amsduPresent := (qos >>> 7) &&& 0x0001
    qosStuff := (qos >>> 8) &&& 0x00ff }

def getSize : ℕ :=
  if h.ctrlType = TYPE_MGT then 2 + 2 + 6 + 6 + 6 + 2
  else if h.ctrlType = TYPE_CTL then
    if h.ctrlSubtype = SUBTYPE_CTL_RTS then 2 + 2 + 6 + 6
    else if h.ctrlSubtype = SUBTYPE_CTL_CTS ∨ h.ctrlSubtype = SUBTYPE_CTL_ACK then 2 + 2 + 6
    else if h.ctrlSubtype = SUBTYPE_CTL_BACKREQ ∨ h.ctrlSubtype = SUBTYPE_CTL_BACKRESP then
      2 + 2 + 6 + 6
    else 0
  else if h.ctrlType = TYPE_DATA then
    2 + 2 + 6 + 6 + 6 + 2 + (if h.ctrlToDs ≠ 0 ∧ h.ctrlFromDs ≠ 0 then 6 else 0) +
      (if h.ctrlSubtype &&& 0x08 ≠ 0 then 2 else 0)
  else 0

/-- `WriteHtolsbU16` -/
def writeHtolsbU16 (v : ℕ) : Bytes := [UInt8.ofNat v, UInt8.ofNat (v / 256)]

/-- What comes after the first address. -/
def serializeRest : Option Bytes :=
  if h.ctrlType = TYPE_MGT then
    some (h.addr2.toList ++ h.addr3.toList ++ writeHtolsbU16 h.getSequenceControl)
  else if h.ctrlType = TYPE_CTL then
    if h.ctrlSubtype = SUBTYPE_CTL_RTS then some h.addr2.toList
    else if h.ctrlSubtype = SUBTYPE_CTL_CTS ∨ h.ctrlSubtype = SUBTYPE_CTL_ACK then some []
    else if h.ctrlSubtype = SUBTYPE_CTL_BACKREQ ∨ h.ctrlSubtype = SUBTYPE_CTL_BACKRESP then
      some h.addr2.toList
    else none
  else if h.ctrlType = TYPE_DATA then
    some (h.addr2.toList ++ h.addr3.toList ++ writeHtolsbU16 h.getSequenceControl ++
      (if h.ctrlToDs ≠ 0 ∧ h.ctrlFromDs ≠ 0 then h.addr4.toList else []) ++
      (if h.ctrlSubtype &&& 0x08 ≠ 0 then writeHtolsbU16 h.getQosControl else []))
  else none

def serialize : Option Bytes :=
  h.serializeRest.map fun rest =>
    writeHtolsbU16 h.getFrameControl ++ writeHtolsbU16 h.duration ++ h.addr1.toList ++ rest

end WifiMacHeader

/-- `ReadLsbtohU16`, with what follows. -/
def readLsbtohU16 : Bytes → Option (ℕ × Bytes)
  | low :: high :: rest => some (low.toNat + 256 * high.toNat, rest)
  | _ => none

/-- `ReadFrom` of an address. -/
def readFrom (i : Bytes) : Option (Mac48Address × Bytes) :=
  if h : 6 ≤ i.length then
    some (⟨(i.take 6).toArray, by rw [List.size_toArray, List.length_take]; omega⟩, i.drop 6)
  else none

namespace WifiMacHeader
variable (h : WifiMacHeader)

/-- The second and third address and the sequence control. -/
def readAddresses (i : Bytes) : Option (WifiMacHeader × Bytes) := do
  let (addr2, i) ← readFrom i
  let (addr3, i) ← readFrom i
  let (seq, i) ← readLsbtohU16 i
  some ({ h with addr2 := addr2, addr3 := addr3 }.setSequenceControl seq, i)

/-- The optional fields of a data frame. -/
def readOptional (i : Bytes) : Option (WifiMacHeader × Bytes) := do
  let (h, i) ←
    if h.ctrlToDs ≠ 0 ∧ h.ctrlFromDs ≠ 0 then
      (readFrom i).map fun r => ({ h with addr4 := r.1 }, r.2)
    else some (h, i)
  if h.ctrlSubtype &&& 0x08 ≠ 0 then (readLsbtohU16 i).map fun r => (h.setQosControl r.1, r.2)
  else some (h, i)

/-- What comes after the first address. -/
def deserializeRest (i : Bytes) : Option (WifiMacHeader × Bytes) :=
  if h.ctrlType = TYPE_MGT then h.readAddresses i
  else if h.ctrlType = TYPE_CTL then
    if h.ctrlSubtype = SUBTYPE_CTL_RTS ∨ h.ctrlSubtype = SUBTYPE_CTL_BACKREQ ∨
        h.ctrlSubtype = SUBTYPE_CTL_BACKRESP then
      (readFrom i).map fun r => ({ h with addr2 := r.1 }, r.2)
    else some (h, i)
  else if h.ctrlType = TYPE_DATA then (h.readAddresses i).bind fun r => r.1.readOptional r.2
  else some (h, i)

/-- With the number of bytes that are consumed. -/
def deserialize (start : Bytes) : Option (WifiMacHeader × ℕ) := do
  let (frameControl, i) ← readLsbtohU16 start
  let (duration, i) ← readLsbtohU16 i
  let (addr1, i) ← readFrom i
  let (h, i) ← ({ h.setFrameControl frameControl with
    duration := duration, addr1 := addr1 }).deserializeRest i
  some (h, start.length - i.length)

end WifiMacHeader

/-! ## Words -/

section Words
variable {acc x y k w v : ℕ}

theorem or_shiftLeft (h : acc < 2 ^ k) : acc ||| y <<< k = acc + 2 ^ k * y := by
  rw [Nat.or_comm, BitFields.shiftLeft_or h]

theorem masked (h : x < 2 ^ w) : (x <<< k) &&& ((2 ^ w - 1) <<< k) = x <<< k := by
  rw [← Nat.shiftLeft_and_distrib, Nat.and_two_pow_sub_one_eq_mod, Nat.mod_eq_of_lt h]

/-- A field of a word. -/
theorem extract : (v >>> k) &&& (2 ^ w - 1) = v / 2 ^ k % 2 ^ w := by
  rw [Nat.and_two_pow_sub_one_eq_mod, Nat.shiftRight_eq_div_pow]

theorem readLsbtohU16_append (hv : v < 65536) (rest : Bytes) :
    readLsbtohU16 (WifiMacHeader.writeHtolsbU16 v ++ rest) = some (v, rest) := by
  have hlow : (UInt8.ofNat v).toNat = v % 256 := UInt8.toNat_ofNat'
  have hhigh : (UInt8.ofNat (v / 256)).toNat = v / 256 % 256 := UInt8.toNat_ofNat'
  change some ((UInt8.ofNat v).toNat + 256 * (UInt8.ofNat (v / 256)).toNat, rest) = _
  rw [hlow, hhigh, show v % 256 + 256 * (v / 256 % 256) = v by omega]

theorem readFrom_append (addr : Mac48Address) (rest : Bytes) :
    readFrom (addr.toList ++ rest) = some (addr, rest) := by
  have hlength : addr.toList.length = 6 := addr.length_toList
  have htake : (addr.toList ++ rest).take 6 = addr.toList := List.take_left' hlength
  rw [readFrom, dif_pos (by rw [List.length_append]; omega), List.drop_left' hlength]
  simp only [htake, Vector.toArray_toList]

end Words

namespace WifiMacHeader
variable {h h' : WifiMacHeader}

/-- The fields hold values in their bit widths. -/
structure InWidths (h : WifiMacHeader) : Prop where
  ctrlType : h.ctrlType < 4
  ctrlSubtype : h.ctrlSubtype < 16
  ctrlToDs : h.ctrlToDs < 2
  ctrlFromDs : h.ctrlFromDs < 2
  ctrlMoreFrag : h.ctrlMoreFrag < 2
  ctrlRetry : h.ctrlRetry < 2
  ctrlMoreData : h.ctrlMoreData < 2
  ctrlWep : h.ctrlWep < 2
  ctrlOrder : h.ctrlOrder < 2
  duration : h.duration < 65536
  seqFrag : h.seqFrag < 16
  seqSeq : h.seqSeq < 4096
  qosTid : h.qosTid < 16
  qosEosp : h.qosEosp < 2
  qosAckPolicy : h.qosAckPolicy < 4
  amsduPresent : h.amsduPresent < 2
  qosStuff : h.qosStuff < 256

theorem InWidths.getFrameControl (hw : InWidths h) :
    h.getFrameControl = 4 * h.ctrlType + 16 * h.ctrlSubtype + 256 * h.ctrlToDs +
      512 * h.ctrlFromDs + 1024 * h.ctrlMoreFrag + 2048 * h.ctrlRetry + 8192 * h.ctrlMoreData +
      16384 * h.ctrlWep + 32768 * h.ctrlOrder := by
  obtain ⟨h1, h2, h3, h4, h5, h6, h7, h8, h9, -⟩ := hw
  have m1 := masked (x := h.ctrlType) (w := 2) (k := 2) h1
  have m2 := masked (x := h.ctrlSubtype) (w := 4) (k := 4) h2
  have m3 := masked (x := h.ctrlToDs) (w := 1) (k := 8) h3
  have m4 := masked (x := h.ctrlFromDs) (w := 1) (k := 9) h4
  have m5 := masked (x := h.ctrlMoreFrag) (w := 1) (k := 10) h5
  have m6 := masked (x := h.ctrlRetry) (w := 1) (k := 11) h6
  have m7 := masked (x := h.ctrlMoreData) (w := 1) (k := 13) h7
  have m8 := masked (x := h.ctrlWep) (w := 1) (k := 14) h8
  have m9 := masked (x := h.ctrlOrder) (w := 1) (k := 15) h9
  norm_num only at m1 m2 m3 m4 m5 m6 m7 m8 m9
  rw [WifiMacHeader.getFrameControl, m1, m2, m3, m4, m5, m6, m7, m8, m9, Nat.shiftLeft_eq _ 2,
    or_shiftLeft (k := 4) (by omega), or_shiftLeft (k := 8) (by omega),
    or_shiftLeft (k := 9) (by omega), or_shiftLeft (k := 10) (by omega),
    or_shiftLeft (k := 11) (by omega), or_shiftLeft (k := 13) (by omega),
    or_shiftLeft (k := 14) (by omega), or_shiftLeft (k := 15) (by omega)]
  omega

theorem InWidths.getSequenceControl (hw : InWidths h) :
    h.getSequenceControl = 16 * h.seqSeq + h.seqFrag := by
  have hfrag := hw.seqFrag
  have hseq := hw.seqSeq
  rw [WifiMacHeader.getSequenceControl, BitFields.shiftLeft_or (k := 4) hfrag]
  omega

theorem InWidths.getQosControl (hw : InWidths h) :
    h.getQosControl = h.qosTid + 16 * h.qosEosp + 32 * h.qosAckPolicy + 128 * h.amsduPresent +
      256 * h.qosStuff := by
  have h1 := hw.qosTid
  have h2 := hw.qosEosp
  have h3 := hw.qosAckPolicy
  have h4 := hw.amsduPresent
  have h5 := hw.qosStuff
  rw [WifiMacHeader.getQosControl, or_shiftLeft (k := 4) (by omega),
    or_shiftLeft (k := 5) (by omega), or_shiftLeft (k := 7) (by omega),
    or_shiftLeft (k := 8) (by omega)]
  omega

/-- The fields of the frame control are those of another header. -/
def sameControl (h h' : WifiMacHeader) : WifiMacHeader :=
  { h with
    ctrlType := h'.ctrlType
    ctrlSubtype := h'.ctrlSubtype
    ctrlToDs := h'.ctrlToDs
    ctrlFromDs := h'.ctrlFromDs
    ctrlMoreFrag := h'.ctrlMoreFrag
    ctrlRetry := h'.ctrlRetry
    ctrlMoreData := h'.ctrlMoreData
    ctrlWep := h'.ctrlWep
    ctrlOrder := h'.ctrlOrder }

theorem setFrameControl_getFrameControl (hw : InWidths h') :
    h.setFrameControl h'.getFrameControl = h.sameControl h' := by
  have hval := hw.getFrameControl
  obtain ⟨h1, h2, h3, h4, h5, h6, h7, h8, h9, -⟩ := hw
  generalize h'.getFrameControl = v at hval
  have e1 : (v >>> 2) &&& 0x03 = h'.ctrlType := (extract (w := 2)).trans (by omega)
  have e2 : (v >>> 4) &&& 0x0f = h'.ctrlSubtype := (extract (w := 4)).trans (by omega)
  have e3 : (v >>> 8) &&& 0x01 = h'.ctrlToDs := (extract (w := 1)).trans (by omega)
  have e4 : (v >>> 9) &&& 0x01 = h'.ctrlFromDs := (extract (w := 1)).trans (by omega)
  have e5 : (v >>> 10) &&& 0x01 = h'.ctrlMoreFrag := (extract (w := 1)).trans (by omega)
  have e6 : (v >>> 11) &&& 0x01 = h'.ctrlRetry := (extract (w := 1)).trans (by omega)
  have e7 : (v >>> 13) &&& 0x01 = h'.ctrlMoreData := (extract (w := 1)).trans (by omega)
  have e8 : (v >>> 14) &&& 0x01 = h'.ctrlWep := (extract (w := 1)).trans (by omega)
  have e9 : (v >>> 15) &&& 0x01 = h'.ctrlOrder := (extract (w := 1)).trans (by omega)
  rw [setFrameControl, sameControl, e1, e2, e3, e4, e5, e6, e7, e8, e9]

theorem setSequenceControl_getSequenceControl (hw : InWidths h') :
    h.setSequenceControl h'.getSequenceControl =
      { h with seqFrag := h'.seqFrag, seqSeq := h'.seqSeq } := by
  have hval := hw.getSequenceControl
  have hfrag := hw.seqFrag
  have hseq := hw.seqSeq
  generalize h'.getSequenceControl = v at hval
  have e1 : v &&& 0x0f = h'.seqFrag := (extract (k := 0) (w := 4)).trans (by omega)
  have e2 : (v >>> 4) &&& 0x0fff = h'.seqSeq := (extract (w := 12)).trans (by omega)
  rw [setSequenceControl, e1, e2]

theorem setQosControl_getQosControl (hw : InWidths h') :
    h.setQosControl h'.getQosControl =
      { h with
        qosTid := h'.qosTid
        qosEosp := h'.qosEosp
        qosAckPolicy := h'.qosAckPolicy
        amsduPresent := h'.amsduPresent
        qosStuff := h'.qosStuff } := by
  have hval := hw.getQosControl
  have h1 := hw.qosTid
  have h2 := hw.qosEosp
  have h3 := hw.qosAckPolicy
  have h4 := hw.amsduPresent
  have h5 := hw.qosStuff
  generalize h'.getQosControl = v at hval
  have e1 : v &&& 0x000f = h'.qosTid := (extract (k := 0) (w := 4)).trans (by omega)
  have e2 : (v >>> 4) &&& 0x0001 = h'.qosEosp := (extract (w := 1)).trans (by omega)
  have e3 : (v >>> 5) &&& 0x0003 = h'.qosAckPolicy := (extract (w := 2)).trans (by omega)
  have e4 : (v >>> 7) &&& 0x0001 = h'.amsduPresent := (extract (w := 1)).trans (by omega)
  have e5 : (v >>> 8) &&& 0x00ff = h'.qosStuff := (extract (w := 8)).trans (by omega)
  rw [setQosControl, e1, e2, e3, e4, e5]

/-! ## Reading what was written -/

theorem readAddresses_append (hw : InWidths h') (rest : Bytes) :
    h.readAddresses (h'.addr2.toList ++ h'.addr3.toList ++
        writeHtolsbU16 h'.getSequenceControl ++ rest) =
      some ({ h with
        addr2 := h'.addr2
        addr3 := h'.addr3
        seqFrag := h'.seqFrag
        seqSeq := h'.seqSeq }, rest) := by
  have hseq : h'.getSequenceControl < 65536 := by
    have hval := hw.getSequenceControl
    have h1 := hw.seqFrag
    have h2 := hw.seqSeq
    omega
  rw [readAddresses, List.append_assoc, List.append_assoc, readFrom_append]
  simp only [Option.bind_eq_bind, Option.bind_some, readFrom_append, readLsbtohU16_append hseq,
    setSequenceControl_getSequenceControl hw]

theorem readOptional_append (hw : InWidths h') (hto : h.ctrlToDs = h'.ctrlToDs)
    (hfrom : h.ctrlFromDs = h'.ctrlFromDs) (hsub : h.ctrlSubtype = h'.ctrlSubtype) (rest : Bytes) :
    h.readOptional ((if h'.ctrlToDs ≠ 0 ∧ h'.ctrlFromDs ≠ 0 then h'.addr4.toList else []) ++
        (if h'.ctrlSubtype &&& 0x08 ≠ 0 then writeHtolsbU16 h'.getQosControl else []) ++ rest) =
      some ({ h with
        addr4 := if h'.ctrlToDs ≠ 0 ∧ h'.ctrlFromDs ≠ 0 then h'.addr4 else h.addr4
        qosTid := if h'.ctrlSubtype &&& 0x08 ≠ 0 then h'.qosTid else h.qosTid
        qosEosp := if h'.ctrlSubtype &&& 0x08 ≠ 0 then h'.qosEosp else h.qosEosp
        qosAckPolicy := if h'.ctrlSubtype &&& 0x08 ≠ 0 then h'.qosAckPolicy else h.qosAckPolicy
        amsduPresent := if h'.ctrlSubtype &&& 0x08 ≠ 0 then h'.amsduPresent else h.amsduPresent
        qosStuff := if h'.ctrlSubtype &&& 0x08 ≠ 0 then h'.qosStuff else h.qosStuff }, rest) := by
  have hqos : h'.getQosControl < 65536 := by
    have hval := hw.getQosControl
    have h1 := hw.qosTid
    have h2 := hw.qosEosp
    have h3 := hw.qosAckPolicy
    have h4 := hw.amsduPresent
    have h5 := hw.qosStuff
    omega
  rw [readOptional]
  by_cases hds : h'.ctrlToDs ≠ 0 ∧ h'.ctrlFromDs ≠ 0
  · have hds' : h.ctrlToDs ≠ 0 ∧ h.ctrlFromDs ≠ 0 := by rwa [hto, hfrom]
    by_cases hbit : h'.ctrlSubtype &&& 0x08 ≠ 0
    · have hbit' : h.ctrlSubtype &&& 0x08 ≠ 0 := by rwa [hsub]
      simp only [if_pos hds, if_pos hds', if_pos hbit, if_pos hbit', List.append_assoc,
        readFrom_append, Option.map_some, Option.bind_eq_bind, Option.bind_some,
        readLsbtohU16_append hqos, setQosControl_getQosControl hw]
    · have hbit' : ¬h.ctrlSubtype &&& 0x08 ≠ 0 := by rwa [hsub]
      simp only [if_pos hds, if_pos hds', if_neg hbit, if_neg hbit', List.append_nil,
        readFrom_append, Option.map_some, Option.bind_eq_bind, Option.bind_some]
  · have hds' : ¬(h.ctrlToDs ≠ 0 ∧ h.ctrlFromDs ≠ 0) := by rwa [hto, hfrom]
    by_cases hbit : h'.ctrlSubtype &&& 0x08 ≠ 0
    · have hbit' : h.ctrlSubtype &&& 0x08 ≠ 0 := by rwa [hsub]
      simp only [if_neg hds, if_neg hds', if_pos hbit, if_pos hbit', List.nil_append,
        Option.map_some, Option.bind_eq_bind, Option.bind_some, readLsbtohU16_append hqos,
        setQosControl_getQosControl hw]
    · have hbit' : ¬h.ctrlSubtype &&& 0x08 ≠ 0 := by rwa [hsub]
      simp only [if_neg hds, if_neg hds', if_neg hbit, if_neg hbit', List.nil_append,
        Option.bind_eq_bind, Option.bind_some]

/-- The fields that come after the first address, as far as the frame has them. -/
structure Carries (h h' : WifiMacHeader) : Prop where
  addr2 : ¬(h.ctrlType = TYPE_CTL ∧ (h.ctrlSubtype = SUBTYPE_CTL_CTS ∨
    h.ctrlSubtype = SUBTYPE_CTL_ACK)) → h'.addr2 = h.addr2
  addr3 : h.ctrlType ≠ TYPE_CTL → h'.addr3 = h.addr3
  sequence : h.ctrlType ≠ TYPE_CTL → h'.seqFrag = h.seqFrag ∧ h'.seqSeq = h.seqSeq
  addr4 : h.ctrlType = TYPE_DATA → h.ctrlToDs ≠ 0 → h.ctrlFromDs ≠ 0 → h'.addr4 = h.addr4
  qos : h.ctrlType = TYPE_DATA → h.ctrlSubtype &&& 0x08 ≠ 0 →
    h'.qosTid = h.qosTid ∧ h'.qosEosp = h.qosEosp ∧ h'.qosAckPolicy = h.qosAckPolicy ∧
      h'.amsduPresent = h.amsduPresent ∧ h'.qosStuff = h.qosStuff

/-- The fields up to the first address. -/
structure SameStart (h h' : WifiMacHeader) : Prop where
  ctrlType : h'.ctrlType = h.ctrlType
  ctrlSubtype : h'.ctrlSubtype = h.ctrlSubtype
  ctrlToDs : h'.ctrlToDs = h.ctrlToDs
  ctrlFromDs : h'.ctrlFromDs = h.ctrlFromDs
  ctrlMoreFrag : h'.ctrlMoreFrag = h.ctrlMoreFrag
  ctrlRetry : h'.ctrlRetry = h.ctrlRetry
  duration : h'.duration = h.duration
  addr1 : h'.addr1 = h.addr1

theorem deserializeRest_append (hw : InWidths h) (hstart : SameStart h h') {bytes : Bytes}
    (hbytes : h.serializeRest = some bytes) (rest : Bytes) :
    ∃ h₁, h'.deserializeRest (bytes ++ rest) = some (h₁, rest) ∧ SameStart h h₁ ∧
      Carries h h₁ := by
  obtain ⟨htype, hsub, hto, hfrom, hfrag, hretry, hduration, haddr1⟩ := hstart
  rw [serializeRest] at hbytes
  rw [deserializeRest, htype, hsub]
  by_cases hmgt : h.ctrlType = TYPE_MGT
  · rw [if_pos hmgt] at hbytes ⊢
    cases hbytes
    have hctl : h.ctrlType ≠ TYPE_CTL := by rw [hmgt]; decide
    have hdata : h.ctrlType ≠ TYPE_DATA := by rw [hmgt]; decide
    exact ⟨_, readAddresses_append hw rest, ⟨htype, hsub, hto, hfrom, hfrag, hretry, hduration,
      haddr1⟩, fun _ => rfl, fun _ => rfl, fun _ => ⟨rfl, rfl⟩, fun h => absurd h hdata,
      fun h => absurd h hdata⟩
  · rw [if_neg hmgt] at hbytes ⊢
    by_cases hctl : h.ctrlType = TYPE_CTL
    · have hdata : h.ctrlType ≠ TYPE_DATA := by rw [hctl]; decide
      rw [if_pos hctl] at hbytes ⊢
      by_cases hshort : h.ctrlSubtype = SUBTYPE_CTL_CTS ∨ h.ctrlSubtype = SUBTYPE_CTL_ACK
      · have hnot : ¬(h.ctrlSubtype = SUBTYPE_CTL_RTS ∨ h.ctrlSubtype = SUBTYPE_CTL_BACKREQ ∨
            h.ctrlSubtype = SUBTYPE_CTL_BACKRESP) := by
          rcases hshort with hs | hs <;> rw [hs] <;> decide
        rw [if_neg fun hs => hnot (.inl hs), if_pos hshort] at hbytes
        cases hbytes
        rw [if_neg hnot]
        exact ⟨h', rfl, ⟨htype, hsub, hto, hfrom, hfrag, hretry, hduration, haddr1⟩,
          fun hn => absurd ⟨hctl, hshort⟩ hn, fun hn => absurd hctl hn, fun hn => absurd hctl hn,
          fun h => absurd h hdata, fun h => absurd h hdata⟩
      · have hlong : h.ctrlSubtype = SUBTYPE_CTL_RTS ∨ h.ctrlSubtype = SUBTYPE_CTL_BACKREQ ∨
            h.ctrlSubtype = SUBTYPE_CTL_BACKRESP := by
          by_contra hnot
          rw [not_or] at hnot
          rw [if_neg hnot.1, if_neg hshort, if_neg hnot.2] at hbytes
          cases hbytes
        have haddr2 : bytes = h.addr2.toList := by
          by_cases hrts : h.ctrlSubtype = SUBTYPE_CTL_RTS
          · rw [if_pos hrts] at hbytes
            exact (Option.some.inj hbytes).symm
          · rw [if_neg hrts, if_neg hshort, if_pos (hlong.resolve_left hrts)] at hbytes
            exact (Option.some.inj hbytes).symm
        rw [if_pos hlong, haddr2, readFrom_append]
        exact ⟨_, rfl, ⟨rfl, rfl, hto, hfrom, hfrag, hretry, hduration, haddr1⟩, fun _ => rfl,
          fun hn => absurd hctl hn, fun hn => absurd hctl hn, fun h => absurd h hdata,
          fun h => absurd h hdata⟩
    · rw [if_neg hctl] at hbytes ⊢
      by_cases hdata : h.ctrlType = TYPE_DATA
      · rw [if_pos hdata] at hbytes ⊢
        cases hbytes
        have hsplit (front opt₁ opt₂ : Bytes) :
            front ++ opt₁ ++ opt₂ ++ rest = front ++ (opt₁ ++ opt₂ ++ rest) := by
          simp only [List.append_assoc]
        have hoptional := readOptional_append (h := { h' with
          addr2 := h.addr2
          addr3 := h.addr3
          seqFrag := h.seqFrag
          seqSeq := h.seqSeq }) hw hto hfrom hsub rest
        rw [hsplit, readAddresses_append hw, Option.bind_some]
        exact ⟨_, hoptional, ⟨htype, hsub, hto, hfrom, hfrag, hretry, hduration, haddr1⟩,
          fun _ => rfl, fun _ => rfl, fun _ => ⟨rfl, rfl⟩, fun _ ht hf => if_pos ⟨ht, hf⟩,
          fun _ hbit => ⟨if_pos hbit, if_pos hbit, if_pos hbit, if_pos hbit, if_pos hbit⟩⟩
      · rw [if_neg hdata] at hbytes
        cases hbytes

theorem deserialize_serialize (hw : InWidths h) {bytes : Bytes} (hbytes : h.serialize = some bytes)
    (h₀ : WifiMacHeader) (rest : Bytes) :
    ∃ h₁, h₀.deserialize (bytes ++ rest) = some (h₁, bytes.length) ∧ SameStart h h₁ ∧
      Carries h h₁ := by
  obtain ⟨tail, htail, rfl⟩ := Option.map_eq_some_iff.mp hbytes
  have hcontrol : h.getFrameControl < 65536 := by
    have hval := hw.getFrameControl
    obtain ⟨h1, h2, h3, h4, h5, h6, h7, h8, h9, -⟩ := hw
    omega
  have hstart : SameStart h { h₀.setFrameControl h.getFrameControl with
      duration := h.duration, addr1 := h.addr1 } := by
    rw [setFrameControl_getFrameControl hw]
    exact ⟨rfl, rfl, rfl, rfl, rfl, rfl, rfl, rfl⟩
  obtain ⟨h₁, hread, hsame, hcarries⟩ := deserializeRest_append hw hstart htail rest
  refine ⟨h₁, ?_, hsame, hcarries⟩
  rw [deserialize, List.append_assoc, List.append_assoc, List.append_assoc]
  simp only [readLsbtohU16_append hcontrol, readLsbtohU16_append hw.duration, readFrom_append,
    Option.bind_eq_bind, Option.bind_some, hread]
  congr 2
  simp only [List.length_append]
  omega

theorem length_serialize {bytes : Bytes} (hbytes : h.serialize = some bytes) :
    bytes.length = h.getSize := by
  obtain ⟨tail, htail, rfl⟩ := Option.map_eq_some_iff.mp hbytes
  have hword (v : ℕ) : (writeHtolsbU16 v).length = 2 := rfl
  have haddr (addr : Mac48Address) : addr.toList.length = 6 := addr.length_toList
  simp only [List.length_append, hword, haddr]
  rw [serializeRest] at htail
  rw [getSize]
  by_cases hmgt : h.ctrlType = TYPE_MGT
  · rw [if_pos hmgt] at htail ⊢
    cases htail
    simp only [List.length_append, hword, haddr]
  · rw [if_neg hmgt] at htail ⊢
    by_cases hctl : h.ctrlType = TYPE_CTL
    · rw [if_pos hctl] at htail ⊢
      by_cases hrts : h.ctrlSubtype = SUBTYPE_CTL_RTS
      · rw [if_pos hrts] at htail ⊢
        cases htail
        rw [haddr]
      · rw [if_neg hrts] at htail ⊢
        by_cases hshort : h.ctrlSubtype = SUBTYPE_CTL_CTS ∨ h.ctrlSubtype = SUBTYPE_CTL_ACK
        · rw [if_pos hshort] at htail ⊢
          cases htail
          rfl
        · rw [if_neg hshort] at htail ⊢
          by_cases hback : h.ctrlSubtype = SUBTYPE_CTL_BACKREQ ∨
              h.ctrlSubtype = SUBTYPE_CTL_BACKRESP
          · rw [if_pos hback] at htail ⊢
            cases htail
            rw [haddr]
          · rw [if_neg hback] at htail
            cases htail
    · rw [if_neg hctl] at htail ⊢
      by_cases hdata : h.ctrlType = TYPE_DATA
      · rw [if_pos hdata] at htail ⊢
        cases htail
        simp only [List.length_append, hword, haddr, apply_ite List.length, List.length_nil]
        omega
      · rw [if_neg hdata] at htail
        cases htail

end WifiMacHeader

/-! ## Types -/

namespace WifiMacType

/-- Control frames have no sequence control, and two of them no second address. -/
def isControl : WifiMacType → Bool
  | .ctlRts | .ctlCts | .ctlAck | .ctlBackreq | .ctlBackresp => true
  | _ => false

def isQosData : WifiMacType → Bool
  | .qosdata | .qosdataCfack | .qosdataCfpoll | .qosdataCfackCfpoll | .qosdataNull
  | .qosdataNullCfpoll | .qosdataNullCfackCfpoll => true
  | _ => false

def isData : WifiMacType → Bool
  | .data | .dataCfack | .dataCfpoll | .dataCfackCfpoll | .dataNull | .dataNullCfack
  | .dataNullCfpoll | .dataNullCfackCfpoll => true
  | type => type.isQosData

/-- The cases of `SetType` without a break. -/
def FallsThrough (type : WifiMacType) : Prop :=
  type = .mgtDeauthentication ∨ type = .mgtAction ∨ type = .mgtActionNoAck

instance : DecidablePred FallsThrough := fun type =>
  inferInstanceAs (Decidable (type = .mgtDeauthentication ∨ type = .mgtAction ∨
    type = .mgtActionNoAck))

end WifiMacType

namespace WifiMacHeader
variable {h : WifiMacHeader} {type : WifiMacType}

/-- What the two fields say about a type that was set. -/
structure TypedAs (type : WifiMacType) (h : WifiMacHeader) : Prop where
  control : type.isControl = true ↔ h.ctrlType = TYPE_CTL
  short : type = .ctlCts ∨ type = .ctlAck ↔ h.ctrlType = TYPE_CTL ∧
    (h.ctrlSubtype = SUBTYPE_CTL_CTS ∨ h.ctrlSubtype = SUBTYPE_CTL_ACK)
  data : type.isData = true ↔ h.ctrlType = TYPE_DATA
  qos : type.isQosData = true ↔ h.ctrlType = TYPE_DATA ∧ h.ctrlSubtype &&& 0x08 ≠ 0
  serialized : h.serializeRest.isSome = true
  widths : h.ctrlType < 4 ∧ h.ctrlSubtype < 16

/-- The header after `SetType` and the setters of the DS flags. -/
def chosen (h : WifiMacHeader) (type : WifiMacType) (toDs fromDs : ℕ) : WifiMacHeader :=
  { h.setType type with ctrlToDs := toDs, ctrlFromDs := fromDs }

/-- A header whose fields are zero. -/
def zero : WifiMacHeader :=
  ⟨0, 0, 0, 0, 0, 0, 0, 0, 0, 0, .replicate 6 0, .replicate 6 0, .replicate 6 0, 0, 0,
    .replicate 6 0, 0, 0, 0, 0, 0⟩

/-- `SetType` gives every header the same two fields. -/
theorem ctrl_chosen (h : WifiMacHeader) (type : WifiMacType) (toDs fromDs : ℕ) :
    (h.chosen type toDs fromDs).ctrlType = (zero.setType type).ctrlType ∧
      (h.chosen type toDs fromDs).ctrlSubtype = (zero.setType type).ctrlSubtype := by
  cases type <;> exact ⟨rfl, rfl⟩

theorem serializeRest_chosen (h : WifiMacHeader) (type : WifiMacType) (toDs fromDs : ℕ) :
    (h.chosen type toDs fromDs).serializeRest.isSome = true := by
  cases type <;> rfl

theorem typedAs_chosen (h : WifiMacHeader) (type : WifiMacType) (toDs fromDs : ℕ) :
    TypedAs type (h.chosen type toDs fromDs) := by
  obtain ⟨hctrlType, hctrlSubtype⟩ := ctrl_chosen h type toDs fromDs
  refine ⟨?_, ?_, ?_, ?_, serializeRest_chosen h type toDs fromDs, ?_⟩ <;>
    simp only [hctrlType, hctrlSubtype] <;> cases type <;> decide

theorem getType_chosen_iff (h : WifiMacHeader) (type : WifiMacType) (toDs fromDs : ℕ) :
    (h.chosen type toDs fromDs).getType = some type ↔ ¬type.FallsThrough := by
  obtain ⟨hctrlType, hctrlSubtype⟩ := ctrl_chosen h type toDs fromDs
  rw [getType, hctrlType, hctrlSubtype]
  cases type <;> decide

/-! ## The codec -/

/-- The fields that a frame of the type carries are the same. -/
structure Restores (type : WifiMacType) (h h' : WifiMacHeader) : Prop where
  ctrl : h'.ctrlType = h.ctrlType ∧ h'.ctrlSubtype = h.ctrlSubtype
  ds : h'.ctrlToDs = h.ctrlToDs ∧ h'.ctrlFromDs = h.ctrlFromDs
  moreFrag : h'.ctrlMoreFrag = h.ctrlMoreFrag
  retry : h'.ctrlRetry = h.ctrlRetry
  duration : h'.duration = h.duration
  addr1 : h'.addr1 = h.addr1
  addr2 : type ≠ .ctlCts → type ≠ .ctlAck → h'.addr2 = h.addr2
  addr3 : type.isControl = false → h'.addr3 = h.addr3
  sequence : type.isControl = false → h'.seqFrag = h.seqFrag ∧ h'.seqSeq = h.seqSeq
  addr4 : type.isData = true → h.ctrlToDs ≠ 0 → h.ctrlFromDs ≠ 0 → h'.addr4 = h.addr4
  qos : type.isQosData = true → h'.qosTid = h.qosTid ∧ h'.qosEosp = h.qosEosp ∧
    h'.qosAckPolicy = h.qosAckPolicy ∧ h'.amsduPresent = h.amsduPresent ∧
      h'.qosStuff = h.qosStuff

/-- What the codec is to do with a header of the type. -/
structure Codes (type : WifiMacType) (h : WifiMacHeader) : Prop where
  getType : h.getType = some type
  written : ∃ bytes, h.serialize = some bytes ∧ bytes.length = h.getSize ∧
    ∀ (h₀ : WifiMacHeader) (rest : Bytes), ∃ h',
      h₀.deserialize (bytes ++ rest) = some (h', bytes.length) ∧
      h'.getType = some type ∧ Restores type h h'

theorem TypedAs.restores {h' : WifiMacHeader} (ht : TypedAs type h) (hstart : SameStart h h')
    (hcarries : Carries h h') : Restores type h h' where
  ctrl := ⟨hstart.ctrlType, hstart.ctrlSubtype⟩
  ds := ⟨hstart.ctrlToDs, hstart.ctrlFromDs⟩
  moreFrag := hstart.ctrlMoreFrag
  retry := hstart.ctrlRetry
  duration := hstart.duration
  addr1 := hstart.addr1
  addr2 hcts hack := hcarries.addr2 fun hshort => (ht.short.mpr hshort).elim hcts hack
  addr3 hcontrol := hcarries.addr3 fun hctl => by
    rw [ht.control.mpr hctl] at hcontrol
    cases hcontrol
  sequence hcontrol := hcarries.sequence fun hctl => by
    rw [ht.control.mpr hctl] at hcontrol
    cases hcontrol
  addr4 hdata := hcarries.addr4 (ht.data.mp hdata)
  qos hqos := hcarries.qos (ht.qos.mp hqos).1 (ht.qos.mp hqos).2

theorem SameStart.getType {h' : WifiMacHeader} (hstart : SameStart h h') :
    h'.getType = h.getType := by
  rw [WifiMacHeader.getType, WifiMacHeader.getType, hstart.ctrlType, hstart.ctrlSubtype]

/-- Writing and reading keep every header, whatever type was chosen. Three types are another
one once they are chosen. -/
theorem codes_chosen_iff (h : WifiMacHeader) (type : WifiMacType) (toDs fromDs : ℕ)
    (hw : InWidths (h.chosen type toDs fromDs)) :
    Codes type (h.chosen type toDs fromDs) ↔ ¬type.FallsThrough := by
  constructor
  · intro hcodes
    exact (getType_chosen_iff h type toDs fromDs).mp hcodes.getType
  · intro hfalls
    have htype := (getType_chosen_iff h type toDs fromDs).mpr hfalls
    have htyped := typedAs_chosen h type toDs fromDs
    generalize h.chosen type toDs fromDs = hdr at hw htype htyped ⊢
    have hsome : hdr.serialize.isSome = true := by
      rw [serialize, Option.isSome_map]
      exact htyped.serialized
    obtain ⟨bytes, hbytes⟩ := Option.isSome_iff_exists.mp hsome
    refine ⟨htype, bytes, hbytes, length_serialize hbytes, fun h₀ tail => ?_⟩
    obtain ⟨h', hread, hstart, hcarries⟩ := deserialize_serialize hw hbytes h₀ tail
    exact ⟨h', hread, hstart.getType.trans htype, htyped.restores hstart hcarries⟩

theorem inWidths_chosen_zero (type : WifiMacType) : InWidths (zero.chosen type 1 1) := by
  cases type <;> constructor <;> decide

/-- A QoS data frame between two access points. -/
theorem codes_chosen_qosdata : Codes .qosdata (zero.chosen .qosdata 1 1) :=
  (codes_chosen_iff zero .qosdata 1 1 (inWidths_chosen_zero .qosdata)).mpr (by decide)

/-- An action frame becomes a multihop action frame. -/
theorem not_codes_chosen : ¬∀ (h : WifiMacHeader) (type : WifiMacType) (toDs fromDs : ℕ),
    InWidths (h.chosen type toDs fromDs) → Codes type (h.chosen type toDs fromDs) := by
  intro hall
  have hcodes := hall zero .mgtAction 1 1 (inWidths_chosen_zero .mgtAction)
  have hother : (zero.chosen .mgtAction 1 1).getType = some .mgtMultihopAction := by decide
  rw [hcodes.getType] at hother
  cases hother

end WifiMacHeader

end Ns3Noc.WifiHeader
