import Ns3Noc.BigEndian
import Ns3Noc.ByteSlices

/-!
# The type, length and value encoding of WiMAX

Service flows with their parameters, the parameters of the convergence sublayer and the
classification rules. Reading behind the end of the bytes fails.
-/
namespace Ns3Noc.Wimax

open BigEndian

/-- `uint32_t` arithmetic -/
def uint32 (n : ℕ) : ℕ := n % 4294967296

/-- The types of one kind of vector, by their codes. -/
class TlvType (τ : Type) where
  code : τ → UInt8
  all : List τ

def TlvType.ofCode? {τ : Type} [TlvType τ] (code : UInt8) : Option τ :=
  (TlvType.all : List τ).find? fun type => TlvType.code type = code

/-- The virtual functions `GetSerializedSize` and `Serialize` -/
class TlvValue (ν : Type) where
  getSerializedSize : ν → ℕ
  serialize : ν → List UInt8

structure Tlv (τ ν : Type) where
  type : τ
  length : ℕ
  value : ν
  deriving DecidableEq, Repr

/-- The loop of `GetSizeOfLen`; seven turns are enough for a length up to `255 ^ 8`. -/
def sizeOfLenLoop (length : ℕ) : ℕ → ℕ → ℕ → ℕ
  | 0, sizeOfLen, _ => sizeOfLen
  | turns + 1, sizeOfLen, testValue =>
    if length > testValue then
      sizeOfLenLoop length turns (sizeOfLen + 1) (testValue * 0xFF % 18446744073709551616)
    else sizeOfLen

def getSizeOfLen (length : ℕ) : ℕ := if length > 127 then sizeOfLenLoop length 7 2 0xFF else 1

/-- The length field -/
def serializeLength (length : ℕ) : List UInt8 :=
  let lenSize := getSizeOfLen length
  if lenSize = 1 then [UInt8.ofNat length]
  else (UInt8.ofNat (lenSize - 1) ||| 0x80) :: toBytes (lenSize - 1) length

/-- The length, the number of bytes that it takes, and what follows it. -/
def deserializeLength : List UInt8 → Option (ℕ × ℕ × List UInt8)
  | [] => none
  | lenSize :: bytes =>
    if lenSize < 127 then some (lenSize.toNat, 1, bytes)
    else
      let n := (lenSize &&& 0x7F).toNat
      (readNumber n bytes).map fun r => (r.1 % 18446744073709551616, 1 + n, r.2)

section Serialize

variable {τ ν : Type} [TlvType τ] [TlvValue ν]

def Tlv.getSerializedSize (tlv : Tlv τ ν) : ℕ :=
  uint32 (1 + getSizeOfLen tlv.length + TlvValue.getSerializedSize tlv.value)

def Tlv.serialize (tlv : Tlv τ ν) : List UInt8 :=
  TlvType.code tlv.type :: serializeLength tlv.length ++ TlvValue.serialize tlv.value

/-- `VectorTlvValue::Serialize` into a buffer of zeros, where each TLV is written
`GetSerializedSize` bytes after the one before it. -/
def serializeVector : List (Tlv τ ν) → List UInt8
  | [] => []
  | tlv :: tlvs =>
    let size := tlv.getSerializedSize
    ByteSlices.overlay (tlv.serialize.rightpad size 0) size (serializeVector tlvs)

instance : TlvValue (List (Tlv τ ν)) where
  getSerializedSize tlvs := tlvs.foldl (fun size tlv => uint32 (size + tlv.getSerializedSize)) 0
  serialize := serializeVector

end Serialize

/-- The TLV that is read for a type and a length, if one is added, and the bytes that are counted for
its value. -/
abbrev Reader (τ ν : Type) := UInt8 → ℕ → List UInt8 → Option (Option (Tlv τ ν) × ℕ)

/-- The loop of the readers of vectors, in `turns` turns at most. -/
def deserializeLoop {τ ν : Type} (read : Reader τ ν) (valueLen : ℕ) :
    ℕ → ℕ → List UInt8 → Option (List (Tlv τ ν) × ℕ)
  | 0, _, _ => none
  | turns + 1, serializedSize, bytes =>
    if serializedSize < valueLen then do
      let type ← bytes.head?
      let (length, n, bytes) ← deserializeLength bytes.tail
      let (tlv, size) ← read type length bytes
      let delta := uint32 length
      if bytes.length < delta then none
      let (tlvs, serializedSize) ← deserializeLoop read valueLen turns
        (serializedSize + 1 + n + size) (bytes.drop delta)
      return (tlv.toList ++ tlvs, serializedSize)
    else some ([], serializedSize)

/-- Each turn reads at least two bytes. -/
def deserializeVector {τ ν : Type} (read : Reader τ ν) (valueLen : ℕ) (bytes : List UInt8) :
    Option (List (Tlv τ ν) × ℕ) :=
  (deserializeLoop read valueLen (bytes.length + 1) 0 bytes).map fun r => (r.1, uint32 r.2)

/-! ## Classification rules -/

inductive ClassificationRuleTlvType where
  | priority
  | tos
  | protocol
  | ipSrc
  | ipDst
  | portSrc
  | portDst
  | index
  deriving DecidableEq, Repr

instance : TlvType ClassificationRuleTlvType where
  code
    | .priority => 1
    | .tos => 2
    | .protocol => 3
    | .ipSrc => 4
    | .ipDst => 5
    | .portSrc => 6
    | .portDst => 7
    | .index => 14
  all := [.priority, .tos, .protocol, .ipSrc, .ipDst, .portSrc, .portDst, .index]

/-- `U8TlvValue`, `U16TlvValue`, `TosTlvValue`, `ProtocolTlvValue`, `Ipv4AddressTlvValue` and
`PortRangeTlvValue` -/
inductive ClassificationRuleValue where
  | u8 (value : UInt8)
  | u16 (value : BitVec 16)
  | tos (low high mask : UInt8)
  | protocol (protocols : List UInt8)
  | ipv4Address (addresses : List (BitVec 32 × BitVec 32))
  | portRange (ranges : List (BitVec 16 × BitVec 16))
  deriving DecidableEq, Repr

def writePair {w : ℕ} (n : ℕ) (pair : BitVec w × BitVec w) : List UInt8 :=
  toBytes n pair.1.toNat ++ toBytes n pair.2.toNat

def readPair {w : ℕ} (n : ℕ) (bytes : List UInt8) : Option ((BitVec w × BitVec w) × List UInt8) :=
  (readNumber n bytes).bind fun r =>
    (readNumber n r.2).map fun s => ((BitVec.ofNat w r.1, BitVec.ofNat w s.1), s.2)

def readByte (bytes : List UInt8) : Option (UInt8 × List UInt8) :=
  bytes.head?.map fun byte => (byte, bytes.tail)

instance : TlvValue ClassificationRuleValue where
  getSerializedSize
    | .u8 _ => 1
    | .u16 _ => 2
    | .tos _ _ _ => 3
    | .protocol protocols => uint32 protocols.length
    | .ipv4Address addresses => uint32 (addresses.length * 8)
    | .portRange ranges => uint32 (ranges.length * 4)
  serialize
    | .u8 value => [value]
    | .u16 value => toBytes 2 value.toNat
    | .tos low high mask => [low, high, mask]
    | .protocol protocols => protocols
    | .ipv4Address addresses => addresses.flatMap (writePair 4)
    | .portRange ranges => ranges.flatMap (writePair 2)

/-- `while (len < valueLength)`, where each item adds `step` to `len`: the items and the last `len` -/
def readWhile {α : Type} (read : List UInt8 → Option (α × List UInt8)) (step valueLength : ℕ)
    (bytes : List UInt8) : Option (List α × ℕ) :=
  let n := (valueLength + step - 1) / step
  (readItems read n bytes).map fun r => (r.1, uint32 (n * step))

def ClassificationRuleTlvType.read :
    Reader ClassificationRuleTlvType ClassificationRuleValue := fun code length bytes =>
  -- the length that is kept is the size of the value
  let sized (type : ClassificationRuleTlvType) (value : ClassificationRuleValue) (size : ℕ) :
      Option (Tlv ClassificationRuleTlvType ClassificationRuleValue) × ℕ :=
    (some ⟨type, TlvValue.getSerializedSize value, value⟩, size)
  match (TlvType.ofCode? code : Option ClassificationRuleTlvType) with
  | none => some (none, 0)
  | some .priority => bytes.head?.map fun value => (some ⟨.priority, 1, .u8 value⟩, 1)
  | some .tos =>
    match bytes with
    | low :: high :: mask :: _ => some (sized .tos (.tos low high mask) 3)
    | _ => none
  | some .protocol =>
    (readWhile readByte 1 length bytes).map fun r => sized .protocol (.protocol r.1) r.2
  | some .ipSrc =>
    (readWhile (readPair 4) 8 length bytes).map fun r => sized .ipSrc (.ipv4Address r.1) r.2
  | some .ipDst =>
    (readWhile (readPair 4) 8 length bytes).map fun r => sized .ipDst (.ipv4Address r.1) r.2
  | some .portSrc =>
    (readWhile (readPair 2) 4 length bytes).map fun r => sized .portSrc (.portRange r.1) r.2
  | some .portDst =>
    (readWhile (readPair 2) 4 length bytes).map fun r => sized .portDst (.portRange r.1) r.2
  | some .index =>
    (readNumber 2 bytes).map fun r => (some ⟨.index, 2, .u16 (BitVec.ofNat 16 r.1)⟩, 2)

abbrev ClassificationRuleTlv : Type := Tlv ClassificationRuleTlvType ClassificationRuleValue

/-! ## Parameters of the convergence sublayer -/

inductive CsParamTlvType where
  | classifierDscAction
  | packetClassificationRule
  deriving DecidableEq, Repr

instance : TlvType CsParamTlvType where
  code
    | .classifierDscAction => 1
    | .packetClassificationRule => 3
  all := [.classifierDscAction, .packetClassificationRule]

inductive CsParamValue where
  | u8 (value : UInt8)
  | classificationRule (rules : List ClassificationRuleTlv)
  deriving DecidableEq, Repr

instance : TlvValue CsParamValue where
  getSerializedSize
    | .u8 _ => 1
    | .classificationRule rules => TlvValue.getSerializedSize rules
  serialize
    | .u8 value => [value]
    | .classificationRule rules => TlvValue.serialize rules

def CsParamTlvType.read : Reader CsParamTlvType CsParamValue := fun code length bytes =>
  match (TlvType.ofCode? code : Option CsParamTlvType) with
  | none => some (none, 0)
  | some .classifierDscAction =>
    bytes.head?.map fun value => (some ⟨.classifierDscAction, 1, .u8 value⟩, 1)
  | some .packetClassificationRule =>
    (deserializeVector ClassificationRuleTlvType.read length bytes).map fun r =>
      (some ⟨.packetClassificationRule, TlvValue.getSerializedSize r.1, .classificationRule r.1⟩,
        r.2)

abbrev CsParamTlv : Type := Tlv CsParamTlvType CsParamValue

/-! ## Parameters of a service flow -/

inductive SfTlvType where
  | sfid
  | cid
  | serviceClassName
  | reserved1
  | qosParameterSetType
  | trafficPriority
  | maximumSustainedTrafficRate
  | maximumTrafficBurst
  | minimumReservedTrafficRate
  | minimumTolerableTrafficRate
  | serviceFlowSchedulingType
  | requestTransmissionPolicy
  | toleratedJitter
  | maximumLatency
  | fixedLengthVersusVariableLengthSduIndicator
  | sduSize
  | targetSaid
  | arqEnable
  | arqWindowSize
  | arqRetryTimeoutTransmitterDelay
  | arqRetryTimeoutReceiverDelay
  | arqBlockLifetime
  | arqSyncLoss
  | arqDeliverInOrder
  | arqPurgeTimeout
  | arqBlockSize
  | reserved2
  | csSpecification
  | ipv4CsParameters
  deriving DecidableEq, Repr

instance : TlvType SfTlvType where
  code
    | .sfid => 1
    | .cid => 2
    | .serviceClassName => 3
    | .reserved1 => 4
    | .qosParameterSetType => 5
    | .trafficPriority => 6
    | .maximumSustainedTrafficRate => 7
    | .maximumTrafficBurst => 8
    | .minimumReservedTrafficRate => 9
    | .minimumTolerableTrafficRate => 10
    | .serviceFlowSchedulingType => 11
    | .requestTransmissionPolicy => 12
    | .toleratedJitter => 13
    | .maximumLatency => 14
    | .fixedLengthVersusVariableLengthSduIndicator => 15
    | .sduSize => 16
    | .targetSaid => 17
    | .arqEnable => 18
    | .arqWindowSize => 19
    | .arqRetryTimeoutTransmitterDelay => 20
    | .arqRetryTimeoutReceiverDelay => 21
    | .arqBlockLifetime => 22
    | .arqSyncLoss => 23
    | .arqDeliverInOrder => 24
    | .arqPurgeTimeout => 25
    | .arqBlockSize => 26
    | .reserved2 => 27
    | .csSpecification => 28
    | .ipv4CsParameters => 100
  all := [.sfid, .cid, .serviceClassName, .reserved1, .qosParameterSetType, .trafficPriority,
    .maximumSustainedTrafficRate, .maximumTrafficBurst, .minimumReservedTrafficRate,
    .minimumTolerableTrafficRate, .serviceFlowSchedulingType, .requestTransmissionPolicy,
    .toleratedJitter, .maximumLatency, .fixedLengthVersusVariableLengthSduIndicator, .sduSize,
    .targetSaid, .arqEnable, .arqWindowSize, .arqRetryTimeoutTransmitterDelay,
    .arqRetryTimeoutReceiverDelay, .arqBlockLifetime, .arqSyncLoss, .arqDeliverInOrder,
    .arqPurgeTimeout, .arqBlockSize, .reserved2, .csSpecification, .ipv4CsParameters]

inductive SfValue where
  | u8 (value : UInt8)
  | u16 (value : BitVec 16)
  | u32 (value : BitVec 32)
  | csParam (params : List CsParamTlv)
  deriving DecidableEq, Repr

instance : TlvValue SfValue where
  getSerializedSize
    | .u8 _ => 1
    | .u16 _ => 2
    | .u32 _ => 4
    | .csParam params => TlvValue.getSerializedSize params
  serialize
    | .u8 value => [value]
    | .u16 value => toBytes 2 value.toNat
    | .u32 value => toBytes 4 value.toNat
    | .csParam params => TlvValue.serialize params

abbrev SfTlv : Type := Tlv SfTlvType SfValue

namespace SfTlvType

def readU8 (type : SfTlvType) (bytes : List UInt8) : Option (Option SfTlv × ℕ) :=
  bytes.head?.map fun value => (some ⟨type, 1, .u8 value⟩, 1)

def readU16 (type : SfTlvType) (bytes : List UInt8) : Option (Option SfTlv × ℕ) :=
  (readNumber 2 bytes).map fun r => (some ⟨type, 2, .u16 (BitVec.ofNat 16 r.1)⟩, 2)

def readU32 (type : SfTlvType) (bytes : List UInt8) : Option (Option SfTlv × ℕ) :=
  (readNumber 4 bytes).map fun r => (some ⟨type, 4, .u32 (BitVec.ofNat 32 r.1)⟩, 4)

def read : Reader SfTlvType SfValue := fun code length bytes =>
  match (TlvType.ofCode? code : Option SfTlvType) with
  | none => none
  | some .sfid => readU32 .sfid bytes
  | some .cid => readU16 .cid bytes
  | some .serviceClassName => none
  | some .reserved1 => some (none, 0)
  | some .qosParameterSetType => readU8 .qosParameterSetType bytes
  | some .trafficPriority => readU8 .trafficPriority bytes
  | some .maximumSustainedTrafficRate => readU32 .maximumSustainedTrafficRate bytes
  | some .maximumTrafficBurst => readU32 .maximumTrafficBurst bytes
  | some .minimumReservedTrafficRate => readU32 .minimumReservedTrafficRate bytes
  | some .minimumTolerableTrafficRate => readU32 .minimumTolerableTrafficRate bytes
  | some .serviceFlowSchedulingType => readU8 .serviceFlowSchedulingType bytes
  | some .requestTransmissionPolicy => readU32 .requestTransmissionPolicy bytes
  | some .toleratedJitter => readU32 .toleratedJitter bytes
  | some .maximumLatency => readU32 .maximumLatency bytes
  | some .fixedLengthVersusVariableLengthSduIndicator =>
    readU8 .fixedLengthVersusVariableLengthSduIndicator bytes
  | some .sduSize => readU8 .sduSize bytes
  | some .targetSaid => readU16 .targetSaid bytes
  | some .arqEnable => readU8 .arqEnable bytes
  | some .arqWindowSize => readU16 .arqWindowSize bytes
  | some .arqRetryTimeoutTransmitterDelay | some .arqRetryTimeoutReceiverDelay
  | some .arqBlockLifetime | some .arqSyncLoss | some .arqDeliverInOrder
  | some .arqPurgeTimeout | some .arqBlockSize | some .reserved2 => some (none, 0)
  | some .csSpecification => readU8 .csSpecification bytes
  | some .ipv4CsParameters =>
    (deserializeVector CsParamTlvType.read length bytes).map fun r =>
      (some ⟨.ipv4CsParameters, r.2, .csParam r.1⟩, r.2)

end SfTlvType

/-! ## Service flows -/

/-- The types that `Tlv::Deserialize` supports -/
inductive CommonType where
  | downlinkServiceFlow
  | uplinkServiceFlow
  deriving DecidableEq, Repr

instance : TlvType CommonType where
  code
    | .downlinkServiceFlow => 146
    | .uplinkServiceFlow => 145
  all := [.downlinkServiceFlow, .uplinkServiceFlow]

abbrev ServiceFlowTlv : Type := Tlv CommonType (List SfTlv)

/-- `Tlv::Deserialize` into a new TLV -/
def deserialize (bytes : List UInt8) : Option (ServiceFlowTlv × ℕ) := do
  let code ← bytes.head?
  let (length, n, bytes) ← deserializeLength bytes.tail
  let type ← TlvType.ofCode? code
  let (value, size) ← deserializeVector SfTlvType.read length bytes
  return (⟨type, length, value⟩, uint32 (1 + n + size))

end Ns3Noc.Wimax
