import Ns3Noc.WimaxRoundTrip

/-!
# The codec of service flows

Each level of the tree is read back when the level below it is. The length 127 is the exception on
every level: it is written in one byte, and the readers take that byte for an extended length.
-/
namespace Ns3Noc.Wimax

open BigEndian

/-! ## Classification rules -/

theorem length_flatMap_writePair {w : ℕ} (n : ℕ) (pairs : List (BitVec w × BitVec w)) :
    (pairs.flatMap (writePair n)).length = pairs.length * (2 * n) := by
  induction pairs with
  | nil => simp
  | cons pair pairs ih =>
    rw [List.flatMap_cons, List.length_append, ih, writePair, List.length_append, length_toBytes,
      length_toBytes, List.length_cons]
    ring

theorem readPair_writePair {w n : ℕ} (hw : 2 ^ w = 256 ^ n) (pair : BitVec w × BitVec w)
    (rest : List UInt8) : readPair n (writePair n pair ++ rest) = some (pair, rest) := by
  have hfst : pair.1.toNat < 256 ^ n := hw ▸ pair.1.isLt
  have hsnd : pair.2.toNat < 256 ^ n := hw ▸ pair.2.isLt
  rw [readPair, writePair, List.append_assoc, readNumber_toBytes hfst, Option.bind_some,
    readNumber_toBytes hsnd, Option.map_some, BitVec.ofNat_toNat, BitVec.ofNat_toNat,
    BitVec.setWidth_eq, BitVec.setWidth_eq]

/-- Items of one size, with exactly their bytes as the length -/
theorem readWhile_flatMap {α : Type} {read : List UInt8 → Option (α × List UInt8)}
    {write : α → List UInt8} {step : ℕ} (hstep : 0 < step) (items : List α)
    (h : ∀ item rest, read (write item ++ rest) = some (item, rest))
    (hlt : items.length * step < 4294967296) (rest : List UInt8) :
    readWhile read step (items.length * step) (items.flatMap write ++ rest) =
      some (items, items.length * step) := by
  have hcount : (items.length * step + step - 1) / step = items.length := by
    rw [Nat.add_sub_assoc hstep, Nat.mul_comm, Nat.mul_add_div hstep,
      Nat.div_eq_of_lt (Nat.sub_lt hstep Nat.one_pos), Nat.add_zero]
  have hmod : uint32 (items.length * step) = items.length * step := Nat.mod_eq_of_lt hlt
  simp only [readWhile, hcount, readItems_flatMap items (fun item _ => h item) rest,
    Option.map_some, hmod]

instance : TlvSize ClassificationRuleValue where
  size
    | .u8 _ => 1
    | .u16 _ => 2
    | .tos _ _ _ => 3
    | .protocol protocols => protocols.length
    | .ipv4Address addresses => addresses.length * 8
    | .portRange ranges => ranges.length * 4
  length_serialize value _ := by
    cases value with
    | u8 value => rfl
    | u16 value => exact length_toBytes 2 _
    | tos low high mask => rfl
    | protocol protocols => rfl
    | ipv4Address addresses => exact length_flatMap_writePair 4 addresses
    | portRange ranges => exact length_flatMap_writePair 2 ranges
  getSerializedSize_eq value h := by
    cases value with
    | u8 value => rfl
    | u16 value => rfl
    | tos low high mask => rfl
    | protocol protocols => exact Nat.mod_eq_of_lt h
    | ipv4Address addresses => exact Nat.mod_eq_of_lt h
    | portRange ranges => exact Nat.mod_eq_of_lt h

/-- The values of a type -/
def ClassificationRuleTlvType.Supports : ClassificationRuleTlvType → ClassificationRuleValue → Prop
  | .priority, .u8 _ => True
  | .tos, .tos _ _ _ => True
  | .protocol, .protocol _ => True
  | .ipSrc, .ipv4Address _ => True
  | .ipDst, .ipv4Address _ => True
  | .portSrc, .portRange _ => True
  | .portDst, .portRange _ => True
  | .index, .u16 _ => True
  | _, _ => False

theorem ClassificationRuleTlvType.ofCode?_code (type : ClassificationRuleTlvType) :
    TlvType.ofCode? (TlvType.code type) = some type := by
  cases type <;> rfl

theorem readPairs_ipv4Address (addresses : List (BitVec 32 × BitVec 32))
    (hlt : addresses.length * 8 < 4294967296) (rest : List UInt8) :
    readWhile (readPair 4) 8 (addresses.length * 8) (addresses.flatMap (writePair 4) ++ rest) =
      some (addresses, addresses.length * 8) :=
  readWhile_flatMap (by omega) addresses (readPair_writePair (by norm_num)) hlt rest

theorem readPairs_portRange (ranges : List (BitVec 16 × BitVec 16))
    (hlt : ranges.length * 4 < 4294967296) (rest : List UInt8) :
    readWhile (readPair 2) 4 (ranges.length * 4) (ranges.flatMap (writePair 2) ++ rest) =
      some (ranges, ranges.length * 4) :=
  readWhile_flatMap (by omega) ranges (readPair_writePair (by norm_num)) hlt rest

theorem readBytes_protocol (protocols : List UInt8) (hlt : protocols.length < 4294967296)
    (rest : List UInt8) :
    readWhile readByte 1 protocols.length (protocols ++ rest) =
      some (protocols, protocols.length) := by
  have hread : readWhile readByte 1 (protocols.length * 1) (protocols.flatMap ([·]) ++ rest) =
      some (protocols, protocols.length * 1) :=
    readWhile_flatMap Nat.one_pos protocols (fun _ _ => rfl) (by omega) rest
  rwa [Nat.mul_one, List.flatMap_singleton'] at hread

theorem ClassificationRuleTlvType.read_code (type : ClassificationRuleTlvType)
    (value : ClassificationRuleValue) (h : type.Supports value)
    (hlt : TlvSize.size value < 4294967296) (rest : List UInt8) :
    ClassificationRuleTlvType.read (TlvType.code type) (TlvSize.size value)
      (TlvValue.serialize value ++ rest) =
        some (some ⟨type, TlvSize.size value, value⟩, TlvSize.size value) := by
  have hsize := TlvSize.getSerializedSize_eq value hlt
  cases value with
  | u8 value =>
    cases type with
    | priority => rfl
    | _ => exact h.elim
  | u16 value =>
    cases type with
    | index =>
      have hvalue : readNumber 2 (toBytes 2 value.toNat ++ rest) = some (value.toNat, rest) :=
        readNumber_toBytes value.isLt rest
      have hread : ClassificationRuleTlvType.read (TlvType.code ClassificationRuleTlvType.index) 2
          (toBytes 2 value.toNat ++ rest) = (readNumber 2 (toBytes 2 value.toNat ++ rest)).map
            fun r => (some ⟨.index, 2, .u16 (BitVec.ofNat 16 r.1)⟩, 2) := rfl
      rw [hvalue, Option.map_some, BitVec.ofNat_toNat, BitVec.setWidth_eq] at hread
      exact hread
    | _ => exact h.elim
  | tos low high mask =>
    cases type with
    | tos => rfl
    | _ => exact h.elim
  | protocol protocols =>
    have hread := readBytes_protocol protocols hlt rest
    cases type with
    | protocol =>
      show (readWhile readByte 1 protocols.length (protocols ++ rest)).map _ = _
      simp only [hread, Option.map_some, hsize]
      rfl
    | _ => exact h.elim
  | ipv4Address addresses =>
    have hread := readPairs_ipv4Address addresses hlt rest
    cases type with
    | ipSrc =>
      show (readWhile (readPair 4) 8 (addresses.length * 8) _).map _ = _
      simp only [TlvValue.serialize, hread, Option.map_some, hsize]
      rfl
    | ipDst =>
      show (readWhile (readPair 4) 8 (addresses.length * 8) _).map _ = _
      simp only [TlvValue.serialize, hread, Option.map_some, hsize]
      rfl
    | _ => exact h.elim
  | portRange ranges =>
    have hread := readPairs_portRange ranges hlt rest
    cases type with
    | portSrc =>
      show (readWhile (readPair 2) 4 (ranges.length * 4) _).map _ = _
      simp only [TlvValue.serialize, hread, Option.map_some, hsize]
      rfl
    | portDst =>
      show (readWhile (readPair 2) 4 (ranges.length * 4) _).map _ = _
      simp only [TlvValue.serialize, hread, Option.map_some, hsize]
      rfl
    | _ => exact h.elim

/-- A TLV is read back when its type and value are. -/
theorem Tlv.WellFormed.readsBack {τ ν : Type} [TlvType τ] [TlvSize ν] {supports : τ → ν → Prop}
    {read : Reader τ ν} {tlv : Tlv τ ν} (h : tlv.WellFormed supports) (hne : tlv.length ≠ 127)
    (hread : ∀ rest, read (TlvType.code tlv.type) (TlvSize.size tlv.value)
      (TlvValue.serialize tlv.value ++ rest) =
        some (some ⟨tlv.type, TlvSize.size tlv.value, tlv.value⟩, TlvSize.size tlv.value)) :
    ReadsBack read tlv := by
  refine ⟨hne, h.length_eq, h.length_lt, fun rest => ?_⟩
  have hlength := h.length_eq
  rw [hlength, hread rest, ← hlength]

theorem ClassificationRuleTlv.readsBack {rule : ClassificationRuleTlv}
    (h : rule.WellFormed ClassificationRuleTlvType.Supports) (hne : rule.length ≠ 127) :
    ReadsBack ClassificationRuleTlvType.read rule :=
  h.readsBack hne fun rest =>
    ClassificationRuleTlvType.read_code rule.type rule.value h.supported
      (h.length_eq ▸ h.length_lt) rest

/-! ## Parameters of the convergence sublayer -/

instance : TlvSize CsParamValue where
  size
    | .u8 _ => 1
    | .classificationRule rules => TlvSize.size rules
  length_serialize value h := by
    cases value with
    | u8 value => rfl
    | classificationRule rules => exact TlvSize.length_serialize rules h
  getSerializedSize_eq value h := by
    cases value with
    | u8 value => rfl
    | classificationRule rules => exact TlvSize.getSerializedSize_eq rules h

def CsParamTlvType.Supports : CsParamTlvType → CsParamValue → Prop
  | .classifierDscAction, .u8 _ => True
  | .packetClassificationRule, .classificationRule rules =>
    ∀ rule ∈ rules, rule.WellFormed ClassificationRuleTlvType.Supports
  | _, _ => False

/-- No length 127 on any level -/
def CsParamTlv.Readable (param : CsParamTlv) : Prop :=
  param.length ≠ 127 ∧
    match param.value with
    | .u8 _ => True
    | .classificationRule rules => ∀ rule ∈ rules, rule.length ≠ 127

theorem CsParamTlv.readsBack {param : CsParamTlv} (h : param.WellFormed CsParamTlvType.Supports)
    (hreadable : param.Readable) : ReadsBack CsParamTlvType.read param := by
  obtain ⟨type, length, value⟩ := param
  have hlt : TlvSize.size value < 4294967296 := h.length_eq ▸ h.length_lt
  have hsize := TlvSize.getSerializedSize_eq value hlt
  have hsupported := h.supported
  obtain ⟨hne, hrules⟩ := hreadable
  refine h.readsBack hne fun rest => ?_
  cases value with
  | u8 value =>
    cases type with
    | classifierDscAction => rfl
    | packetClassificationRule => exact hsupported.elim
  | classificationRule rules =>
    cases type with
    | classifierDscAction => exact hsupported.elim
    | packetClassificationRule =>
      have hread := deserializeVector_serialize rules
        (fun rule hmem => ClassificationRuleTlv.readsBack (hsupported rule hmem) (hrules rule hmem))
        hlt rest
      show (deserializeVector ClassificationRuleTlvType.read (vectorSize rules)
        (TlvValue.serialize rules ++ rest)).map _ = _
      rw [hread]
      show some (some (Tlv.mk _ (TlvValue.getSerializedSize (CsParamValue.classificationRule rules))
        _), _) = _
      rw [hsize]
      rfl

/-! ## Parameters of a service flow -/

instance : TlvSize SfValue where
  size
    | .u8 _ => 1
    | .u16 _ => 2
    | .u32 _ => 4
    | .csParam params => TlvSize.size params
  length_serialize value h := by
    cases value with
    | u8 value => rfl
    | u16 value => exact length_toBytes 2 _
    | u32 value => exact length_toBytes 4 _
    | csParam params => exact TlvSize.length_serialize params h
  getSerializedSize_eq value h := by
    cases value with
    | u8 value => rfl
    | u16 value => rfl
    | u32 value => rfl
    | csParam params => exact TlvSize.getSerializedSize_eq params h

namespace SfTlvType

def IsU8 (type : SfTlvType) : Prop :=
  type ∈ [qosParameterSetType, trafficPriority, serviceFlowSchedulingType,
    fixedLengthVersusVariableLengthSduIndicator, sduSize, arqEnable, csSpecification]

def IsU16 (type : SfTlvType) : Prop := type ∈ [cid, targetSaid, arqWindowSize]

def IsU32 (type : SfTlvType) : Prop :=
  type ∈ [sfid, maximumSustainedTrafficRate, maximumTrafficBurst, minimumReservedTrafficRate,
    minimumTolerableTrafficRate, requestTransmissionPolicy, toleratedJitter, maximumLatency]

def Supports : SfTlvType → SfValue → Prop
  | type, .u8 _ => type.IsU8
  | type, .u16 _ => type.IsU16
  | type, .u32 _ => type.IsU32
  | type, .csParam params =>
    type = ipv4CsParameters ∧ ∀ param ∈ params, param.WellFormed CsParamTlvType.Supports

theorem read_u8 {type : SfTlvType} (h : type.IsU8) (length : ℕ) (bytes : List UInt8) :
    read (TlvType.code type) length bytes = type.readU8 bytes := by
  cases type <;> first | rfl | simp [IsU8] at h

theorem read_u16 {type : SfTlvType} (h : type.IsU16) (length : ℕ) (bytes : List UInt8) :
    read (TlvType.code type) length bytes = type.readU16 bytes := by
  cases type <;> first | rfl | simp [IsU16] at h

theorem read_u32 {type : SfTlvType} (h : type.IsU32) (length : ℕ) (bytes : List UInt8) :
    read (TlvType.code type) length bytes = type.readU32 bytes := by
  cases type <;> first | rfl | simp [IsU32] at h

end SfTlvType

def SfTlv.Readable (tlv : SfTlv) : Prop :=
  tlv.length ≠ 127 ∧
    match tlv.value with
    | .csParam params => ∀ param ∈ params, CsParamTlv.Readable param
    | _ => True

theorem SfTlv.readsBack {tlv : SfTlv} (h : tlv.WellFormed SfTlvType.Supports)
    (hreadable : tlv.Readable) : ReadsBack SfTlvType.read tlv := by
  obtain ⟨type, length, value⟩ := tlv
  have hlt : TlvSize.size value < 4294967296 := h.length_eq ▸ h.length_lt
  have hsupported := h.supported
  obtain ⟨hne, hparams⟩ := hreadable
  refine h.readsBack hne fun rest => ?_
  cases value with
  | u8 value =>
    rw [SfTlvType.read_u8 hsupported]
    rfl
  | u16 value =>
    have hvalue : readNumber 2 (toBytes 2 value.toNat ++ rest) = some (value.toNat, rest) :=
      readNumber_toBytes value.isLt rest
    rw [SfTlvType.read_u16 hsupported]
    show (readNumber 2 (toBytes 2 value.toNat ++ rest)).map _ = _
    rw [hvalue, Option.map_some, BitVec.ofNat_toNat, BitVec.setWidth_eq]
    rfl
  | u32 value =>
    have hvalue : readNumber 4 (toBytes 4 value.toNat ++ rest) = some (value.toNat, rest) :=
      readNumber_toBytes value.isLt rest
    rw [SfTlvType.read_u32 hsupported]
    show (readNumber 4 (toBytes 4 value.toNat ++ rest)).map _ = _
    rw [hvalue, Option.map_some, BitVec.ofNat_toNat, BitVec.setWidth_eq]
    rfl
  | csParam params =>
    obtain ⟨rfl, hparam⟩ := hsupported
    have hread := deserializeVector_serialize params
      (fun param hmem => CsParamTlv.readsBack (hparam param hmem) (hparams param hmem)) hlt rest
    show (deserializeVector CsParamTlvType.read (vectorSize params)
      (TlvValue.serialize params ++ rest)).map _ = _
    rw [hread]
    rfl

/-! ## Service flows -/

namespace ServiceFlowTlv

def WellFormed (flow : ServiceFlowTlv) : Prop :=
  Tlv.WellFormed (fun _ tlvs => ∀ tlv ∈ tlvs, tlv.WellFormed SfTlvType.Supports) flow

/-- Exactly `GetSerializedSize ()` bytes are written, and reading them returns this number and an
equal tree. -/
def RoundTrips (flow : ServiceFlowTlv) : Prop :=
  flow.serialize.length = flow.getSerializedSize ∧
    deserialize flow.serialize = some (flow, flow.getSerializedSize)

theorem length_serialize {flow : ServiceFlowTlv} (h : flow.WellFormed) :
    flow.serialize.length = flow.size := by
  have hvalue := TlvSize.length_serialize flow.value (h.length_eq ▸ h.length_lt)
  rw [Tlv.serialize, List.cons_append, List.length_cons, List.length_append,
    length_serializeLength, hvalue, Tlv.size]
  omega

theorem deserialize_cons {type : CommonType} {bytes value : List UInt8} {length n : ℕ}
    (h : deserializeLength bytes = some (length, n, value)) :
    deserialize (TlvType.code type :: bytes) =
      (deserializeVector SfTlvType.read length value).map
        fun r => (⟨type, length, r.1⟩, uint32 (1 + n + r.2)) := by
  have hcode : (TlvType.ofCode? (TlvType.code type) : Option CommonType) = some type := by
    cases type <;> rfl
  simp only [deserialize, List.head?_cons, List.tail_cons, Option.bind_eq_bind, Option.bind_some,
    h, hcode]
  cases deserializeVector SfTlvType.read length value with
  | none => rfl
  | some r => rfl

theorem roundTrips_of_readable {flow : ServiceFlowTlv} (h : flow.WellFormed)
    (hne : flow.length ≠ 127) (hreadable : ∀ tlv ∈ flow.value, SfTlv.Readable tlv)
    (hlt : flow.size < 4294967296) : flow.RoundTrips := by
  have hvector : flow.length = vectorSize flow.value := h.length_eq
  have hvalue : vectorSize flow.value < 4294967296 := hvector ▸ h.length_lt
  have hsize : 1 + getSizeOfLen flow.length + flow.length = flow.getSerializedSize :=
    (congrArg (1 + getSizeOfLen flow.length + ·) h.length_eq).trans
      (Tlv.getSerializedSize_eq flow hlt).symm
  have hmod : uint32 flow.getSerializedSize = flow.getSerializedSize :=
    Nat.mod_mod _ _
  have hlength := deserializeLength_serializeLength hne h.length_lt (TlvValue.serialize flow.value)
  have hread := deserializeVector_serialize flow.value
    (fun tlv hmem => SfTlv.readsBack (h.supported tlv hmem) (hreadable tlv hmem)) hvalue []
  rw [List.append_nil, ← hvector] at hread
  refine ⟨(length_serialize h).trans (Tlv.getSerializedSize_eq flow hlt).symm, ?_⟩
  rw [Tlv.serialize, List.cons_append, deserialize_cons hlength, hread, Option.map_some, hsize,
    hmod]

/-- The value is taken for the length, and nothing follows it. -/
theorem not_roundTrips_of_length {flow : ServiceFlowTlv} (h : flow.WellFormed)
    (heq : flow.length = 127) : ¬ flow.RoundTrips := by
  intro hround
  have hbytes : (TlvValue.serialize flow.value).length = 127 :=
    ((TlvSize.length_serialize flow.value (h.length_eq ▸ h.length_lt)).trans
      h.length_eq.symm).trans heq
  have hfield : serializeLength flow.length = [127] := by
    rw [heq]
    rfl
  obtain ⟨n, hlength⟩ : ∃ n, deserializeLength (127 :: TlvValue.serialize flow.value) =
      some (n, 128, []) := by
    have hdrop : (TlvValue.serialize flow.value).drop 127 = [] := by
      rw [List.drop_eq_nil_of_le (Nat.le_of_eq hbytes)]
    refine ⟨ofBytes ((TlvValue.serialize flow.value).take 127) % 18446744073709551616, ?_⟩
    show (readNumber 127 (TlvValue.serialize flow.value)).map _ = _
    rw [readNumber, if_pos (Nat.le_of_eq hbytes.symm), hdrop]
    rfl
  have hdeserialize := hround.2
  rw [Tlv.serialize, hfield, List.cons_append, List.singleton_append,
    deserialize_cons hlength] at hdeserialize
  obtain ⟨r, hvector, hflow⟩ := Option.map_eq_some_iff.mp hdeserialize
  have hn : n = 127 := (congrArg (fun r => r.1.length) hflow).trans heq
  subst hn
  cases hvector

theorem lt_of_roundTrips {flow : ServiceFlowTlv} (h : flow.WellFormed) (hround : flow.RoundTrips) :
    flow.size < 4294967296 := by
  have hlen := (length_serialize h).symm.trans hround.1
  rw [hlen]
  exact Nat.mod_lt _ (by omega)

/-- The trouble of the codec is the length 127, and a size that does not fit into `uint32_t`. -/
theorem roundTrips_iff {flow : ServiceFlowTlv} (h : flow.WellFormed)
    (hreadable : ∀ tlv ∈ flow.value, SfTlv.Readable tlv) :
    flow.RoundTrips ↔ flow.length ≠ 127 ∧ flow.size < 4294967296 := by
  constructor
  · intro hround
    exact ⟨fun heq => not_roundTrips_of_length h heq hround, lt_of_roundTrips h hround⟩
  · rintro ⟨hne, hlt⟩
    exact roundTrips_of_readable h hne hreadable hlt

end ServiceFlowTlv

/-! ## A list of protocols -/

def protocolRule (protocols : List UInt8) : ClassificationRuleTlv :=
  ⟨.protocol, protocols.length, .protocol protocols⟩

def protocolParam (protocols : List UInt8) : CsParamTlv :=
  ⟨.packetClassificationRule, (protocolRule protocols).size,
    .classificationRule [protocolRule protocols]⟩

def protocolParams (protocols : List UInt8) : SfTlv :=
  ⟨.ipv4CsParameters, (protocolParam protocols).size, .csParam [protocolParam protocols]⟩

/-- An uplink service flow with one classification rule -/
def protocolFlow (protocols : List UInt8) : ServiceFlowTlv :=
  ⟨.uplinkServiceFlow, (protocolParams protocols).size, [protocolParams protocols]⟩

theorem protocolFlow_wellFormed {protocols : List UInt8}
    (h : (protocolFlow protocols).size < 4294967296) : (protocolFlow protocols).WellFormed := by
  have hparams : (protocolFlow protocols).size =
      1 + getSizeOfLen (protocolFlow protocols).length + (protocolParams protocols).size := rfl
  have hparam : (protocolParams protocols).size =
      1 + getSizeOfLen (protocolParams protocols).length + (protocolParam protocols).size := rfl
  have hrule : (protocolParam protocols).size =
      1 + getSizeOfLen (protocolParam protocols).length + (protocolRule protocols).size := rfl
  have hprotocols : (protocolRule protocols).size =
      1 + getSizeOfLen (protocolRule protocols).length + protocols.length := rfl
  refine ⟨fun tlv hmem => ?_, rfl, by show (protocolParams protocols).size < _; omega⟩
  obtain rfl := List.mem_singleton.mp hmem
  refine ⟨⟨rfl, fun param hmem => ?_⟩, rfl, by show (protocolParam protocols).size < _; omega⟩
  obtain rfl := List.mem_singleton.mp hmem
  refine ⟨fun rule hmem => ?_, rfl, by show (protocolRule protocols).size < _; omega⟩
  obtain rfl := List.mem_singleton.mp hmem
  exact ⟨trivial, rfl, by show protocols.length < _; omega⟩

/-- 127 protocols are lost, and the number of bytes is the right one. -/
theorem long_rule_not_rebuilt :
    (protocolFlow (List.replicate 127 0)).WellFormed ∧
      (protocolFlow (List.replicate 127 0)).size < 4294967296 ∧
        ¬ (protocolFlow (List.replicate 127 0)).RoundTrips := by
  have hlt : (protocolFlow (List.replicate 127 0)).size < 4294967296 := by decide +kernel
  have hlost : deserialize (protocolFlow (List.replicate 127 0)).serialize ≠
      some (protocolFlow (List.replicate 127 0),
        (protocolFlow (List.replicate 127 0)).getSerializedSize) := by
    decide +kernel
  exact ⟨protocolFlow_wellFormed hlt, hlt, fun h => hlost h.2⟩

theorem protocolParams_readable {protocols : List UInt8} (h : protocols.length ≠ 127)
    (hrule : (protocolRule protocols).size ≠ 127) (hparam : (protocolParam protocols).size ≠ 127) :
    (protocolParams protocols).Readable := by
  refine ⟨hparam, fun param hmem => ?_⟩
  obtain rfl := List.mem_singleton.mp hmem
  refine ⟨hrule, fun rule hmem => ?_⟩
  obtain rfl := List.mem_singleton.mp hmem
  exact h

/-- 128 protocols take an extended length on every level. -/
theorem extended_rule_rebuilt : (protocolFlow (List.replicate 128 6)).RoundTrips := by
  have hlt : (protocolFlow (List.replicate 128 6)).size < 4294967296 := by decide +kernel
  refine (ServiceFlowTlv.roundTrips_iff (protocolFlow_wellFormed hlt) fun tlv hmem => ?_).mpr
    ⟨by decide +kernel, hlt⟩
  obtain rfl := List.mem_singleton.mp hmem
  exact protocolParams_readable (by simp) (by decide +kernel) (by decide +kernel)

end Ns3Noc.Wimax
