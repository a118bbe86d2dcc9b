import Ns3Noc.WimaxTlv

/-!
# Reading back what was written

A length field is read back unless the length is 127. Vectors are read back when their TLVs are, one
level of the tree after the other.
-/
namespace Ns3Noc.Wimax

open BigEndian

/-! ## The length field -/

theorem getSizeOfLen_short {length : ℕ} (h : length ≤ 127) : getSizeOfLen length = 1 := by
  rw [getSizeOfLen, if_neg (by omega)]

/-- The bytes of an extended length are enough for it. -/
theorem getSizeOfLen_extended {length : ℕ} (h : 127 < length) (hlt : length < 4294967296) :
    ∃ n, 0 < n ∧ n ≤ 5 ∧ getSizeOfLen length = n + 1 ∧ length < 256 ^ n := by
  rw [getSizeOfLen, if_pos h]
  by_cases h1 : length > 0xFF
  · by_cases h2 : length > 0xFF * 0xFF
    · by_cases h3 : length > 0xFF * 0xFF * 0xFF
      · by_cases h4 : length > 0xFF * 0xFF * 0xFF * 0xFF
        · refine ⟨5, by omega, by omega, ?_, by omega⟩
          have h5 : ¬ length > 0xFF * 0xFF * 0xFF * 0xFF * 0xFF := by omega
          norm_num at h1 h2 h3 h4 h5
          norm_num [sizeOfLenLoop, h1, h2, h3, h4, h5]
        · refine ⟨4, by omega, by omega, ?_, by omega⟩
          norm_num at h1 h2 h3 h4
          norm_num [sizeOfLenLoop, h1, h2, h3, h4]
      · refine ⟨3, by omega, by omega, ?_, by omega⟩
        norm_num at h1 h2 h3
        norm_num [sizeOfLenLoop, h1, h2, h3]
    · refine ⟨2, by omega, by omega, ?_, by omega⟩
      norm_num at h1 h2
      norm_num [sizeOfLenLoop, h1, h2]
  · refine ⟨1, by omega, by omega, ?_, by omega⟩
    norm_num at h1
    norm_num [sizeOfLenLoop, h1]

theorem le_sizeOfLenLoop (length turns sizeOfLen testValue : ℕ) :
    sizeOfLen ≤ sizeOfLenLoop length turns sizeOfLen testValue := by
  induction turns generalizing sizeOfLen testValue with
  | zero => exact le_rfl
  | succ turns ih =>
    rw [sizeOfLenLoop]
    by_cases h : length > testValue
    · rw [if_pos h]
      exact (Nat.le_succ sizeOfLen).trans (ih _ _)
    · rw [if_neg h]

theorem getSizeOfLen_pos (length : ℕ) : 0 < getSizeOfLen length := by
  rw [getSizeOfLen]
  by_cases h : length > 127
  · rw [if_pos h]
    exact lt_of_lt_of_le Nat.two_pos (le_sizeOfLenLoop length 7 2 0xFF)
  · rw [if_neg h]
    exact Nat.one_pos

theorem length_serializeLength (length : ℕ) :
    (serializeLength length).length = getSizeOfLen length := by
  have hpos := getSizeOfLen_pos length
  rw [serializeLength]
  by_cases h : getSizeOfLen length = 1
  · simp [h]
  · simp only [if_neg h, List.length_cons, length_toBytes]
    exact Nat.succ_pred_eq_of_pos hpos

theorem mask_extended (n : ℕ) (h : n ≤ 5) :
    ¬ UInt8.ofNat n ||| 0x80 < 127 ∧ ((UInt8.ofNat n ||| 0x80) &&& 0x7F).toNat = n := by
  interval_cases n <;> decide

/-- The one short length that is taken for an extended one is 127. -/
theorem deserializeLength_serializeLength {length : ℕ} (h : length ≠ 127)
    (hlt : length < 4294967296) (rest : List UInt8) :
    deserializeLength (serializeLength length ++ rest) =
      some (length, getSizeOfLen length, rest) := by
  rcases Nat.lt_or_ge 127 length with hext | hshort
  · obtain ⟨n, hpos, hle, hn, hbytes⟩ := getSizeOfLen_extended hext hlt
    obtain ⟨hflag, hmask⟩ := mask_extended n hle
    have hread := readNumber_toBytes hbytes rest
    have hmod : length % 18446744073709551616 = length := Nat.mod_eq_of_lt (by omega)
    rw [serializeLength, hn, if_neg (by omega), Nat.add_sub_cancel, List.cons_append,
      deserializeLength, if_neg hflag, hmask]
    simp only [hread, Option.map_some, hmod, Nat.add_comm 1 n]
  · have hbyte : UInt8.ofNat length < 127 := by
      rw [UInt8.lt_iff_toNat_lt, UInt8.toNat_ofNat']
      show length % 256 < 127
      omega
    have hval : (UInt8.ofNat length).toNat = length := by
      rw [UInt8.toNat_ofNat']
      omega
    rw [serializeLength, getSizeOfLen_short hshort, if_pos rfl, List.singleton_append,
      deserializeLength, if_pos hbyte, hval]

/-! ## Vectors -/

/-- The number of bytes of a value, without the wrap-around of `uint32_t`. -/
class TlvSize (ν : Type) extends TlvValue ν where
  size : ν → ℕ
  length_serialize : ∀ value, size value < 4294967296 → (serialize value).length = size value
  getSerializedSize_eq : ∀ value, size value < 4294967296 → getSerializedSize value = size value

section Vector

variable {τ ν : Type} [TlvType τ] [TlvSize ν]

def Tlv.size (tlv : Tlv τ ν) : ℕ := 1 + getSizeOfLen tlv.length + TlvSize.size tlv.value

def vectorSize (tlvs : List (Tlv τ ν)) : ℕ := (tlvs.map Tlv.size).sum

/-- The length field is the size of the value, and the value belongs to the type. -/
structure Tlv.WellFormed (supports : τ → ν → Prop) (tlv : Tlv τ ν) : Prop where
  supported : supports tlv.type tlv.value
  length_eq : tlv.length = TlvSize.size tlv.value
  length_lt : tlv.length < 4294967296

omit [TlvType τ] in
theorem vectorSize_cons (tlv : Tlv τ ν) (tlvs : List (Tlv τ ν)) :
    vectorSize (tlv :: tlvs) = tlv.size + vectorSize tlvs := by
  rw [vectorSize, List.map_cons, List.sum_cons]
  rfl

omit [TlvType τ] in
theorem two_le_size (tlv : Tlv τ ν) : 2 ≤ tlv.size := by
  have hpos := getSizeOfLen_pos tlv.length
  rw [Tlv.size]
  omega

omit [TlvType τ] in
theorem length_le_vectorSize (tlvs : List (Tlv τ ν)) : tlvs.length ≤ vectorSize tlvs := by
  induction tlvs with
  | nil => exact Nat.zero_le _
  | cons tlv tlvs ih =>
    have htwo := two_le_size tlv
    rw [vectorSize_cons, List.length_cons]
    omega

theorem Tlv.length_serialize (tlv : Tlv τ ν) (h : tlv.size < 4294967296) :
    tlv.serialize.length = tlv.size := by
  have hvalue := TlvSize.length_serialize tlv.value (by rw [Tlv.size] at h; omega)
  rw [Tlv.serialize, List.cons_append, List.length_cons, List.length_append,
    length_serializeLength, hvalue, Tlv.size]
  omega

omit [TlvType τ] in
theorem Tlv.getSerializedSize_eq (tlv : Tlv τ ν) (h : tlv.size < 4294967296) :
    tlv.getSerializedSize = tlv.size := by
  have hvalue := TlvSize.getSerializedSize_eq tlv.value (by rw [Tlv.size] at h; omega)
  rw [Tlv.getSerializedSize, hvalue, ← Tlv.size]
  exact Nat.mod_eq_of_lt h

/-- What moves the iterator is what was written, so that nothing is written over. -/
theorem serializeVector_eq (tlvs : List (Tlv τ ν)) (h : vectorSize tlvs < 4294967296) :
    serializeVector tlvs = tlvs.flatMap Tlv.serialize := by
  induction tlvs with
  | nil => rfl
  | cons tlv tlvs ih =>
    rw [vectorSize_cons] at h
    have hlen := tlv.length_serialize (by omega)
    have hsize := tlv.getSerializedSize_eq (by omega)
    have hpad : tlv.serialize.rightpad tlv.size 0 = tlv.serialize := by
      rw [List.rightpad, hlen, Nat.sub_self, List.replicate_zero, List.append_nil]
    have htake : tlv.serialize.take tlv.size = tlv.serialize := by
      rw [← hlen, List.take_length]
    have hdrop : tlv.serialize.drop (tlv.size + (tlvs.flatMap Tlv.serialize).length) = [] :=
      List.drop_eq_nil_of_le (by omega)
    simp only [serializeVector, hsize, hpad, ih (by omega), ByteSlices.overlay, htake, hdrop,
      List.append_nil, List.flatMap_cons]

theorem length_flatMap_serialize (tlvs : List (Tlv τ ν)) (h : vectorSize tlvs < 4294967296) :
    (tlvs.flatMap Tlv.serialize).length = vectorSize tlvs := by
  induction tlvs with
  | nil => rfl
  | cons tlv tlvs ih =>
    rw [vectorSize_cons] at h ⊢
    rw [List.flatMap_cons, List.length_append, tlv.length_serialize (by omega), ih (by omega)]

omit [TlvType τ] in
theorem foldl_getSerializedSize (tlvs : List (Tlv τ ν)) (size : ℕ)
    (h : size + vectorSize tlvs < 4294967296) :
    tlvs.foldl (fun size tlv => uint32 (size + tlv.getSerializedSize)) size =
      size + vectorSize tlvs := by
  induction tlvs generalizing size with
  | nil => rfl
  | cons tlv tlvs ih =>
    rw [vectorSize_cons] at h ⊢
    have hsize := tlv.getSerializedSize_eq (by omega)
    have hmod : uint32 (size + tlv.size) = size + tlv.size := Nat.mod_eq_of_lt (by omega)
    rw [List.foldl_cons, hsize, hmod, ih _ (by omega), Nat.add_assoc]

instance : TlvSize (List (Tlv τ ν)) where
  size := vectorSize
  length_serialize tlvs h :=
    (congrArg List.length (serializeVector_eq tlvs h)).trans (length_flatMap_serialize tlvs h)
  getSerializedSize_eq tlvs h :=
    (foldl_getSerializedSize tlvs 0 ((Nat.zero_add _).trans_lt h)).trans (Nat.zero_add _)

/-- What the reader of a vector gives for a TLV -/
structure ReadsBack (read : Reader τ ν) (tlv : Tlv τ ν) : Prop where
  length_ne : tlv.length ≠ 127
  length_eq : tlv.length = TlvSize.size tlv.value
  length_lt : tlv.length < 4294967296
  read_eq : ∀ rest, read (TlvType.code tlv.type) tlv.length
    (TlvValue.serialize tlv.value ++ rest) = some (some tlv, tlv.length)

/-- One turn of the loop reads one TLV. -/
theorem deserializeLoop_cons {read : Reader τ ν} {tlv : Tlv τ ν} (h : ReadsBack read tlv)
    {valueLen serializedSize : ℕ} (hlt : serializedSize < valueLen) (turns : ℕ)
    (rest : List UInt8) :
    deserializeLoop read valueLen (turns + 1) serializedSize (tlv.serialize ++ rest) =
      (deserializeLoop read valueLen turns (serializedSize + tlv.size) rest).map
        fun r => (tlv :: r.1, r.2) := by
  have hlength := deserializeLength_serializeLength h.length_ne h.length_lt
    (TlvValue.serialize tlv.value ++ rest)
  have hvalue : (TlvValue.serialize tlv.value).length = tlv.length :=
    (TlvSize.length_serialize tlv.value (h.length_eq ▸ h.length_lt)).trans h.length_eq.symm
  have hdelta : uint32 tlv.length = tlv.length := Nat.mod_eq_of_lt h.length_lt
  have hdrop : (TlvValue.serialize tlv.value ++ rest).drop tlv.length = rest := by
    rw [List.drop_left' hvalue]
  have hsize : serializedSize + 1 + getSizeOfLen tlv.length + tlv.length =
      serializedSize + tlv.size := by
    rw [Tlv.size, ← h.length_eq]
    omega
  have hnext : ¬ (TlvValue.serialize tlv.value ++ rest).length < tlv.length := by
    rw [List.length_append]
    omega
  rw [deserializeLoop, if_pos hlt, Tlv.serialize, List.cons_append, List.cons_append,
    List.append_assoc]
  simp only [List.head?_cons, List.tail_cons, Option.bind_eq_bind, Option.bind_some, hlength,
    h.read_eq, hdelta, hdrop, hsize, if_neg hnext]
  cases deserializeLoop read valueLen turns (serializedSize + tlv.size) rest with
  | none => rfl
  | some r => rfl

theorem deserializeLoop_flatMap {read : Reader τ ν} (tlvs : List (Tlv τ ν))
    (h : ∀ tlv ∈ tlvs, ReadsBack read tlv) {turns : ℕ} (hturns : tlvs.length < turns)
    {valueLen serializedSize : ℕ} (hlen : valueLen = serializedSize + vectorSize tlvs)
    (rest : List UInt8) :
    deserializeLoop read valueLen turns serializedSize (tlvs.flatMap Tlv.serialize ++ rest) =
      some (tlvs, valueLen) := by
  induction tlvs generalizing turns serializedSize with
  | nil =>
    obtain ⟨turns, rfl⟩ := Nat.exists_eq_succ_of_ne_zero (Nat.ne_of_gt hturns)
    have hend : valueLen = serializedSize := hlen
    rw [deserializeLoop, if_neg (by omega), hend]
  | cons tlv tlvs ih =>
    obtain ⟨turns, rfl⟩ := Nat.exists_eq_succ_of_ne_zero (Nat.ne_of_gt (Nat.zero_lt_of_lt hturns))
    rw [vectorSize_cons] at hlen
    have htwo := two_le_size tlv
    have hread := ih (fun tlv hmem => h tlv (List.mem_cons_of_mem _ hmem))
      (Nat.lt_of_succ_lt_succ hturns) (hlen.trans (Nat.add_assoc _ _ _).symm)
    rw [List.flatMap_cons, List.append_assoc, deserializeLoop_cons (h tlv List.mem_cons_self)
      (by omega), hread]
    rfl

theorem deserializeVector_serialize {read : Reader τ ν} (tlvs : List (Tlv τ ν))
    (h : ∀ tlv ∈ tlvs, ReadsBack read tlv) (hlt : vectorSize tlvs < 4294967296)
    (rest : List UInt8) :
    deserializeVector read (vectorSize tlvs) (TlvValue.serialize tlvs ++ rest) =
      some (tlvs, vectorSize tlvs) := by
  have hbytes : TlvValue.serialize tlvs = tlvs.flatMap Tlv.serialize := serializeVector_eq tlvs hlt
  have hturns : tlvs.length < (tlvs.flatMap Tlv.serialize ++ rest).length + 1 := by
    have hlen := length_flatMap_serialize tlvs hlt
    have hle := length_le_vectorSize tlvs
    rw [List.length_append]
    omega
  have hmod : uint32 (vectorSize tlvs) = vectorSize tlvs := Nat.mod_eq_of_lt hlt
  rw [deserializeVector, hbytes,
    deserializeLoop_flatMap tlvs h hturns (Nat.zero_add _).symm, Option.map_some, hmod]

end Vector

end Ns3Noc.Wimax
