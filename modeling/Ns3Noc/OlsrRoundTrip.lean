import Ns3Noc.OlsrHeader

/-!
# What is written is read back

Every message with a size of 16 bits takes the bytes it announces and is read back from them. On any
bytes at all a HELLO is read to an end or fails, unless the loop comes to a link message that
announces the size zero: the counter of its addresses starts below zero.
-/
namespace Ns3Noc.Olsr
open BigEndian ByteSlices WhileLoops

/-! ## Sizes -/

theorem length_writeHtonU32 (address : BitVec 32) : (writeHtonU32 address).length = 4 :=
  length_toBytes 4 _

theorem length_addresses (addresses : List (BitVec 32)) :
    (addresses.flatMap writeHtonU32).length = addresses.length * 4 := by
  rw [List.length_flatMap, List.map_congr_left fun a _ => length_writeHtonU32 a, List.map_const',
    List.sum_replicate, smul_eq_mul]

theorem LinkMessage.length_serialize (lm : LinkMessage) :
    lm.serialize.length = 4 + lm.neighborInterfaceAddresses.length * 4 := by
  rw [serialize, List.length_append, List.length_append, length_toBytes, length_addresses]
  rfl

theorem Association.length_serialize (association : Association) : association.serialize.length = 8 := by
  rw [serialize, List.length_append, length_writeHtonU32, length_writeHtonU32]

theorem Mid.length_serialize (mid : Mid) :
    mid.serialize.length = mid.interfaceAddresses.length * 4 := length_addresses _

theorem Tc.length_serialize (tc : Tc) :
    tc.serialize.length = 4 + tc.neighborAddresses.length * 4 := by
  rw [serialize, List.length_append, List.length_append, length_toBytes, length_toBytes,
    length_addresses]

theorem Hna.length_serialize (hna : Hna) : hna.serialize.length = hna.associations.length * 8 := by
  rw [serialize, List.length_flatMap, List.map_congr_left fun a _ => a.length_serialize,
    List.map_const', List.sum_replicate, smul_eq_mul]

theorem Hello.length_serialize (hello : Hello) :
    hello.serialize.length = 4 + (hello.linkMessages.flatMap LinkMessage.serialize).length := by
  rw [serialize, List.length_append]
  rfl

theorem Hello.foldl_getSerializedSize (lms : List LinkMessage) (size : ℕ)
    (h : size + (lms.flatMap LinkMessage.serialize).length < 2 ^ 32) :
    lms.foldl (fun size lm =>
      uint32 (uint32 (size + 4) + IPV4_ADDRESS_SIZE * lm.neighborInterfaceAddresses.length)) size =
        size + (lms.flatMap LinkMessage.serialize).length := by
  induction lms generalizing size with
  | nil => rfl
  | cons lm lms ih =>
    rw [List.flatMap_cons, List.length_append, LinkMessage.length_serialize] at h
    have hsize : uint32 (uint32 (size + 4) +
        IPV4_ADDRESS_SIZE * lm.neighborInterfaceAddresses.length) =
          size + (4 + lm.neighborInterfaceAddresses.length * 4) := by
      have hfour : uint32 (size + 4) = size + 4 := uint32_of_lt (by omega)
      rw [hfour, IPV4_ADDRESS_SIZE, uint32_of_lt (by omega)]
      omega
    rw [List.foldl_cons, hsize, ih _ (by omega), List.flatMap_cons, List.length_append,
      LinkMessage.length_serialize]
    omega

theorem Message.getSerializedSize_eq (message : Message) (h : message.serialize.length < 2 ^ 32) :
    message.getSerializedSize = message.serialize.length := by
  cases message with
  | mid m =>
    have hsize : m.serialize.length < 2 ^ 32 := h
    show m.getSerializedSize = m.serialize.length
    rw [Mid.length_serialize] at hsize ⊢
    exact uint32_of_lt hsize
  | hello m =>
    have hsize : m.serialize.length < 2 ^ 32 := h
    show m.getSerializedSize = m.serialize.length
    rw [Hello.length_serialize] at hsize ⊢
    exact Hello.foldl_getSerializedSize m.linkMessages 4 hsize
  | tc m =>
    have hsize : m.serialize.length < 2 ^ 32 := h
    show m.getSerializedSize = m.serialize.length
    rw [Tc.length_serialize] at hsize ⊢
    exact uint32_of_lt hsize
  | hna m =>
    have hsize : m.serialize.length < 2 ^ 32 := h
    show m.getSerializedSize = m.serialize.length
    have heq : 2 * m.associations.length * IPV4_ADDRESS_SIZE = m.associations.length * 8 := by
      rw [IPV4_ADDRESS_SIZE]
      omega
    rw [Hna.length_serialize] at hsize ⊢
    rw [Hna.getSerializedSize, heq]
    exact uint32_of_lt hsize

theorem MessageHeader.length_serialize (msg : MessageHeader) :
    msg.serialize.length = 12 + msg.message.serialize.length := by
  simp only [serialize, List.length_append, length_toBytes, length_writeHtonU32, List.length_cons,
    List.length_nil]

theorem MessageHeader.getSerializedSize_eq (msg : MessageHeader) (h : msg.serialize.length < 2 ^ 32) :
    msg.getSerializedSize = msg.serialize.length := by
  rw [length_serialize] at h ⊢
  rw [getSerializedSize, msg.message.getSerializedSize_eq (by omega), OLSR_MSG_HEADER_SIZE,
    uint32_of_lt h]

/-! ## Reading what was written -/

namespace ReadBuffer
variable {b : ReadBuffer} {p v n : ℕ} {bytes bytes' : List UInt8}

/-- The bytes are in the memory from position `p` on. -/
def Contains (b : ReadBuffer) (p : ℕ) (bytes : List UInt8) : Prop :=
  slice b.data p bytes.length = bytes

theorem contains_append : b.Contains p (bytes ++ bytes') ↔
    b.Contains p bytes ∧ b.Contains (p + bytes.length) bytes' := by
  rw [Contains, Contains, Contains, List.length_append, slice_add]
  exact ⟨fun h => List.append_inj h (length_slice _ _ _), fun ⟨h, h'⟩ => by rw [h, h']⟩

theorem contains_cons {x : UInt8} : b.Contains p (x :: bytes) ↔
    b.data p = x ∧ b.Contains (p + 1) bytes := by
  rw [← List.singleton_append, contains_append]
  exact and_congr_left' List.singleton_inj

theorem readU8_eq {x : UInt8} (h : b.data p = x) (hp : p ≤ b.dataEnd) : b.readU8 p = some x := by
  rw [ReadBuffer.readU8, if_pos hp, h]

theorem Contains.readNtohU16 (h : b.Contains p (toBytes 2 v)) (hv : v < 65536) :
    b.readNtohU16 p = v := by
  rw [Contains, length_toBytes] at h
  rw [ReadBuffer.readNtohU16, h, ofBytes_toBytes hv]

theorem Contains.readNtohU32 {address : BitVec 32} (h : b.Contains p (writeHtonU32 address)) :
    b.readNtohU32 p = address := by
  rw [Contains, length_writeHtonU32] at h
  rw [ReadBuffer.readNtohU32, h, writeHtonU32, ofBytes_toBytes address.isLt, BitVec.ofNat_toNat,
    BitVec.setWidth_eq]

theorem Contains.readAddresses {addresses : List Ipv4Address}
    (h : b.Contains p (addresses.flatMap writeHtonU32)) :
    b.readAddresses addresses.length p = addresses := by
  induction addresses generalizing p with
  | nil => rfl
  | cons address addresses ih =>
    obtain ⟨hhead, htail⟩ := contains_append.mp (List.flatMap_cons ▸ h)
    rw [length_writeHtonU32] at htail
    rw [List.length_cons, ReadBuffer.readAddresses, hhead.readNtohU32, ih htail]

theorem Contains.readAssociations {associations : List Association}
    (h : b.Contains p (associations.flatMap Association.serialize)) :
    b.readAssociations associations.length p = associations := by
  induction associations generalizing p with
  | nil => rfl
  | cons association associations ih =>
    obtain ⟨hhead, htail⟩ := contains_append.mp (List.flatMap_cons ▸ h)
    rw [association.length_serialize] at htail
    obtain ⟨haddress, hmask⟩ := contains_append.mp hhead
    rw [length_writeHtonU32] at hmask
    rw [List.length_cons, ReadBuffer.readAssociations, haddress.readNtohU32, hmask.readNtohU32,
      ih htail]

end ReadBuffer

namespace HelloState
variable {b : ReadBuffer} {p left n : ℕ} {lms : List LinkMessage} {lm : LinkMessage}

/-- The inner loop reads the addresses, if the counter starts at their number. -/
theorem leads_addresses (b : ReadBuffer) (p left n lmSize : ℕ) (lms : List LinkMessage)
    (lm : LinkMessage) : Leads (turn b) ⟨p, left, lms, some ⟨lm, lmSize, n⟩⟩
      ⟨p + 4 * n, uint16Sub left lmSize,
        lms ++ [⟨lm.linkCode, lm.neighborInterfaceAddresses ++ b.readAddresses n p⟩], none⟩ := by
  induction n generalizing p lm with
  | zero =>
    refine Relation.ReflTransGen.single ?_
    simp [turn, ReadBuffer.readAddresses]
  | succ n ih =>
    have hne : ((n + 1 : ℕ) : ℤ) ≠ 0 := by omega
    have hstep : turn b ⟨p, left, lms, some ⟨lm, lmSize, (n + 1 : ℕ)⟩⟩ = .again ⟨p + 4, left, lms,
        some ⟨⟨lm.linkCode, lm.neighborInterfaceAddresses ++ [b.readNtohU32 p]⟩, lmSize, n⟩⟩ := by
      rw [turn]
      dsimp only
      rw [if_pos hne, Nat.cast_succ, add_sub_cancel_right]
    have hrest := ih (p + 4) ⟨lm.linkCode, lm.neighborInterfaceAddresses ++ [b.readNtohU32 p]⟩
    have hposition : p + 4 + 4 * n = p + 4 * (n + 1) := by omega
    rw [hposition, List.append_assoc] at hrest
    exact .head hstep hrest

/-- The size of a link message gives the number of its addresses. -/
theorem counter_eq (n : ℕ) : (((4 + n * 4 : ℕ) : ℤ) - 4).tmod IPV4_ADDRESS_SIZE = 0 ∧
    (((4 + n * 4 : ℕ) : ℤ) - 4).tdiv IPV4_ADDRESS_SIZE = n := by
  have hsize : ((4 + n * 4 : ℕ) : ℤ) - 4 = n * (4 : ℤ) := by
    push_cast
    ring
  rw [hsize, IPV4_ADDRESS_SIZE]
  exact ⟨Int.mul_tmod_left _ _, Int.mul_tdiv_cancel _ (by norm_num)⟩

theorem readLink_eq (h : b.Contains p lm.serialize) (hend : p + 1 ≤ b.dataEnd)
    (hlt : lm.serialize.length < 65536) : readLink b p =
      some ⟨⟨lm.linkCode, []⟩, lm.serialize.length, lm.neighborInterfaceAddresses.length⟩ := by
  obtain ⟨hhead, -⟩ := ReadBuffer.contains_append.mp h
  obtain ⟨hcodes, hsize⟩ := ReadBuffer.contains_append.mp hhead
  obtain ⟨hcode, hreserved⟩ := ReadBuffer.contains_cons.mp hcodes
  have hzero := (ReadBuffer.contains_cons.mp hreserved).1
  rw [LinkMessage.length_serialize] at hlt ⊢
  obtain ⟨hmod, hdiv⟩ := counter_eq lm.neighborInterfaceAddresses.length
  have hlmSize : b.readNtohU16 (p + 2) = 4 + lm.neighborInterfaceAddresses.length * 4 :=
    hsize.readNtohU16 hlt
  rw [readLink, ReadBuffer.readU8_eq hcode (by omega), ReadBuffer.readU8_eq hzero hend, hlmSize]
  simp only [Option.bind_eq_bind, Option.bind_some]
  rw [if_pos hmod, hdiv]

theorem leads_linkMessage (lms : List LinkMessage) (h : b.Contains p lm.serialize)
    (hend : p + 1 ≤ b.dataEnd) (hleft : lm.serialize.length ≤ left) (hlt : left < 65536) :
    Leads (turn b) ⟨p, left, lms, none⟩
      ⟨p + lm.serialize.length, left - lm.serialize.length, lms ++ [lm], none⟩ := by
  have hread := readLink_eq h hend (by omega)
  obtain ⟨-, haddresses⟩ := ReadBuffer.contains_append.mp h
  have hhead : p + ([lm.linkCode, 0] ++
      toBytes 2 (4 + lm.neighborInterfaceAddresses.length * IPV4_ADDRESS_SIZE)).length = p + 4 := by
    rw [List.length_append, length_toBytes]
    rfl
  have hlength := lm.length_serialize
  rw [hhead] at haddresses
  have hinner := leads_addresses b (p + 4) left lm.neighborInterfaceAddresses.length
    lm.serialize.length lms ⟨lm.linkCode, []⟩
  have hsub : uint16Sub left lm.serialize.length = left - lm.serialize.length := by
    rw [uint16Sub]
    omega
  rw [haddresses.readAddresses, hsub, List.nil_append] at hinner
  have hposition : p + 4 + 4 * lm.neighborInterfaceAddresses.length = p + lm.serialize.length := by
    omega
  rw [hposition] at hinner
  refine .head ?_ hinner
  rw [turn]
  dsimp only
  rw [if_pos (by omega), if_pos (by omega), hread]

/-- The loop reads all link messages. -/
theorem ends_linkMessages (lms : List LinkMessage) {rest : List LinkMessage}
    (h : b.Contains p (rest.flatMap LinkMessage.serialize))
    (hend : p + (rest.flatMap LinkMessage.serialize).length ≤ b.dataEnd)
    (hlt : (rest.flatMap LinkMessage.serialize).length < 65536) :
    Ends (turn b) ⟨p, (rest.flatMap LinkMessage.serialize).length, lms, none⟩
      ⟨p + (rest.flatMap LinkMessage.serialize).length, 0, lms ++ rest, none⟩ := by
  induction rest generalizing p lms with
  | nil =>
    rw [List.append_nil]
    exact .here rfl
  | cons lm rest ih =>
    rw [List.flatMap_cons] at h hend hlt ⊢
    obtain ⟨hhead, htail⟩ := ReadBuffer.contains_append.mp h
    rw [List.length_append] at hend hlt ⊢
    have hlength := lm.length_serialize
    have hrest := ih (lms ++ [lm]) htail (by omega) (by omega)
    rw [Nat.add_assoc, List.append_assoc, List.singleton_append] at hrest
    have hlead := leads_linkMessage lms hhead (by omega) (Nat.le_add_right _ _) hlt
    rw [Nat.add_sub_cancel_left] at hlead
    exact hlead.ends hrest

end HelloState

section RoundTrip
variable {b : ReadBuffer} {start : ℕ}

theorem Mid.deserialize_serialize {mid : Mid} (h : b.Contains start mid.serialize)
    (hlt : mid.serialize.length < 2 ^ 32) :
    Mid.deserialize b start mid.serialize.length = some (mid, mid.serialize.length) := by
  have hsize : mid.getSerializedSize = mid.serialize.length :=
    (Message.mid mid).getSerializedSize_eq hlt
  have hlength := mid.length_serialize
  have hmod : mid.serialize.length % IPV4_ADDRESS_SIZE = 0 := by
    rw [hlength, IPV4_ADDRESS_SIZE, Nat.mul_mod_left]
  have hdiv : mid.serialize.length / IPV4_ADDRESS_SIZE = mid.interfaceAddresses.length := by
    rw [hlength, IPV4_ADDRESS_SIZE, Nat.mul_div_cancel _ (by norm_num)]
  rw [Mid.deserialize, if_pos hmod, hdiv, h.readAddresses]
  exact congrArg (fun size => some (mid, size)) hsize

theorem Tc.deserialize_serialize {tc : Tc} (h : b.Contains start tc.serialize) :
    Tc.deserialize b start tc.serialize.length = some (tc, tc.serialize.length) := by
  obtain ⟨hhead, haddresses⟩ := ReadBuffer.contains_append.mp h
  obtain ⟨hansn, -⟩ := ReadBuffer.contains_append.mp hhead
  have hlength := tc.length_serialize
  have hcheck : tc.serialize.length ≥ 4 ∧ (tc.serialize.length - 4) % IPV4_ADDRESS_SIZE = 0 := by
    rw [hlength, IPV4_ADDRESS_SIZE]
    omega
  have hdiv : (tc.serialize.length - 4) / IPV4_ADDRESS_SIZE = tc.neighborAddresses.length := by
    rw [hlength, IPV4_ADDRESS_SIZE]
    omega
  have hfour : start + (toBytes 2 tc.ansn.toNat ++ toBytes 2 0).length = start + 4 := by
    rw [List.length_append, length_toBytes, length_toBytes]
  rw [hfour] at haddresses
  rw [Tc.deserialize, if_pos hcheck, hdiv, haddresses.readAddresses,
    hansn.readNtohU16 tc.ansn.toNat_lt, UInt16.ofNat_toNat]

theorem Hna.deserialize_serialize {hna : Hna} (h : b.Contains start hna.serialize) :
    Hna.deserialize b start hna.serialize.length = some (hna, hna.serialize.length) := by
  have hlength := hna.length_serialize
  have hmod : hna.serialize.length % (IPV4_ADDRESS_SIZE * 2) = 0 := by
    rw [hlength, IPV4_ADDRESS_SIZE]
    omega
  have hdiv : hna.serialize.length / IPV4_ADDRESS_SIZE / 2 = hna.associations.length := by
    rw [hlength, IPV4_ADDRESS_SIZE]
    omega
  rw [Hna.deserialize, if_pos hmod, hdiv, h.readAssociations]

theorem Hello.deserialize_serialize {hello : Hello} (h : b.Contains start hello.serialize)
    (hend : start + hello.serialize.length ≤ b.dataEnd) (hlt : hello.serialize.length < 2 ^ 16) :
    ∃ fuel, Hello.deserialize b fuel start hello.serialize.length =
      some (some (hello, hello.serialize.length)) := by
  obtain ⟨hhead, hlms⟩ := ReadBuffer.contains_append.mp h
  obtain ⟨-, hhead⟩ := ReadBuffer.contains_cons.mp hhead
  obtain ⟨-, hhead⟩ := ReadBuffer.contains_cons.mp hhead
  obtain ⟨htime, hhead⟩ := ReadBuffer.contains_cons.mp hhead
  have hwillingness := (ReadBuffer.contains_cons.mp hhead).1
  have hlength := hello.length_serialize
  have hleft : HelloState.uint16Sub (hello.serialize.length % 65536) 4 =
      (hello.linkMessages.flatMap LinkMessage.serialize).length := by
    rw [HelloState.uint16Sub]
    omega
  have hstart : Hello.startReading b start hello.serialize.length = some (hello.hTime,
      hello.willingness,
      ⟨start + 4, (hello.linkMessages.flatMap LinkMessage.serialize).length, [], none⟩) := by
    rw [Hello.startReading, if_pos (by omega), ReadBuffer.readU8_eq htime (by omega),
      ReadBuffer.readU8_eq hwillingness (by omega), hleft]
    rfl
  obtain ⟨fuel, hfuel⟩ := HelloState.ends_linkMessages [] hlms (by
    show start + 4 + _ ≤ b.dataEnd
    omega) (by omega)
  refine ⟨fuel, ?_⟩
  rw [Hello.deserialize, hstart]
  exact congrArg (Option.map _) hfuel

/-- A message is read back from its bytes, with their number. -/
theorem Message.deserialize_serialize {message : Message} (h : b.Contains start message.serialize)
    (hend : start + message.serialize.length ≤ b.dataEnd)
    (hlt : message.serialize.length < 2 ^ 16) :
    ∃ fuel, Message.deserialize b fuel start message.serialize.length message.type =
      some (some (message, message.serialize.length)) := by
  cases message with
  | mid m =>
    refine ⟨0, congrArg some ?_⟩
    exact congrArg (Option.map fun r => (Message.mid r.1, r.2))
      (Mid.deserialize_serialize h (hlt.trans (by norm_num)))
  | hello m =>
    obtain ⟨fuel, hfuel⟩ := Hello.deserialize_serialize h hend hlt
    exact ⟨fuel, congrArg (Option.map (Option.map fun r : Hello × ℕ => (Message.hello r.1, r.2))) hfuel⟩
  | tc m =>
    refine ⟨0, congrArg some ?_⟩
    exact congrArg (Option.map fun r => (Message.tc r.1, r.2)) (Tc.deserialize_serialize h)
  | hna m =>
    refine ⟨0, congrArg some ?_⟩
    exact congrArg (Option.map fun r => (Message.hna r.1, r.2)) (Hna.deserialize_serialize h)

theorem MessageType.ofCode?_code (type : MessageType) : ofCode? type.code = some type := by
  cases type <;> decide

theorem MessageHeader.readFields_serialize {msg : MessageHeader}
    (h : b.Contains start msg.serialize) (hend : start + msg.serialize.length ≤ b.dataEnd)
    (hlt : msg.serialize.length < 2 ^ 16) :
    ∃ header, readFields b start = some (msg.message.type, msg.serialize.length, header) ∧
      header msg.message = msg := by
  have hlength := msg.length_serialize
  have hsize := msg.getSerializedSize_eq (hlt.trans (by norm_num))
  obtain ⟨h, -⟩ := ReadBuffer.contains_append.mp h
  obtain ⟨h, hseq⟩ := ReadBuffer.contains_append.mp h
  obtain ⟨h, hcounts⟩ := ReadBuffer.contains_append.mp h
  obtain ⟨h, horiginator⟩ := ReadBuffer.contains_append.mp h
  obtain ⟨h, hsizeBytes⟩ := ReadBuffer.contains_append.mp h
  simp only [List.length_append, length_toBytes, length_writeHtonU32, List.length_cons,
    List.length_nil, Nat.reduceAdd] at hseq hcounts horiginator hsizeBytes
  obtain ⟨htype, h⟩ := ReadBuffer.contains_cons.mp h
  have hvTime := (ReadBuffer.contains_cons.mp h).1
  obtain ⟨httl, h⟩ := ReadBuffer.contains_cons.mp hcounts
  have hhop := (ReadBuffer.contains_cons.mp h).1
  refine ⟨fun message => { msg with message := message }, ?_, rfl⟩
  rw [readFields, ReadBuffer.readU8_eq htype (by omega), ReadBuffer.readU8_eq hvTime (by omega),
    ReadBuffer.readU8_eq httl (by omega), ReadBuffer.readU8_eq hhop (by omega),
    hsizeBytes.readNtohU16 (by rw [hsize]; exact hlt), horiginator.readNtohU32,
    hseq.readNtohU16 msg.messageSequenceNumber.toNat_lt, UInt16.ofNat_toNat, hsize]
  simp only [Option.bind_eq_bind, Option.bind_some, messageType, MessageType.ofCode?_code]

/-- The message takes the bytes that `GetSerializedSize` announces, and is read back from them. -/
def MessageHeader.RoundTrips (msg : MessageHeader) : Prop :=
  msg.serialize.length = msg.getSerializedSize ∧
    ∀ b start, b.Contains start msg.serialize → start + msg.serialize.length ≤ b.dataEnd →
      ∃ fuel, MessageHeader.deserialize b fuel start =
        some (some (msg, msg.getSerializedSize))

theorem MessageHeader.roundTrips (msg : MessageHeader) (hlt : msg.serialize.length < 2 ^ 16) :
    msg.RoundTrips := by
  have hsize := msg.getSerializedSize_eq (hlt.trans (by norm_num))
  have hlength := msg.length_serialize
  refine ⟨hsize.symm, fun b start h hend => ?_⟩
  obtain ⟨header, hfields, hheader⟩ := readFields_serialize h hend hlt
  obtain ⟨-, hbody⟩ := ReadBuffer.contains_append.mp h
  simp only [List.length_append, length_toBytes, length_writeHtonU32, List.length_cons,
    List.length_nil, Nat.reduceAdd] at hbody
  obtain ⟨fuel, hfuel⟩ := Message.deserialize_serialize hbody (by omega) (by omega)
  have hmessage : uint32Sub msg.serialize.length OLSR_MSG_HEADER_SIZE =
      msg.message.serialize.length := by
    rw [OLSR_MSG_HEADER_SIZE, uint32Sub_of_le (by omega) (by omega)]
    omega
  have htotal : uint32 (OLSR_MSG_HEADER_SIZE + msg.message.serialize.length) =
      msg.getSerializedSize := by
    rw [OLSR_MSG_HEADER_SIZE, ← hlength, hsize, uint32_of_lt (by omega)]
  refine ⟨fuel, ?_⟩
  rw [MessageHeader.deserialize, hfields]
  dsimp only
  rw [hmessage, OLSR_MSG_HEADER_SIZE, hfuel, Option.map_some, Option.map_some, hheader]
  exact congrArg (fun size => some (some (msg, size))) htotal

end RoundTrip

/-! ## Reading any bytes -/

section Reading
variable {b : ReadBuffer} {p left : ℕ}

/-- The loop comes to a link message with the size zero. -/
inductive MeetsEmptyLink (b : ReadBuffer) : ℕ → ℕ → Prop
  | here {p left : ℕ} : 4 ≤ left → p + 1 ≤ b.dataEnd → b.readNtohU16 (p + 2) = 0 →
      MeetsEmptyLink b p left
  | next {p left n : ℕ} : 4 ≤ left → p + 1 ≤ b.dataEnd → b.readNtohU16 (p + 2) = 4 + n * 4 →
      MeetsEmptyLink b (p + (4 + n * 4)) (HelloState.uint16Sub left (4 + n * 4)) →
      MeetsEmptyLink b p left

namespace HelloState

/-- The remainder of a negative number may be zero. -/
theorem tmod_eq_zero {lmSize : ℕ} (h : ((lmSize : ℤ) - 4).tmod 4 = 0) :
    lmSize = 0 ∨ ∃ n, lmSize = 4 + n * 4 := by
  by_cases hle : 4 ≤ lmSize
  · rw [Int.tmod_eq_emod_of_nonneg (by omega)] at h
    exact .inr ⟨(lmSize - 4) / 4, by omega⟩
  · have hlt : lmSize < 4 := not_le.mp hle
    left
    interval_cases lmSize
    · rfl
    all_goals exact absurd h (by decide)

theorem readLink_eq_some {r : LinkReading} (h : readLink b p = some r) :
    p + 1 ≤ b.dataEnd ∧ (b.readNtohU16 (p + 2) = 0 ∨ ∃ n, b.readNtohU16 (p + 2) = 4 + n * 4) := by
  obtain ⟨linkCode, -, h⟩ := Option.bind_eq_some_iff.mp h
  obtain ⟨reserved, hreserved, h⟩ := Option.bind_eq_some_iff.mp h
  refine ⟨?_, ?_⟩
  · rw [ReadBuffer.readU8] at hreserved
    split at hreserved
    · assumption
    · cases hreserved
  · dsimp only at h
    split at h
    · rename_i hmod
      exact tmod_eq_zero hmod
    · cases h

theorem readLink_zero (hend : p + 1 ≤ b.dataEnd) (hsize : b.readNtohU16 (p + 2) = 0) :
    readLink b p = some ⟨⟨b.data p, []⟩, 0, -1⟩ := by
  rw [readLink, ReadBuffer.readU8_eq rfl (by omega), ReadBuffer.readU8_eq rfl hend, hsize]
  rfl

theorem readLink_succ {n : ℕ} (hend : p + 1 ≤ b.dataEnd)
    (hsize : b.readNtohU16 (p + 2) = 4 + n * 4) :
    readLink b p = some ⟨⟨b.data p, []⟩, 4 + n * 4, n⟩ := by
  obtain ⟨hmod, hdiv⟩ := counter_eq n
  rw [readLink, ReadBuffer.readU8_eq rfl (by omega), ReadBuffer.readU8_eq rfl hend, hsize]
  simp only [Option.bind_eq_bind, Option.bind_some]
  rw [if_pos hmod, hdiv]

/-- The counter that starts below zero never comes to zero. -/
theorem not_halts_of_neg {lms : List LinkMessage} {r : LinkReading} (h : r.n < 0) :
    ¬Halts (turn b) ⟨p, left, lms, some r⟩ := by
  refine not_halts_of_invariant (I := fun s => ∃ r, s.reading = some r ∧ r.n < 0) ?_ ⟨r, rfl, h⟩
  rintro s ⟨r, hr, hneg⟩
  refine ⟨{ s with
    position := s.position + 4
    reading := some { r with
      lm := { r.lm with
        neighborInterfaceAddresses :=
          r.lm.neighborInterfaceAddresses ++ [b.readNtohU32 s.position] }
      n := r.n - 1 } }, ?_, _, rfl, by dsimp only; omega⟩
  rw [turn, hr]
  dsimp only
  rw [if_pos hneg.ne]

theorem turn_readLink {lms : List LinkMessage} {r : LinkReading} (hleft : 4 ≤ left)
    (h : readLink b p = some r) :
    turn b ⟨p, left, lms, none⟩ = .again ⟨p + 4, left, lms, some r⟩ := by
  rw [turn]
  dsimp only
  rw [if_pos (by omega), if_pos hleft, h]

/-- A link message with a size above zero is passed. -/
theorem leads_succ {n : ℕ} (lms : List LinkMessage) (hleft : 4 ≤ left) (hend : p + 1 ≤ b.dataEnd)
    (hsize : b.readNtohU16 (p + 2) = 4 + n * 4) :
    ∃ lms', Leads (turn b) ⟨p, left, lms, none⟩
      ⟨p + (4 + n * 4), uint16Sub left (4 + n * 4), lms', none⟩ := by
  have hinner := leads_addresses b (p + 4) left n (4 + n * 4) lms ⟨b.data p, []⟩
  have hposition : p + 4 + 4 * n = p + (4 + n * 4) := by omega
  rw [hposition] at hinner
  exact ⟨_, .head (turn_readLink hleft (readLink_succ hend hsize)) hinner⟩

/-- The loop halts, but for a link message with the size zero. -/
theorem halts_iff (lms : List LinkMessage) :
    Halts (turn b) ⟨p, left, lms, none⟩ ↔ ¬MeetsEmptyLink b p left := by
  -- Each link message that is passed moves the position towards the end of the buffer.
  induction hk : b.dataEnd + 1 - p using Nat.strong_induction_on generalizing p left lms with
  | _ k ih =>
    subst hk
    by_cases hleft : 4 ≤ left
    · by_cases hsome : ∃ r, readLink b p = some r
      · obtain ⟨r, hr⟩ := hsome
        obtain ⟨hend, hsize | ⟨n, hsize⟩⟩ := readLink_eq_some hr
        · have hnot : ¬Halts (turn b) ⟨p, left, lms, none⟩ := fun hh =>
            not_halts_of_neg (r := ⟨⟨b.data p, []⟩, 0, -1⟩) (show (-1 : ℤ) < 0 by decide)
              (hh.next (turn_readLink hleft (readLink_zero hend hsize)))
          exact iff_of_false hnot (not_not_intro (.here hleft hend hsize))
        · obtain ⟨lms', hlead⟩ := leads_succ lms hleft hend hsize
          rw [hlead.halts_iff, ih _ (by omega) _ rfl]
          refine not_congr ⟨.next hleft hend hsize, fun hmeets => ?_⟩
          cases hmeets with
          | here _ _ hzero => omega
          | @next _ _ n' _ _ hsize' hrest =>
            obtain rfl : n = n' := by omega
            exact hrest
      · have hnone : readLink b p = none := by
          rw [Option.eq_none_iff_forall_ne_some]
          exact fun r hr => hsome ⟨r, hr⟩
        refine iff_of_true (Fails.here ?_).halts fun hmeets => ?_
        · rw [turn]
          dsimp only
          rw [if_pos (by omega), if_pos hleft, hnone]
        · cases hmeets with
          | here _ hend hzero => exact hsome ⟨_, readLink_zero hend hzero⟩
          | next _ hend hsize _ => exact hsome ⟨_, readLink_succ hend hsize⟩
    · refine iff_of_true ?_ fun hmeets => ?_
      · by_cases hzero : left = 0
        · exact (Ends.here (by rw [turn, hzero]; rfl)).halts
        · refine (Fails.here ?_).halts
          rw [turn]
          dsimp only
          rw [if_pos hzero, if_neg hleft]
      · cases hmeets <;> omega

end HelloState

/-- `Deserialize` of a HELLO fails an assertion or returns. -/
def Hello.Halts (b : ReadBuffer) (start messageSize : ℕ) : Prop :=
  ∃ fuel, Hello.deserialize b fuel start messageSize ≠ none

/-- The loop is reached, and comes to a link message with the size zero. -/
def Hello.EmptyLink (b : ReadBuffer) (start messageSize : ℕ) : Prop :=
  messageSize ≥ 4 ∧ start + 3 ≤ b.dataEnd ∧
    MeetsEmptyLink b (start + 4) (HelloState.uint16Sub (messageSize % 65536) 4)

theorem Hello.halts_iff (b : ReadBuffer) (start messageSize : ℕ) :
    Hello.Halts b start messageSize ↔ ¬Hello.EmptyLink b start messageSize := by
  by_cases hread : messageSize ≥ 4 ∧ start + 3 ≤ b.dataEnd
  · have hstart : startReading b start messageSize = some (b.data (start + 2), b.data (start + 3),
        ⟨start + 4, HelloState.uint16Sub (messageSize % 65536) 4, [], none⟩) := by
      rw [startReading, if_pos hread.1, ReadBuffer.readU8_eq rfl (by omega),
        ReadBuffer.readU8_eq rfl hread.2]
      rfl
    have hempty : Hello.EmptyLink b start messageSize ↔
        MeetsEmptyLink b (start + 4) (HelloState.uint16Sub (messageSize % 65536) 4) := by
      rw [EmptyLink, ← and_assoc, and_iff_right hread]
    rw [hempty, ← HelloState.halts_iff []]
    refine exists_congr fun fuel => not_congr ?_
    rw [Hello.deserialize, hstart]
    exact Option.map_eq_none_iff
  · refine iff_of_true ⟨0, ?_⟩ fun hempty => hread ⟨hempty.1, hempty.2.1⟩
    have hnone : startReading b start messageSize = none := by
      rw [startReading]
      split
      · rename_i hsize
        have hend : ¬start + 3 ≤ b.dataEnd := fun hend => hread ⟨hsize, hend⟩
        have hwillingness : b.readU8 (start + 3) = none := if_neg hend
        rw [hwillingness]
        cases b.readU8 (start + 2) <;> rfl
      · rfl
    rw [Hello.deserialize, hnone]
    exact Option.some_ne_none none

/-- Messages with a size of 16 bits are read back, and a HELLO is read from any bytes to an end or a
failed assertion, if and only if no link message that the loop comes to has the size zero. -/
theorem reads_iff (msg : MessageHeader) (b : ReadBuffer) (start messageSize : ℕ) :
    ((msg.serialize.length < 2 ^ 16 → msg.RoundTrips) ∧ Hello.Halts b start messageSize) ↔
      ¬Hello.EmptyLink b start messageSize := by
  rw [and_iff_right msg.roundTrips, Hello.halts_iff]

/-- A HELLO of eight bytes, the last four of them a link message with the size zero. -/
def emptyLinkBuffer : ReadBuffer := ⟨fun k => [0, 0, 7, 3, 2, 0, 0, 0].getD k 0, 8⟩

theorem not_reads_emptyLink : ¬∀ (msg : MessageHeader) (b : ReadBuffer) (start messageSize : ℕ),
    (msg.serialize.length < 2 ^ 16 → msg.RoundTrips) ∧ Hello.Halts b start messageSize := by
  intro h
  have hempty : Hello.EmptyLink emptyLinkBuffer 0 8 :=
    ⟨by decide, by decide, .here (by decide) (by decide) (by decide)⟩
  exact (Hello.halts_iff _ _ _).mp (h ⟨0, 0, 0, 0, 0, .mid ⟨[]⟩⟩ emptyLinkBuffer 0 8).2 hempty

end Reading

end Ns3Noc.Olsr
