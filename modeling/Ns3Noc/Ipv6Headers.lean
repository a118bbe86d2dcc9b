import Mathlib

/-!
# IPv6 headers

The headers of an IPv6 packet as bytes: the fixed header, the header of a fragment, and the
hop-by-hop, routing and destination extension headers. Reading behind the end of the bytes fails.
-/
namespace Ns3Noc.Ipv6

abbrev Bytes := List UInt8

/-- `m_address[16]` -/
abbrev Ipv6Address := Vector UInt8 16

def writeHtonU16 (data : ℕ) : List UInt8 := [UInt8.ofNat (data / 256), UInt8.ofNat (data % 256)]

def writeHtonU32 (data : ℕ) : List UInt8 :=
  writeHtonU16 (data / 65536) ++ writeHtonU16 (data % 65536)

def readNtohU16 (a b : UInt8) : ℕ := a.toNat * 256 + b.toNat

def readNtohU32 (a b c d : UInt8) : ℕ := readNtohU16 a b * 65536 + readNtohU16 c d

/-- `Ipv6ExtensionFragmentHeader`: `m_offset` holds the offset and the flag that more follows. -/
structure FragmentHeader where
  nextHeader : UInt8
  length : UInt8
  offset : ℕ
  identification : ℕ
  deriving DecidableEq, Repr

namespace FragmentHeader

/-- `m_offset &= 1; m_offset |= offset & (~7)` -/
def setOffset (header : FragmentHeader) (offset : ℕ) : FragmentHeader :=
  { header with offset := header.offset % 2 + offset / 8 * 8 }

/-- `m_offset & (~1)` -/
def getOffset (header : FragmentHeader) : ℕ := header.offset / 2 * 2

/-- `moreFragment ? m_offset | 1 : m_offset & (~1)` -/
def setMoreFragment (header : FragmentHeader) (moreFragment : Bool) : FragmentHeader :=
  { header with offset := header.offset / 2 * 2 + if moreFragment then 1 else 0 }

def getMoreFragment (header : FragmentHeader) : Bool := header.offset % 2 = 1

def serialize (header : FragmentHeader) : List UInt8 :=
  [header.nextHeader, header.length] ++ writeHtonU16 header.offset ++
    writeHtonU32 header.identification

def deserialize : List UInt8 → Option FragmentHeader
  | nextHeader :: length :: a :: b :: c :: d :: e :: f :: _ =>
    some ⟨nextHeader, length, readNtohU16 a b, readNtohU32 c d e f⟩
  | _ => none

@[simp] theorem length_serialize (header : FragmentHeader) : header.serialize.length = 8 := rfl

theorem readNtohU16_write {n : ℕ} (h : n < 65536) :
    readNtohU16 (UInt8.ofNat (n / 256)) (UInt8.ofNat (n % 256)) = n := by
  have hhigh : n / 256 < 256 := by omega
  have hlow : n % 256 < 256 := by omega
  rw [readNtohU16, UInt8.toNat_ofNat_of_lt' hhigh, UInt8.toNat_ofNat_of_lt' hlow]
  omega

/-- What is written is read back, whatever follows it. -/
theorem deserialize_serialize {header : FragmentHeader} (hoffset : header.offset < 65536)
    (hid : header.identification < 4294967296) (rest : List UInt8) :
    deserialize (header.serialize ++ rest) = some header := by
  have hhigh : header.identification / 65536 < 65536 := by omega
  have hlow : header.identification % 65536 < 65536 := by omega
  show some (FragmentHeader.mk _ _ _ _) = _
  rw [readNtohU16_write hoffset, readNtohU32, readNtohU16_write hhigh, readNtohU16_write hlow]
  have hsplit : header.identification / 65536 * 65536 + header.identification % 65536 =
      header.identification := by omega
  rw [hsplit]

end FragmentHeader

/-! ## The fixed header -/

/-- `ReadFrom (i, address)` -/
def readAddress (p : Bytes) : Option (Ipv6Address × Bytes) :=
  if p.length < 16 then none else some (Vector.ofFn fun i => p.getD i 0, p.drop 16)

theorem readAddress_append (address : Ipv6Address) (rest : Bytes) :
    readAddress (address.toList ++ rest) = some (address, rest) := by
  have hlen : address.toList.length = 16 := Vector.length_toList
  have hread : (Vector.ofFn fun i : Fin 16 => (address.toList ++ rest).getD i 0) = address := by
    apply Vector.ext
    intro i hi
    rw [Vector.getElem_ofFn, List.getD_append _ _ _ _ (by omega), List.getD_eq_getElem _ _ (by omega),
      Vector.getElem_toList]
  rw [readAddress, if_neg (by rw [List.length_append, hlen]; omega), hread, List.drop_left' hlen]

theorem readAddress_of_append {p p' : Bytes} {address : Ipv6Address}
    (h : readAddress p = some (address, p')) (rest : Bytes) :
    readAddress (p ++ rest) = some (address, p' ++ rest) := by
  rw [readAddress] at h
  split at h
  · cases h
  · next hlen =>
    have hle : 16 ≤ p.length := Nat.not_lt.mp hlen
    obtain ⟨rfl, rfl⟩ := Prod.mk.inj (Option.some.inj h)
    have hread : (Vector.ofFn fun i : Fin 16 => (p ++ rest).getD i 0) =
        Vector.ofFn fun i : Fin 16 => p.getD i 0 := by
      congr 1
      funext i
      exact List.getD_append _ _ _ _ (by omega)
    rw [readAddress, if_neg (by rw [List.length_append]; omega), hread,
      List.drop_append_of_le_length hle]

/-- `Ipv6Header`; the version is 6 wherever it has been read. -/
structure Ipv6Header where
  trafficClass : UInt8
  flowLabel : ℕ
  payloadLength : ℕ
  nextHeader : UInt8
  hopLimit : UInt8
  sourceAddress : Ipv6Address
  destinationAddress : Ipv6Address
  deriving DecidableEq, Repr

def IPV6_EXT_HOP_BY_HOP : UInt8 := 0
def IPV6_EXT_ROUTING : UInt8 := 43
def IPV6_EXT_FRAGMENTATION : UInt8 := 44
def IPV6_EXT_DESTINATION : UInt8 := 60

namespace Ipv6Header

def serialize (header : Ipv6Header) : Bytes :=
  let vTcFl := 6 <<< 28 ||| header.trafficClass.toNat <<< 20 ||| header.flowLabel
  writeHtonU32 vTcFl ++ writeHtonU16 header.payloadLength ++
    [header.nextHeader, header.hopLimit] ++ header.sourceAddress.toList ++
      header.destinationAddress.toList

/-- Fails unless the version is 6. The flow label is masked with the complement of its bits. -/
def deserialize : Bytes → Option Ipv6Header
  | a :: b :: c :: d :: e :: f :: nextHeader :: hopLimit :: p =>
    let vTcFl := readNtohU32 a b c d
    if vTcFl >>> 28 = 6 then do
      let (sourceAddress, p) ← readAddress p
      let (destinationAddress, _) ← readAddress p
      return {
        trafficClass := UInt8.ofNat (vTcFl >>> 20 &&& 0xff)
        flowLabel := vTcFl &&& 0xfff00000
        payloadLength := readNtohU16 e f
        nextHeader, hopLimit, sourceAddress, destinationAddress }
    else none
  | _ => none

theorem deserialize_append {p : Bytes} {header : Ipv6Header} (h : deserialize p = some header)
    (rest : Bytes) : deserialize (p ++ rest) = some header := by
  match p, h with
  | a :: b :: c :: d :: e :: f :: nextHeader :: hopLimit :: p, h =>
    simp only [List.cons_append, deserialize] at h ⊢
    split at h
    · next hversion =>
      rw [if_pos hversion]
      obtain ⟨⟨source, p'⟩, hsource, h⟩ := Option.bind_eq_some_iff.mp h
      obtain ⟨⟨destination, p''⟩, hdestination, h⟩ := Option.bind_eq_some_iff.mp h
      rw [readAddress_of_append hsource, Option.bind_eq_bind, Option.bind_some]
      dsimp only
      rw [readAddress_of_append hdestination]
      exact h
    · cases h

@[simp] theorem length_serialize (header : Ipv6Header) : header.serialize.length = 40 := by
  rw [serialize, List.length_append, List.length_append, Vector.length_toList,
    Vector.length_toList]
  rfl

end Ipv6Header

/-! ## Extension headers -/

/-- `Ipv6ExtensionHopByHopHeader`, `Ipv6ExtensionLooseRoutingHeader` and
`Ipv6ExtensionDestinationHeader`; `length` is the byte `m_length`. -/
inductive ExtensionHeader where
  | hopByHop (nextHeader length : UInt8) (optionData : Bytes)
  | routing (nextHeader length typeRouting segmentsLeft : UInt8) (routersAddress : List Ipv6Address)
  | destination (nextHeader length : UInt8) (optionData : Bytes)
  deriving DecidableEq, Repr

/-- What is left of `length` addresses to read. -/
def readAddresses : ℕ → Bytes → Option (List Ipv6Address × Bytes)
  | 0, p => some ([], p)
  | n + 1, p => do
    let (address, p) ← readAddress p
    let (rest, p) ← readAddresses n p
    return (address :: rest, p)

/-- `OptionField::Deserialize` behind the two bytes of an extension header. -/
def readOptions (length : UInt8) (p : Bytes) : Option (Bytes × Bytes) :=
  let size := (length.toNat + 1) * 8 - 2
  if p.length < size then none else some (p.take size, p.drop size)

namespace ExtensionHeader

/-- The number that the header before this one has for it. -/
def number : ExtensionHeader → UInt8
  | hopByHop .. => IPV6_EXT_HOP_BY_HOP
  | routing .. => IPV6_EXT_ROUTING
  | destination .. => IPV6_EXT_DESTINATION

def nextHeader : ExtensionHeader → UInt8
  | hopByHop nextHeader .. => nextHeader
  | routing nextHeader .. => nextHeader
  | destination nextHeader .. => nextHeader

def setNextHeader (nextHeader : UInt8) : ExtensionHeader → ExtensionHeader
  | hopByHop _ length optionData => hopByHop nextHeader length optionData
  | routing _ length typeRouting segmentsLeft routersAddress =>
    routing nextHeader length typeRouting segmentsLeft routersAddress
  | destination _ length optionData => destination nextHeader length optionData

/-- `(m_length + 1) << 3` -/
def getLength : ExtensionHeader → ℕ
  | hopByHop _ length _ => (length.toNat + 1) * 8
  | routing _ length .. => (length.toNat + 1) * 8
  | destination _ length _ => (length.toNat + 1) * 8

def serialize : ExtensionHeader → Bytes
  | hopByHop nextHeader length optionData => [nextHeader, length] ++ optionData
  | routing nextHeader length typeRouting segmentsLeft routersAddress =>
    [nextHeader, length, typeRouting, segmentsLeft, 0, 0, 0, 0] ++
      routersAddress.flatMap Vector.toList
  | destination nextHeader length optionData => [nextHeader, length] ++ optionData

/-- `Deserialize` of a header with options. -/
def readOptionField (header : UInt8 → UInt8 → Bytes → ExtensionHeader) :
    Bytes → Option (ExtensionHeader × Bytes)
  | nextHeader :: length :: p =>
    (readOptions length p).map fun (optionData, p) => (header nextHeader length optionData, p)
  | _ => none

/-- `Deserialize` of a routing header, with half its length as the number of addresses. -/
def readLooseRouting : Bytes → Option (ExtensionHeader × Bytes)
  | nextHeader :: length :: typeRouting :: segmentsLeft :: _ :: _ :: _ :: _ :: p =>
    (readAddresses (length.toNat / 2) p).map fun (routersAddress, p) =>
      (routing nextHeader length typeRouting segmentsLeft routersAddress, p)
  | _ => none

/-- `p->RemoveHeader (header)` for the header that the number asks for. -/
def remove (number : UInt8) (p : Bytes) : Option (ExtensionHeader × Bytes) :=
  if number = IPV6_EXT_HOP_BY_HOP then readOptionField hopByHop p
  else if number = IPV6_EXT_ROUTING then readLooseRouting p
  else if number = IPV6_EXT_DESTINATION then readOptionField destination p
  else none

/-- What follows the two bytes is as long as the length byte says. -/
def WellFormed : ExtensionHeader → Prop
  | hopByHop _ length optionData => optionData.length + 2 = (length.toNat + 1) * 8
  | routing _ length _ _ routersAddress => length.toNat = 2 * routersAddress.length
  | destination _ length optionData => optionData.length + 2 = (length.toNat + 1) * 8

variable {header : ExtensionHeader}

@[simp] theorem nextHeader_setNextHeader (next : UInt8) (header : ExtensionHeader) :
    (header.setNextHeader next).nextHeader = next := by
  cases header <;> rfl

@[simp] theorem getLength_setNextHeader (next : UInt8) (header : ExtensionHeader) :
    (header.setNextHeader next).getLength = header.getLength := by
  cases header <;> rfl

theorem serialize_eq_cons (header : ExtensionHeader) :
    header.serialize = header.nextHeader :: header.serialize.tail := by
  cases header <;> rfl

theorem WellFormed.setNextHeader (h : header.WellFormed) (next : UInt8) :
    (header.setNextHeader next).WellFormed := by
  cases header <;> exact h

theorem length_flatMap_toList (addresses : List Ipv6Address) :
    (addresses.flatMap Vector.toList).length = 16 * addresses.length := by
  induction addresses with
  | nil => rfl
  | cons address addresses ih =>
    rw [List.flatMap_cons, List.length_append, ih, Vector.length_toList, List.length_cons]
    omega

theorem WellFormed.length_serialize (h : header.WellFormed) :
    header.serialize.length = header.getLength := by
  cases header with
  | hopByHop _ length optionData =>
    rw [WellFormed] at h
    rw [serialize, List.length_append, getLength, ← h]
    exact Nat.add_comm _ _
  | routing _ length _ _ addresses =>
    rw [WellFormed] at h
    rw [serialize, List.length_append, length_flatMap_toList, getLength, h]
    simp only [List.length_cons, List.length_nil]
    omega
  | destination _ length optionData =>
    rw [WellFormed] at h
    rw [serialize, List.length_append, getLength, ← h]
    exact Nat.add_comm _ _

theorem readOptions_append {length : UInt8} {optionData : Bytes}
    (h : optionData.length + 2 = (length.toNat + 1) * 8) (rest : Bytes) :
    readOptions length (optionData ++ rest) = some (optionData, rest) := by
  have hsize : optionData.length = (length.toNat + 1) * 8 - 2 := by omega
  rw [readOptions, ← hsize, if_neg (by rw [List.length_append]; omega), List.take_left, List.drop_left]

theorem readAddresses_append (addresses : List Ipv6Address) (rest : Bytes) :
    readAddresses addresses.length (addresses.flatMap Vector.toList ++ rest) =
      some (addresses, rest) := by
  induction addresses with
  | nil => rfl
  | cons address addresses ih =>
    rw [List.flatMap_cons, List.append_assoc, List.length_cons, readAddresses, readAddress_append,
      Option.bind_eq_bind, Option.bind_some]
    dsimp only
    rw [ih]
    rfl

theorem readOptionField_append (header : UInt8 → UInt8 → Bytes → ExtensionHeader)
    {length : UInt8} {optionData : Bytes} (h : optionData.length + 2 = (length.toNat + 1) * 8)
    (next : UInt8) (rest : Bytes) :
    readOptionField header (next :: length :: (optionData ++ rest)) =
      some (header next length optionData, rest) := by
  rw [readOptionField, readOptions_append h, Option.map_some]

/-- A header that is well formed is read back. -/
theorem WellFormed.remove_serialize (h : header.WellFormed) (rest : Bytes) :
    remove header.number (header.serialize ++ rest) = some (header, rest) := by
  cases header with
  | hopByHop next length optionData =>
    rw [remove, number, if_pos rfl]
    exact readOptionField_append hopByHop h next rest
  | routing next length typeRouting segmentsLeft addresses =>
    rw [WellFormed] at h
    have hhalf : length.toNat / 2 = addresses.length := by omega
    rw [remove, number, if_neg (by decide), if_pos rfl, serialize, List.append_assoc]
    change (readAddresses (length.toNat / 2) _).map _ = _
    rw [hhalf]
    change (readAddresses addresses.length (addresses.flatMap Vector.toList ++ rest)).map _ = _
    rw [readAddresses_append, Option.map_some]
  | destination next length optionData =>
    rw [remove, number, if_neg (by decide), if_neg (by decide), if_pos rfl]
    exact readOptionField_append destination h next rest

end ExtensionHeader

end Ns3Noc.Ipv6
