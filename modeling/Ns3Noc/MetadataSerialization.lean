import Mathlib
import Ns3Noc.BufferSerialization
import Ns3Noc.MetadataBlocks

/-!
# MetadataSerialization

The serialized form of the metadata of a packet: the packet uid, and the records with the names of
their types.
-/
namespace Ns3Noc
open ByteSlices PaddedSections

/-- The registered types; a type's uid is its position, from 1 on. -/
structure IidManager where
  information : List (List UInt8)
  nodup : information.Nodup
  length_le : information.length ≤ 0xffff

namespace IidManager

/-- `none` is the fatal error for a name that is there, or too many names. -/
def allocateUid (types : IidManager) (name : List UInt8) : Option (ℕ × IidManager) :=
  if h : name ∉ types.information ∧ types.information.length + 1 ≤ 0xffff then
    some (types.information.length + 1, ⟨types.information ++ [name],
      List.nodup_append.mpr ⟨types.nodup, List.nodup_singleton _, by
        rintro a ha b hb rfl
        exact h.1 (List.mem_singleton.mp hb ▸ ha)⟩,
      by simpa using h.2⟩)
  else none

def getName (types : IidManager) (uid : ℕ) : Option (List UInt8) := do
  guard (uid ≤ types.information.length ∧ uid ≠ 0)
  types.information[uid - 1]?

/-- `TypeId::LookupByName` -/
def lookupByName (types : IidManager) (name : List UInt8) : Option ℕ :=
  if name ∈ types.information then some (types.information.idxOf name + 1) else none

theorem getName_lookup {types : IidManager} {uid : ℕ} {name : List UInt8}
    (h : types.getName uid = some name) : types.lookupByName name = some uid ∧ uid ≤ 0xffff := by
  simp only [getName, Option.bind_eq_bind, Option.bind_eq_some_iff] at h
  obtain ⟨u, hguard, hget⟩ := h
  obtain ⟨hle, hne⟩ := (Option.guard_eq_some' _).mp hguard
  obtain ⟨hlt, hget⟩ := List.getElem?_eq_some_iff.mp hget
  refine ⟨?_, hle.trans types.length_le⟩
  have hindex := types.nodup.idxOf_getElem (uid - 1) hlt
  rw [hget] at hindex
  rw [lookupByName, if_pos (List.mem_of_getElem hget), hindex]
  congr 1
  omega

end IidManager

namespace PacketMetadata

/-- The name of the type of an item. Payload has no type, and no name. -/
def typeName (types : IidManager) (item : SmallItem) : Option (List UInt8) :=
  let uid := item.typeUid / 2
  if uid = 0 then some [] else types.getName (uid % 2 ^ 16)

def getSerializedSize (m : PacketMetadata) (types : IidManager) (pool : MetadataPool) : Option ℕ :=
  if pool.enable = false then some 8
  else do
    let records ← m.records
    let names ← records.mapM fun record => typeName types record.1
    some (uint32 (8 + (names.map fun name => 4 + name.length + (1 + 4 + 2 + 4 + 4 + 8)).sum))

/-- The lowest byte first. -/
def rawBytes (n v : ℕ) : List UInt8 := (BigEndian.toBytes n v).reverse

/-- What is written for an item, in one call of `AddToRaw` each. -/
def rawFields (name : List UInt8) (record : SmallItem × ExtraItem) : List (List UInt8) :=
  [rawBytes 4 name.length, name, rawBytes 1 (record.1.typeUid % 2), rawBytes 4 record.1.size,
    rawBytes 2 record.1.chunkUid, rawBytes 4 record.2.fragmentStart,
    rawBytes 4 record.2.fragmentEnd, rawBytes 8 record.2.packetUid]

def unpadded (bytes : List UInt8) : Padded UInt8 := ⟨bytes, bytes.length, le_rfl⟩

/-- `Serialize` to address 0 of a memory, with the value that it returns. The records and the names
are read before anything is written. -/
def serialize (m : PacketMetadata) (types : IidManager) (memory : ℕ → UInt8) (maxSize : ℕ) :
    Option (ℕ × (ℕ → UInt8)) := do
  let records ← m.records
  let names ← records.mapM fun record => typeName types record.1
  let fields := rawBytes 8 m.packetUid :: (List.zipWith rawFields names records).flatten
  match Buffer.putAll maxSize ⟨memory, 0, 0⟩ (fields.map unpadded) with
  | .ok s => do
    guard (s.size = maxSize)
    some (1, s.memory)
  | .error memory => some (0, memory)

/-- `buffer` and `desSize` in `Deserialize`. -/
structure Reading where
  current : ℕ
  desSize : ℕ

/-- `ReadFromRaw`, and what `Deserialize` subtracts after it. `none` is the null pointer. -/
def Reading.take (memory : ℕ → UInt8) (size : ℕ) (s : Reading) (n : ℕ) : Option (ℕ × Reading) :=
  if uint32 (s.current + n) ≤ size then
    some (BigEndian.ofBytes (slice memory s.current n).reverse,
      ⟨s.current + n, uint32Sub s.desSize n⟩)
  else none

def Reading.string (memory : ℕ → UInt8) (size : ℕ) (s : Reading) :
    ℕ → Option (List UInt8 × Reading)
  | 0 => some ([], s)
  | n + 1 => do
    let (ch, s) ← s.take memory size 1
    let (name, s) ← s.string memory size n
    some (UInt8.ofNat ch :: name, s)

/-- The fields of an item, as `AddBig` uses them. -/
def Reading.item (types : IidManager) (memory : ℕ → UInt8) (size : ℕ) (s : Reading) :
    Option (SmallItem × ExtraItem × Reading) := do
  let (uidStringSize, s) ← s.take memory size 4
  let (uid, s) ←
    if uidStringSize = 0 then some (0, s)
    else do
      let (uidString, s) ← s.string memory size uidStringSize
      let uid ← types.lookupByName uidString
      some (uid, s)
  let (isBig, s) ← s.take memory size 1
  let (itemSize, s) ← s.take memory size 4
  let (chunkUid, s) ← s.take memory size 2
  let (fragmentStart, s) ← s.take memory size 4
  let (fragmentEnd, s) ← s.take memory size 4
  let (packetUid, s) ← s.take memory size 8
  some (⟨0, 0, uid * 2 ||| isBig, itemSize, chunkUid⟩, ⟨fragmentStart, fragmentEnd, packetUid⟩, s)

/-- The loop of `Deserialize`. -/
def deserializeItems (types : IidManager) (memory : ℕ → UInt8) (size : ℕ) :
    ℕ → PacketMetadata → MetadataPool → Reading → Option (PacketMetadata × MetadataPool)
  | 0, _, _, _ => none
  | fuel + 1, m, pool, s =>
    if 0 < s.desSize then do
      let (item, extraItem, s) ← s.item types memory size
      let (tmp, m, pool) ← m.addBig pool 0xffff m.tail item extraItem
      let m ← m.updateTail tmp
      deserializeItems types memory size fuel m pool s
    else some (m, pool)

/-- `Deserialize` from address 0 of a memory. It returns 1 behind its last assertion; every item
takes some bytes, so that the fuel lasts. -/
def deserialize (m : PacketMetadata) (types : IidManager) (pool : MetadataPool)
    (memory : ℕ → UInt8) (size : ℕ) : Option (ℕ × PacketMetadata × MetadataPool) := do
  let s : Reading := ⟨0, uint32Sub size 4⟩
  let (packetUid, s) ← s.take memory size 8
  let (m, pool) ← deserializeItems types memory size (size + 1) { m with packetUid } pool s
  some (1, m, pool)

/-! ## The serialized form -/

section Serialized
variable {types : IidManager} {pool : MetadataPool} {m : PacketMetadata}
  {records : List (SmallItem × ExtraItem)} {memory : ℕ → UInt8}

@[simp] theorem length_rawBytes (n v : ℕ) : (rawBytes n v).length = n := by
  rw [rawBytes, List.length_reverse, BigEndian.length_toBytes]

theorem total_unpadded (fields : List (List UInt8)) :
    total (fields.map unpadded) = fields.flatten.length := by
  induction fields with
  | nil => rfl
  | cons bytes fields ih =>
    rw [List.map_cons, total_cons, ih, List.flatten_cons, List.length_append]
    rfl

theorem lay_unpadded (f : ℕ → UInt8) (a : ℕ) (fields : List (List UInt8)) :
    lay f a (fields.map unpadded) = overwrite f a fields.flatten := by
  induction fields generalizing f a with
  | nil => exact (overwrite_nil f a).symm
  | cons bytes fields ih =>
    rw [List.map_cons, lay, ih, List.flatten_cons, ← overwrite_append]
    rfl

/-- The name that is written for a record. -/
def nameOf (types : IidManager) (record : SmallItem × ExtraItem) : List UInt8 :=
  (typeName types record.1).getD []

/-- Records of registered types. Without metadata there are none. -/
structure Holds (types : IidManager) (enable : Bool) (m : PacketMetadata)
    (records : List (SmallItem × ExtraItem)) : Prop where
  walked : m.records = some records
  named : ∀ record ∈ records, typeName types record.1 = some (nameOf types record)
  typeUid : ∀ record ∈ records, record.1.typeUid < 2 ^ 17
  enabled : enable = false → records = []
  packetUid : m.packetUid < 2 ^ 64

def itemBytes (types : IidManager) (record : SmallItem × ExtraItem) : List UInt8 :=
  (rawFields (nameOf types record) record).flatten

def itemsBytes (types : IidManager) (records : List (SmallItem × ExtraItem)) : List UInt8 :=
  records.flatMap (itemBytes types)

/-- The serialized form. -/
def bytes (types : IidManager) (m : PacketMetadata) (records : List (SmallItem × ExtraItem)) :
    List UInt8 :=
  rawBytes 8 m.packetUid ++ itemsBytes types records

theorem length_itemBytes (types : IidManager) (record : SmallItem × ExtraItem) :
    (itemBytes types record).length = 4 + (nameOf types record).length + 23 := by
  simp only [itemBytes, rawFields, List.flatten_cons, List.flatten_nil, List.length_append,
    length_rawBytes, List.length_nil]
  omega

theorem mapM_typeName (h : ∀ record ∈ records, typeName types record.1 = some (nameOf types record)) :
    (records.mapM fun record => typeName types record.1) = some (records.map (nameOf types)) := by
  induction records with
  | nil => rfl
  | cons record records ih =>
    have hrecord := h record List.mem_cons_self
    have hrecords := ih fun r hr => h r (List.mem_cons_of_mem _ hr)
    rw [List.mapM_cons, hrecord, hrecords]
    rfl

theorem flatten_fields (types : IidManager) (records : List (SmallItem × ExtraItem)) :
    (List.zipWith rawFields (records.map (nameOf types)) records).flatten.flatten =
      itemsBytes types records := by
  induction records with
  | nil => rfl
  | cons record records ih =>
    rw [List.map_cons, List.zipWith_cons_cons, List.flatten_cons, List.flatten_append, ih]
    rfl

theorem Holds.getSerializedSize_eq (h : m.Holds types pool.enable records)
    (hlt : (bytes types m records).length < 2 ^ 32) :
    m.getSerializedSize types pool = some (bytes types m records).length := by
  have hlength : (bytes types m records).length =
      8 + ((records.map (nameOf types)).map fun name => 4 + name.length +
        (1 + 4 + 2 + 4 + 4 + 8)).sum := by
    rw [bytes, itemsBytes, List.length_append, length_rawBytes, List.length_flatMap, List.map_map]
    congr 3
    funext record
    exact length_itemBytes types record
  rw [getSerializedSize]
  split_ifs with hoff
  · rw [hlength, h.enabled hoff]
    rfl
  · simp only [h.walked, mapM_typeName h.named, Option.bind_eq_bind, Option.bind_some]
    rw [← hlength, uint32_of_lt hlt]

theorem Holds.serialize_eq (h : m.Holds types pool.enable records)
    (hlt : (bytes types m records).length < 2 ^ 32) (memory : ℕ → UInt8) :
    m.serialize types memory (bytes types m records).length =
      some (1, overwrite memory 0 (bytes types m records)) := by
  have hfields : (rawBytes 8 m.packetUid :: (List.zipWith rawFields (records.map (nameOf types))
      records).flatten).flatten = bytes types m records := by
    rw [List.flatten_cons, flatten_fields, bytes]
  simp only [serialize, h.walked, mapM_typeName h.named, Option.bind_eq_bind, Option.bind_some]
  generalize rawBytes 8 m.packetUid :: (List.zipWith rawFields (records.map (nameOf types))
      records).flatten = fields at hfields ⊢
  rw [← hfields] at hlt ⊢
  have hcases := @Buffer.putAll_cases fields.flatten.length (fields.map unpadded) ⟨memory, 0, 0⟩ rfl
    (Nat.zero_le _) (by rwa [total_unpadded, Nat.zero_add])
  rw [total_unpadded, lay_unpadded, Nat.zero_add] at hcases
  obtain ⟨-, hput⟩ | ⟨hgt, -⟩ := hcases
  · rw [hput]
    exact congrArg (Option.bind · _) (Buffer.guard_of rfl)
  · exact absurd hgt (Nat.lt_irrefl _)

end Serialized

/-! ## Reading -/

section Reading
variable {types : IidManager} {memory : ℕ → UInt8} {size c n v : ℕ}
  {record : SmallItem × ExtraItem} {records : List (SmallItem × ExtraItem)}

/-- The size includes the word in front of the form. -/
def Reading.before (size c : ℕ) : Reading := ⟨c, size - 4 - c⟩

theorem Reading.take_eq (hsize : size < 2 ^ 32) (hroom : c + n ≤ size - 4) (hv : v < 256 ^ n)
    (h : slice memory c n = rawBytes n v) :
    (Reading.before size c).take memory size n = some (v, Reading.before size (c + n)) := by
  have hsub : uint32Sub (size - 4 - c) n = size - 4 - (c + n) := by
    rw [uint32Sub_of_le (by omega) (by omega), Nat.sub_sub]
  have hle : uint32 (c + n) ≤ size := by
    rw [uint32_of_lt (by omega)]
    omega
  have hread : BigEndian.ofBytes (rawBytes n v).reverse = v := by
    rw [rawBytes, List.reverse_reverse, BigEndian.ofBytes_toBytes hv]
  simp only [Reading.take, Reading.before, if_pos hle, h, hread, hsub]

theorem Reading.string_eq (hsize : size < 2 ^ 32) {name : List UInt8}
    (hroom : c + name.length ≤ size - 4) (h : slice memory c name.length = name) :
    (Reading.before size c).string memory size name.length =
      some (name, Reading.before size (c + name.length)) := by
  induction name generalizing c with
  | nil => rfl
  | cons ch name ih =>
    rw [List.length_cons] at hroom
    obtain ⟨hhead, htail⟩ := slice_cons h
    have hch : slice memory c 1 = rawBytes 1 ch.toNat := by
      simp [slice, rawBytes, BigEndian.toBytes, hhead]
    have htake := Reading.take_eq (n := 1) hsize (by omega) ch.toNat_lt hch
    have hrest := ih (c := c + 1) (by omega) htail
    rw [List.length_cons, Reading.string, htake]
    simp only [Option.bind_eq_bind, Option.bind_some, hrest, UInt8.ofNat_toNat, Nat.add_assoc,
      Nat.add_comm 1]

/-- What is read back for a record: the type of an empty name is lost. -/
def readBack (types : IidManager) (record : SmallItem × ExtraItem) : SmallItem × ExtraItem :=
  let uid := if nameOf types record = [] then 0 else record.1.typeUid / 2
  ({ record.1 with next := 0, prev := 0, typeUid := uid * 2 ||| record.1.typeUid % 2 }, record.2)

/-- A record that fits into its types, with a registered type. -/
structure Registered (types : IidManager) (record : SmallItem × ExtraItem) : Prop where
  ranged : Ranged record.1 record.2
  named : typeName types record.1 = some (nameOf types record)
  typeUid : record.1.typeUid < 2 ^ 17

theorem Registered.lookup (h : Registered types record) (hne : nameOf types record ≠ []) :
    types.lookupByName (nameOf types record) = some (record.1.typeUid / 2) := by
  have hnamed := h.named
  rw [typeName] at hnamed
  split_ifs at hnamed with hzero
  · exact absurd (Option.some.inj hnamed).symm hne
  · have hlt := h.typeUid
    rw [Nat.mod_eq_of_lt (by omega)] at hnamed
    exact (IidManager.getName_lookup hnamed).1

theorem Registered.item_eq (h : Registered types record) (hsize : size < 2 ^ 32)
    (hroom : c + (itemBytes types record).length ≤ size - 4)
    (hslice : slice memory c (itemBytes types record).length = itemBytes types record) :
    (Reading.before size c).item types memory size =
      some ((readBack types record).1, (readBack types record).2,
        Reading.before size (c + (itemBytes types record).length)) := by
  obtain ⟨hitem, hchunk, hstart, hend, huid⟩ := h.ranged
  rw [length_itemBytes] at hroom ⊢
  generalize hname : nameOf types record = name at *
  have hbytes : itemBytes types record = rawBytes 4 name.length ++ (name ++
      (rawBytes 1 (record.1.typeUid % 2) ++ (rawBytes 4 record.1.size ++
        (rawBytes 2 record.1.chunkUid ++ (rawBytes 4 record.2.fragmentStart ++
          (rawBytes 4 record.2.fragmentEnd ++ (rawBytes 8 record.2.packetUid ++ []))))))) := by
    rw [itemBytes, hname]
    rfl
  rw [hbytes] at hslice
  obtain ⟨h1, hslice⟩ := slice_append hslice
  obtain ⟨h2, hslice⟩ := slice_append hslice
  obtain ⟨h3, hslice⟩ := slice_append hslice
  obtain ⟨h4, hslice⟩ := slice_append hslice
  obtain ⟨h5, hslice⟩ := slice_append hslice
  obtain ⟨h6, hslice⟩ := slice_append hslice
  obtain ⟨h7, hslice⟩ := slice_append hslice
  obtain ⟨h8, -⟩ := slice_append hslice
  simp only [length_rawBytes] at h1 h2 h3 h4 h5 h6 h7 h8
  have r1 := Reading.take_eq hsize (by omega) (by omega) h1
  have r2 := Reading.string_eq hsize (by omega) h2
  have r3 := Reading.take_eq hsize (by omega) (by omega) h3
  have r4 := Reading.take_eq hsize (by omega) (by omega) h4
  have r5 := Reading.take_eq hsize (by omega) (by omega) h5
  have r6 := Reading.take_eq hsize (by omega) (by omega) h6
  have r7 := Reading.take_eq hsize (by omega) (by omega) h7
  have r8 := Reading.take_eq hsize (by omega) (by omega) h8
  have hend : c + 4 + name.length + 1 + 4 + 2 + 4 + 4 + 8 = c + (4 + name.length + 23) := by omega
  rw [hend] at r8
  simp only [Reading.item, r1, Option.bind_eq_bind, Option.bind_some]
  by_cases hnil : name = []
  · rw [hnil, List.length_nil, Nat.add_zero] at r3 r4 r5 r6 r7 r8
    rw [hnil, List.length_nil, if_pos rfl]
    simp only [r3, r4, r5, r6, r7, r8, Option.bind_some, readBack, hname, hnil, if_true]
  · have hlookup := h.lookup (by rwa [hname])
    rw [hname] at hlookup
    have hlength : name.length ≠ 0 := fun hzero => hnil (List.eq_nil_of_length_eq_zero hzero)
    simp only [if_neg hlength, r2, r3, r4, r5, r6, r7, r8, hlookup, Option.bind_some, readBack,
      hname, if_neg hnil]

theorem length_itemsBytes_cons (types : IidManager) (record : SmallItem × ExtraItem)
    (records : List (SmallItem × ExtraItem)) : (itemsBytes types (record :: records)).length =
      4 + (nameOf types record).length + 23 + (itemsBytes types records).length := by
  rw [itemsBytes, List.flatMap_cons, List.length_append, length_itemBytes]
  rfl

theorem length_le_itemsBytes (types : IidManager) (records : List (SmallItem × ExtraItem)) :
    records.length ≤ (itemsBytes types records).length := by
  induction records with
  | nil => exact Nat.zero_le _
  | cons record records ih =>
    rw [length_itemsBytes_cons, List.length_cons]
    omega

/-- The records of the form are appended one after the other. -/
theorem deserializeItems_eq (h : ∀ record ∈ records, Registered types record) (hsize : size < 2 ^ 32)
    (hroom : c + (itemsBytes types records).length = size - 4)
    (hslice : slice memory c (itemsBytes types records).length = itemsBytes types records)
    {fuel : ℕ} (hfuel : records.length < fuel) (m : PacketMetadata) (pool : MetadataPool) :
    deserializeItems types memory size fuel m pool (Reading.before size c) =
      (records.map (readBack types)).foldlM appendRecord (m, pool) := by
  induction records generalizing c fuel m pool with
  | nil =>
    obtain ⟨fuel, rfl⟩ := Nat.exists_eq_succ_of_ne_zero (Nat.ne_of_gt hfuel)
    have hnone : ¬0 < (Reading.before size c).desSize := by
      have hzero : (itemsBytes types []).length = 0 := rfl
      rw [Reading.before]
      dsimp only
      omega
    rw [deserializeItems, if_neg hnone]
    rfl
  | cons record records ih =>
    obtain ⟨fuel, rfl⟩ := Nat.exists_eq_succ_of_ne_zero (Nat.ne_of_gt (Nat.zero_lt_of_lt hfuel))
    have hmore : 0 < (Reading.before size c).desSize := by
      rw [length_itemsBytes_cons] at hroom
      rw [Reading.before]
      dsimp only
      omega
    have hbytes : itemsBytes types (record :: records) =
        itemBytes types record ++ itemsBytes types records := List.flatMap_cons
    rw [hbytes] at hslice
    rw [hbytes, List.length_append] at hroom
    obtain ⟨hhead, htail⟩ := slice_append hslice
    have hitem := (h record List.mem_cons_self).item_eq hsize (by omega) hhead
    have hrest (m : PacketMetadata) (pool : MetadataPool) :=
      ih (fun r hr => h r (List.mem_cons_of_mem _ hr)) (by omega) htail
        (Nat.lt_of_succ_lt_succ hfuel) m pool
    rw [deserializeItems, if_pos hmore, hitem, List.map_cons, List.foldlM_cons]
    simp only [Option.bind_eq_bind, Option.bind_some, appendRecord, Option.bind_assoc, hrest]

/-- The form is read back into a block, from any address where the word before it was counted. -/
theorem deserialize_eq (h : ∀ record ∈ records, Registered types record) {m m₀ : PacketMetadata}
    (huid : m.packetUid < 2 ^ 64) (hlt : (bytes types m records).length + 4 < 2 ^ 32)
    (hslice : slice memory 0 (bytes types m records).length = bytes types m records)
    (pool : MetadataPool) :
    m₀.deserialize types pool memory ((bytes types m records).length + 4) =
      ((records.map (readBack types)).foldlM appendRecord
        ({ m₀ with packetUid := m.packetUid }, pool)).map fun s => (1, s.1, s.2) := by
  rw [bytes] at hslice hlt ⊢
  obtain ⟨hhead, htail⟩ := slice_append hslice
  rw [List.length_append, length_rawBytes] at hlt ⊢
  rw [length_rawBytes] at hhead htail
  have hsub : uint32Sub (8 + (itemsBytes types records).length + 4) 4 =
      8 + (itemsBytes types records).length + 4 - 4 - 0 := by
    rw [uint32Sub_of_le (by omega) hlt]
    rfl
  have htake := Reading.take_eq (c := 0) hlt (by omega) huid hhead
  have hlength := length_le_itemsBytes types records
  have hfuel : records.length < 8 + (itemsBytes types records).length + 4 + 1 := by omega
  have hitems := deserializeItems_eq h hlt (by omega) htail hfuel
    { m₀ with packetUid := m.packetUid } pool
  rw [deserialize, hsub, ← Reading.before, htake]
  simp only [Option.bind_eq_bind, Option.bind_some, hitems]
  generalize (records.map (readBack types)).foldlM appendRecord
    ({ m₀ with packetUid := m.packetUid }, pool) = result
  cases result with
  | none => rfl
  | some s => rfl

end Reading

/-! ## Round trip -/

/-- An item of a packet: its type, its size and number, and the part of it that there is. -/
structure MetadataItem where
  uid : ℕ
  size : ℕ
  chunkUid : ℕ
  fragmentStart : ℕ
  fragmentEnd : ℕ
  packetUid : ℕ
  deriving DecidableEq, Repr

def itemOf (record : SmallItem × ExtraItem) : MetadataItem :=
  ⟨record.1.typeUid / 2, record.1.size, record.1.chunkUid, record.2.fragmentStart,
    record.2.fragmentEnd, record.2.packetUid⟩

def items (m : PacketMetadata) : Option (List MetadataItem) := m.records.map (List.map itemOf)

/-- A record that comes back: its type has a name, and the upper half of its packet uid is the sign of
the lower one. -/
structure Returns (types : IidManager) (record : SmallItem × ExtraItem) : Prop where
  named : record.1.typeUid / 2 = 0 ∨ nameOf types record ≠ []
  packetUid : signExtend (record.2.packetUid % 2 ^ 32) = record.2.packetUid

instance (types : IidManager) (record : SmallItem × ExtraItem) :
    Decidable (Returns types record) :=
  decidable_of_iff (_ ∧ _) ⟨fun h => ⟨h.1, h.2⟩, fun h => ⟨h.named, h.packetUid⟩⟩

section RoundTrip
variable {types : IidManager} {pool : MetadataPool} {m m₀ : PacketMetadata}
  {records : List (SmallItem × ExtraItem)} {record : SmallItem × ExtraItem}

/-- The item that is read back for a record. -/
def returned (types : IidManager) (record : SmallItem × ExtraItem) : MetadataItem :=
  { itemOf record with
    uid := if nameOf types record = [] then 0 else record.1.typeUid / 2
    packetUid := signExtend (record.2.packetUid % 2 ^ 32) }

theorem readBack_typeUid (types : IidManager) (record : SmallItem × ExtraItem) :
    (readBack types record).1.typeUid =
      2 * (if nameOf types record = [] then 0 else record.1.typeUid / 2) +
        record.1.typeUid % 2 := by
  have hor (uid : ℕ) : uid * 2 ||| record.1.typeUid % 2 = 2 * uid + record.1.typeUid % 2 := by
    have hsum := Nat.two_pow_add_eq_or_of_lt (i := 1) (Nat.mod_lt record.1.typeUid (by decide)) uid
    rw [Nat.mul_comm uid]
    exact hsum.symm
  exact hor _

theorem returned_eq_iff (types : IidManager) (record : SmallItem × ExtraItem) :
    returned types record = itemOf record ↔ Returns types record := by
  have huid : (if nameOf types record = [] then 0 else record.1.typeUid / 2) =
      record.1.typeUid / 2 ↔ record.1.typeUid / 2 = 0 ∨ nameOf types record ≠ [] := by
    split_ifs with hnil
    · exact ⟨fun h => .inl h.symm, fun h => (h.resolve_right (not_not_intro hnil)).symm⟩
    · exact ⟨fun _ => .inr hnil, fun _ => rfl⟩
  constructor
  · intro h
    obtain ⟨h1, -, -, -, -, h2⟩ := MetadataItem.mk.inj h
    exact ⟨huid.mp h1, h2⟩
  · rintro ⟨h1, h2⟩
    rw [returned, huid.mpr h1, h2]
    rfl

theorem itemOf_readNode (types : IidManager) (record : SmallItem × ExtraItem) (m : PacketMetadata)
    (o : ℕ) : itemOf (m.readNode (o, MetadataRecord.big (readBack types record).1
      (readBack types record).2)) = returned types record := by
  have htype := readBack_typeUid types record
  have huid : (if (readBack types record).1.typeUid % 2 = 1 then (readBack types record).1.typeUid
      else (readBack types record).1.typeUid + 1) / 2 =
      if nameOf types record = [] then 0 else record.1.typeUid / 2 := by
    rw [htype]
    split_ifs <;> omega
  rw [returned, ← huid]
  rfl

theorem map_itemOf {m : PacketMetadata} {nodes : List Node}
    (hmap : nodes.map Prod.snd = (records.map (readBack types)).map
      fun record => MetadataRecord.big record.1 record.2) :
    (nodes.map m.readNode).map itemOf = records.map (returned types) := by
  have hnodes : (nodes.map m.readNode).map itemOf =
      (nodes.map Prod.snd).map fun r => itemOf (m.readNode (0, r)) := by
    rw [List.map_map, List.map_map]
    rfl
  rw [hnodes, hmap, List.map_map, List.map_map]
  exact List.map_congr_left fun record _ => itemOf_readNode types record m 0

theorem Registered.fits_readBack (h : Registered types record) :
    (MetadataRecord.big (readBack types record).1 (readBack types record).2).Fits := by
  have htype := readBack_typeUid types record
  have hlt := h.typeUid
  refine fits_big ⟨h.ranged.size, h.ranged.chunkUid, h.ranged.fragmentStart, h.ranged.fragmentEnd,
    h.ranged.packetUid⟩ ?_
  rw [htype]
  split_ifs <;> omega

theorem Returns.big_eq (h : Returns types record) :
    MetadataRecord.big (readBack types record).1 (readBack types record).2 =
      MetadataRecord.big record.1 record.2 := by
  have htype := readBack_typeUid types record
  have hsame : (readBack types record).1.typeUid = record.1.typeUid := by
    rw [htype]
    obtain hzero | hne := h.named
    · split_ifs <;> omega
    · rw [if_neg hne]
      omega
  rw [MetadataRecord.big, hsame]
  rfl

/-- The registered types and the fields of the records of a packet. -/
theorem Holds.registered (h : m.Holds types pool.enable records) :
    ∀ record ∈ records, Registered types record := by
  have hranged {fuel current : ℕ} {l : List (SmallItem × ExtraItem)}
      (hwalk : m.walk fuel current = some l) : ∀ record ∈ l, Ranged record.1 record.2 := by
    induction fuel generalizing current l with
    | zero => cases hwalk
    | succ fuel ih =>
      rw [walk] at hwalk
      split_ifs at hwalk
      · obtain rfl := Option.some.inj hwalk
        exact fun record hmem => (List.not_mem_nil hmem).elim
      · simp only [Option.bind_eq_bind, Option.bind_eq_some_iff, Prod.exists,
          Option.some.injEq] at hwalk
        obtain ⟨n, item, extraItem, hread, rfl⟩ := hwalk
        intro record hmem
        obtain rfl := List.mem_singleton.mp hmem
        exact (readItems_bounds h.packetUid hread).2.2
      · simp only [Option.bind_eq_bind, Option.bind_eq_some_iff, Prod.exists,
          Option.some.injEq] at hwalk
        obtain ⟨n, item, extraItem, hread, u, hguard, rest, hrest, rfl⟩ := hwalk
        intro record hmem
        obtain rfl | hmem := List.mem_cons.mp hmem
        · exact (readItems_bounds h.packetUid hread).2.2
        · exact ih hrest record hmem
  exact fun record hmem => ⟨hranged h.walked record hmem, h.named record hmem, h.typeUid record hmem⟩

/-- `Deserialize` of what `Serialize` has written, for a new packet. -/
def Restores (types : IidManager) (pool : MetadataPool) (m : PacketMetadata)
    (memory : ℕ → UInt8) (size : ℕ) : Prop :=
  ∃ m' pool', (construct pool 0).1.deserialize types (construct pool 0).2 memory size =
    some (1, m', pool') ∧ m'.packetUid = m.packetUid ∧ m'.items = m.items

/-- The items come back exactly if each of them does and the records fit into the block again. -/
theorem Holds.restores_iff_fits (h : m.Holds types pool.enable records) (hpool : pool.Sound)
    (hlt : (bytes types m records).length + 4 < 2 ^ 32) {memory : ℕ → UInt8}
    (hslice : slice memory 0 (bytes types m records).length = bytes types m records) :
    Restores types pool m memory ((bytes types m records).length + 4) ↔
      (∀ record ∈ records, Returns types record) ∧ bigSizes records < 2 ^ 16 := by
  have hregistered := h.registered
  obtain ⟨hlinked, hsound, hused, -⟩ := linked_construct hpool 0
  have hread := @deserialize_eq types memory records hregistered m (construct pool 0).1 h.packetUid
    hlt hslice (construct pool 0).2
  rw [Restores, hread]
  have hlinked' : Linked { (construct pool 0).1 with packetUid := m.packetUid } [] :=
    ⟨fun a ha => (List.not_mem_nil ha).elim, hlinked.apart, hlinked.links, hlinked.head,
      hlinked.tail, hlinked.room, hlinked.size_lt, hlinked.count⟩
  have hfits : ∀ record ∈ records.map (readBack types), (MetadataRecord.big record.1 record.2).Fits := by
    intro back hback
    obtain ⟨record, hmem, rfl⟩ := List.mem_map.mp hback
    exact (hregistered record hmem).fits_readBack
  have hitems : m.items = some (records.map itemOf) := by
    rw [items, h.walked, Option.map_some]
  have hsizes (hall : ∀ record ∈ records, Returns types record) :
      bigSizes (records.map (readBack types)) = bigSizes records := by
    rw [bigSizes, bigSizes, List.map_map]
    exact congrArg List.sum (List.map_congr_left fun record hmem =>
      congrArg MetadataRecord.n (hall record hmem).big_eq)
  constructor
  · rintro ⟨m', pool', hsome, huid', hitems'⟩
    obtain ⟨⟨m₁, pool₁⟩, hall, heq⟩ := Option.map_eq_some_iff.mp hsome
    obtain ⟨-, heq⟩ := Prod.mk.inj heq
    obtain ⟨rfl, rfl⟩ := Prod.mk.inj heq
    have hlength : ∀ l, m₁.records = some l → l.length = records.length := by
      intro l hl
      rw [items, hl, hitems, Option.map_some, Option.some.injEq] at hitems'
      have hmap := congrArg List.length hitems'
      rwa [List.length_map, List.length_map] at hmap
    by_cases hroom : 0 + bigSizes (records.map (readBack types)) < 2 ^ 16
    · obtain ⟨m₂, pool₂, nodes, hall', hnodes, hmap, -⟩ :=
        hlinked'.appendAll hsound hfits (hused.symm ▸ hroom)
      obtain ⟨rfl, -⟩ := Prod.mk.inj (Option.some.inj (hall'.symm.trans hall))
      rw [items, hnodes.records_eq, hitems, Option.map_some, Option.some.injEq,
        map_itemOf hmap] at hitems'
      have hall : ∀ record ∈ records, Returns types record := fun record hmem =>
        (returned_eq_iff types record).mp (List.map_inj_left.mp hitems' record hmem)
      rw [Nat.zero_add, hsizes hall] at hroom
      exact ⟨hall, hroom⟩
    · -- the block looks too small for so many records
      obtain ⟨hsmall, huid⟩ := hlinked'.appendAll_overflown hsound hfits
        (hused.symm ▸ Nat.not_lt.mp hroom) hall
      exfalso
      cases hrecords : m₁.records with
      | none =>
        rw [items, hrecords, hitems] at hitems'
        cases hitems'
      | some l =>
        have hle := records_length_le (huid.symm ▸ h.packetUid) hrecords
        have hsum := bigSizes_le (records.map (readBack types))
        rw [hlength l hrecords] at hle
        rw [List.length_map] at hsum
        omega
  · rintro ⟨hall, hroom⟩
    obtain ⟨m₂, pool₂, nodes, hall', hnodes, hmap, huid⟩ := hlinked'.appendAll hsound hfits
      (by rw [hused, hsizes hall, Nat.zero_add]; exact hroom)
    refine ⟨m₂, pool₂, by rw [hall']; rfl, huid, ?_⟩
    rw [items, hnodes.records_eq, hitems, Option.map_some, map_itemOf hmap]
    exact congrArg some (List.map_congr_left fun record hmem =>
      (returned_eq_iff types record).mpr (hall record hmem))

end RoundTrip

end PacketMetadata

end Ns3Noc
