import Mathlib
import Ns3Noc.ByteSlices

/-!
# MetadataRecords

The records in the block of a packet's metadata: the offsets of their neighbours in two bytes each,
the type, the size and the fragment in groups of seven bits, and the packet uid in four bytes.
-/
namespace Ns3Noc
open ByteSlices

/-- `struct PacketMetadata::Data` -/
structure MetadataData where
  count : ℕ
  size : ℕ
  dirtyEnd : ℕ
  data : ℕ → UInt8

structure SmallItem where
  next : ℕ
  prev : ℕ
  typeUid : ℕ
  size : ℕ
  chunkUid : ℕ
  deriving DecidableEq, Repr

structure ExtraItem where
  fragmentStart : ℕ
  fragmentEnd : ℕ
  packetUid : ℕ
  deriving DecidableEq, Repr

namespace PacketMetadata

/-! ## Numbers -/

def getUleb128Size (value : ℕ) : ℕ :=
  if value < 0x80 then 1
  else if value < 0x4000 then 2
  else if value < 0x200000 then 3
  else if value < 0x10000000 then 4
  else 5

/-- `0x80 | (value & (~0x80))` as a byte. -/
def more (value : ℕ) : UInt8 := UInt8.ofNat (0x80 + value % 0x80)

def appendValueExtra (value : ℕ) : List UInt8 :=
  if value < 0x200000 then
    [more value, more (value / 2 ^ 7), UInt8.ofNat (value / 2 ^ 14)]
  else if value < 0x10000000 then
    [more value, more (value / 2 ^ 7), more (value / 2 ^ 14), UInt8.ofNat (value / 2 ^ 21)]
  else
    [more value, more (value / 2 ^ 7), more (value / 2 ^ 14), more (value / 2 ^ 21),
      UInt8.ofNat (value / 2 ^ 28)]

def appendValue (value : ℕ) : List UInt8 :=
  if value < 0x80 then [UInt8.ofNat value]
  else if value < 0x4000 then [more value, UInt8.ofNat (value / 2 ^ 7)]
  else appendValueExtra value

/-- The bits of the groups are disjoint, so that `|=` adds them. `none` is the failed assertion. -/
def readUleb128 (data : ℕ → UInt8) (p : ℕ) : Option (ℕ × ℕ) :=
  let byte (k : ℕ) : ℕ := (data (p + k)).toNat
  let result := byte 0 % 0x80
  if byte 0 < 0x80 then some (result, p + 1) else
  let result := result + byte 1 % 0x80 * 2 ^ 7
  if byte 1 < 0x80 then some (result, p + 2) else
  let result := result + byte 2 % 0x80 * 2 ^ 14
  if byte 2 < 0x80 then some (result, p + 3) else
  let result := result + byte 3 % 0x80 * 2 ^ 21
  if byte 3 < 0x80 then some (result, p + 4) else
  let result := result + byte 4 % 0x80 * 2 ^ 28 % 2 ^ 32
  if byte 4 < 0x80 then some (result, p + 5) else none

def append16 (value : ℕ) : List UInt8 := [UInt8.ofNat value, UInt8.ofNat (value / 2 ^ 8)]

def append32 (value : ℕ) : List UInt8 :=
  [UInt8.ofNat value, UInt8.ofNat (value / 2 ^ 8), UInt8.ofNat (value / 2 ^ 16),
    UInt8.ofNat (value / 2 ^ 24)]

def read16 (data : ℕ → UInt8) (p : ℕ) : ℕ := (data p).toNat + (data (p + 1)).toNat * 2 ^ 8

/-- `buffer[3] << 24` is an `int`, and its sign goes into the upper half of the `uint64_t`. -/
def signExtend (value : ℕ) : ℕ := if value < 2 ^ 31 then value else value + (2 ^ 64 - 2 ^ 32)

def read32 (data : ℕ → UInt8) (p : ℕ) : ℕ :=
  signExtend ((data p).toNat + (data (p + 1)).toNat * 2 ^ 8 + (data (p + 2)).toNat * 2 ^ 16 +
    (data (p + 3)).toNat * 2 ^ 24)

section Numbers
variable {data : ℕ → UInt8} {p v : ℕ} {a b : List UInt8}

theorem length_appendValue (v : ℕ) : (appendValue v).length = getUleb128Size v := by
  unfold appendValue appendValueExtra getUleb128Size
  split_ifs <;> rfl

theorem getUleb128Size_pos (v : ℕ) : 0 < getUleb128Size v := by
  unfold getUleb128Size
  split_ifs <;> decide

theorem getUleb128Size_le (v : ℕ) : getUleb128Size v ≤ 5 := by
  unfold getUleb128Size
  split_ifs <;> decide

theorem toNat_more (v : ℕ) : (more v).toNat = 0x80 + v % 0x80 := by
  rw [more, UInt8.toNat_ofNat']
  omega

theorem slice_append (h : slice data p (a ++ b).length = a ++ b) :
    slice data p a.length = a ∧ slice data (p + a.length) b.length = b := by
  rw [List.length_append, slice_add] at h
  exact List.append_inj h (length_slice _ _ _)

/-- The first byte of what is in the memory. -/
theorem slice_cons {x : UInt8} (h : slice data p (x :: a).length = x :: a) :
    data p = x ∧ slice data (p + 1) a.length = a := by
  obtain ⟨h1, h2⟩ := slice_append (a := [x]) h
  exact ⟨List.head_eq_of_cons_eq h1, h2⟩

/-- The bytes of a number are read back. -/
theorem readUleb128_of_slice (hv : v < 2 ^ 32)
    (h : slice data p (appendValue v).length = appendValue v) :
    readUleb128 data p = some (v, p + getUleb128Size v) := by
  have hlast (x : ℕ) (hx : x < 0x80) : (UInt8.ofNat x).toNat = x := by
    rw [UInt8.toNat_ofNat']
    omega
  have hmore (x : ℕ) : ¬0x80 + x % 0x80 < 0x80 := by omega
  have hlow (x : ℕ) : (0x80 + x % 0x80) % 0x80 = x % 0x80 := by omega
  unfold getUleb128Size
  unfold appendValue appendValueExtra at h
  split_ifs at h ⊢ with h1 h2 h3 h4
  · obtain ⟨b0, -⟩ := slice_cons h
    simp only [readUleb128, Nat.add_zero, b0, hlast v h1, if_pos h1]
    rw [Nat.mod_eq_of_lt h1]
  · obtain ⟨b0, h⟩ := slice_cons h
    obtain ⟨b1, -⟩ := slice_cons h
    have hv1 : v / 2 ^ 7 < 0x80 := by omega
    simp only [readUleb128, Nat.add_zero, b0, b1, toNat_more, hlast _ hv1, if_neg (hmore _),
      if_pos hv1, hlow]
    have hsum : v % 0x80 + v / 2 ^ 7 % 0x80 * 2 ^ 7 = v := by omega
    rw [hsum]
  · obtain ⟨b0, h⟩ := slice_cons h
    obtain ⟨b1, h⟩ := slice_cons h
    obtain ⟨b2, -⟩ := slice_cons h
    have hv2 : v / 2 ^ 14 < 0x80 := by omega
    simp only [readUleb128, Nat.add_zero, b0, b1, b2, Nat.add_assoc, toNat_more,
      hlast _ hv2, if_neg (hmore _), if_pos hv2, hlow]
    have hsum : v % 0x80 + (v / 2 ^ 7 % 0x80 * 2 ^ 7 + v / 2 ^ 14 % 0x80 * 2 ^ 14) = v := by omega
    rw [hsum]
  · obtain ⟨b0, h⟩ := slice_cons h
    obtain ⟨b1, h⟩ := slice_cons h
    obtain ⟨b2, h⟩ := slice_cons h
    obtain ⟨b3, -⟩ := slice_cons h
    have hv3 : v / 2 ^ 21 < 0x80 := by omega
    simp only [readUleb128, Nat.add_zero, b0, b1, b2, b3, Nat.add_assoc, toNat_more,
      hlast _ hv3, if_neg (hmore _), if_pos hv3, hlow]
    have hsum : v % 0x80 + (v / 2 ^ 7 % 0x80 * 2 ^ 7 + (v / 2 ^ 14 % 0x80 * 2 ^ 14 +
        v / 2 ^ 21 % 0x80 * 2 ^ 21)) = v := by omega
    rw [hsum]
  · obtain ⟨b0, h⟩ := slice_cons h
    obtain ⟨b1, h⟩ := slice_cons h
    obtain ⟨b2, h⟩ := slice_cons h
    obtain ⟨b3, h⟩ := slice_cons h
    obtain ⟨b4, -⟩ := slice_cons h
    have hv4 : v / 2 ^ 28 < 0x80 := by omega
    simp only [readUleb128, Nat.add_zero, b0, b1, b2, b3, b4, Nat.add_assoc, toNat_more,
      hlast _ hv4, if_neg (hmore _), if_pos hv4, hlow]
    have hsum : v % 0x80 + (v / 2 ^ 7 % 0x80 * 2 ^ 7 + (v / 2 ^ 14 % 0x80 * 2 ^ 14 +
        (v / 2 ^ 21 % 0x80 * 2 ^ 21 + v / 2 ^ 28 % 0x80 * 2 ^ 28 % 2 ^ 32))) = v := by omega
    rw [hsum]

theorem readUleb128_lt {v p' : ℕ} (h : readUleb128 data p = some (v, p')) :
    v < 2 ^ 32 ∧ p < p' := by
  simp only [readUleb128] at h
  split_ifs at h
  all_goals
    obtain ⟨rfl, rfl⟩ := Prod.mk.inj (Option.some.inj h)
    omega

theorem read16_lt (data : ℕ → UInt8) (p : ℕ) : read16 data p < 2 ^ 16 := by
  have h0 := (data p).toNat_lt
  have h1 := (data (p + 1)).toNat_lt
  rw [read16]
  omega

theorem read16_of_slice (hv : v < 2 ^ 16) (h : slice data p (append16 v).length = append16 v) :
    read16 data p = v := by
  rw [append16] at h
  obtain ⟨b0, h⟩ := slice_cons h
  obtain ⟨b1, -⟩ := slice_cons h
  rw [read16, b0, b1, UInt8.toNat_ofNat', UInt8.toNat_ofNat']
  omega

theorem read32_of_slice (h : slice data p (append32 v).length = append32 v) :
    read32 data p = signExtend (v % 2 ^ 32) := by
  rw [append32] at h
  obtain ⟨b0, h⟩ := slice_cons h
  obtain ⟨b1, h⟩ := slice_cons h
  obtain ⟨b2, h⟩ := slice_cons h
  obtain ⟨b3, -⟩ := slice_cons h
  simp only [Nat.add_assoc, Nat.reduceAdd] at b2 b3
  rw [read32, b0, b1, b2, b3]
  simp only [UInt8.toNat_ofNat']
  congr 1
  omega

theorem signExtend_lt (h : v < 2 ^ 32) : signExtend v < 2 ^ 64 := by
  unfold signExtend
  split_ifs <;> omega

theorem read32_lt (data : ℕ → UInt8) (p : ℕ) : read32 data p < 2 ^ 64 := by
  have h0 := (data p).toNat_lt
  have h1 := (data (p + 1)).toNat_lt
  have h2 := (data (p + 2)).toNat_lt
  have h3 := (data (p + 3)).toNat_lt
  exact signExtend_lt (by omega)

end Numbers

/-! ## Records -/

/-- `ReadItems`, with the number of bytes that it has read. `none` is a failed assertion. -/
def readItems (d : MetadataData) (packetUid current : ℕ) : Option (ℕ × SmallItem × ExtraItem) := do
  let next := read16 d.data current
  let prev := read16 d.data (current + 2)
  let (typeUid, buffer) ← readUleb128 d.data (current + 4)
  let (size, buffer) ← readUleb128 d.data buffer
  let item : SmallItem := ⟨next, prev, typeUid, size, read16 d.data buffer⟩
  let buffer := buffer + 2
  if typeUid % 2 = 1 then do
    let (fragmentStart, buffer) ← readUleb128 d.data buffer
    let (fragmentEnd, buffer) ← readUleb128 d.data buffer
    let extraItem : ExtraItem := ⟨fragmentStart, fragmentEnd, read32 d.data buffer⟩
    let buffer := buffer + 4
    guard (buffer ≤ d.size)
    some (buffer - current, item, extraItem)
  else do
    guard (buffer ≤ d.size)
    some (buffer - current, item, ⟨0, size, packetUid⟩)

/-- What `AddSmall` and `AddBig` write, apart from the offsets. -/
structure MetadataRecord where
  typeUid : ℕ
  size : ℕ
  chunkUid : ℕ
  extra : Option ExtraItem
  deriving DecidableEq, Repr

namespace MetadataRecord

def small (item : SmallItem) : MetadataRecord := ⟨item.typeUid, item.size, item.chunkUid, none⟩

def big (item : SmallItem) (extraItem : ExtraItem) : MetadataRecord :=
  ⟨if item.typeUid % 2 = 1 then item.typeUid else item.typeUid + 1, item.size, item.chunkUid,
    some extraItem⟩

def extraSize (r : MetadataRecord) : ℕ :=
  match r.extra with
  | none => 0
  | some e => getUleb128Size e.fragmentStart + getUleb128Size e.fragmentEnd + 4

/-- The bytes that a record takes. -/
def n (r : MetadataRecord) : ℕ :=
  2 + 2 + getUleb128Size r.typeUid + getUleb128Size r.size + 2 + r.extraSize

def extraBytes (r : MetadataRecord) : List UInt8 :=
  match r.extra with
  | none => []
  | some e => appendValue e.fragmentStart ++ (appendValue e.fragmentEnd ++ append32 e.packetUid)

/-- What is written behind the two offsets. -/
def body (r : MetadataRecord) : List UInt8 :=
  appendValue r.typeUid ++ (appendValue r.size ++ (append16 r.chunkUid ++ r.extraBytes))

/-- What is written, field after field. -/
def bytes (next prev : ℕ) (r : MetadataRecord) : List UInt8 :=
  append16 next ++ (append16 prev ++ r.body)

/-- The numbers fit into their types, and the lowest bit of the type tells big records. -/
structure Fits (r : MetadataRecord) : Prop where
  typeUid : r.typeUid < 2 ^ 32
  odd : r.typeUid % 2 = if r.extra.isSome then 1 else 0
  size : r.size < 2 ^ 32
  chunkUid : r.chunkUid < 2 ^ 16
  extra : ∀ e ∈ r.extra, e.fragmentStart < 2 ^ 32 ∧ e.fragmentEnd < 2 ^ 32

/-- What is read back of a record in a packet of this uid. -/
def extraItem (packetUid : ℕ) (r : MetadataRecord) : ExtraItem :=
  match r.extra with
  | none => ⟨0, r.size, packetUid⟩
  | some e => ⟨e.fragmentStart, e.fragmentEnd, signExtend (e.packetUid % 2 ^ 32)⟩

section Bytes
variable (r : MetadataRecord) {d : MetadataData} {packetUid current : ℕ}

theorem n_bounds : 8 ≤ r.n ∧ r.n ≤ 30 := by
  have h1 := getUleb128Size_pos r.typeUid
  have h2 := getUleb128Size_pos r.size
  have h3 := getUleb128Size_le r.typeUid
  have h4 := getUleb128Size_le r.size
  rw [n, extraSize]
  split
  · omega
  · next e he =>
    have h5 := getUleb128Size_le e.fragmentStart
    have h6 := getUleb128Size_le e.fragmentEnd
    omega

theorem length_body : 4 + r.body.length = r.n := by
  have hextra : r.extraBytes.length = r.extraSize := by
    rw [extraBytes, extraSize]
    split
    · rfl
    · simp only [List.length_append, length_appendValue, append32, List.length_cons,
        List.length_nil, Nat.add_assoc, Nat.reduceAdd]
  simp only [body, n, List.length_append, length_appendValue, append16, List.length_cons,
    List.length_nil, hextra]
  omega

theorem length_bytes (next prev : ℕ) : (bytes next prev r).length = r.n := by
  rw [bytes, List.length_append, List.length_append, ← length_body]
  simp only [append16, List.length_cons, List.length_nil]
  omega

variable {r}

/-- A record is read back, with the offsets that are there now and, if it is big, with the lower
half of its packet uid. -/
theorem Fits.readItems_eq (h : r.Fits)
    (hbody : slice d.data (current + 4) r.body.length = r.body)
    (hroom : current + r.n ≤ d.size) :
    readItems d packetUid current = some (r.n,
      ⟨read16 d.data current, read16 d.data (current + 2), r.typeUid, r.size, r.chunkUid⟩,
      r.extraItem packetUid) := by
  obtain ⟨htype, hodd, hsize, hchunk, hextra⟩ := h
  have hlength : (append16 r.chunkUid).length = 2 := rfl
  obtain ⟨h1, hbody⟩ := slice_append hbody
  obtain ⟨h2, hbody⟩ := slice_append hbody
  obtain ⟨h3, hbody⟩ := slice_append hbody
  have r1 := readUleb128_of_slice htype h1
  have r2 := readUleb128_of_slice hsize h2
  have r3 := read16_of_slice hchunk h3
  rw [length_appendValue] at r2 r3 hbody
  rw [length_appendValue] at r3 hbody
  rw [hlength] at hbody
  simp only [readItems, Option.bind_eq_bind, r1, r2, r3, Option.bind_some]
  rw [n, extraSize] at hroom ⊢
  rw [extraBytes] at hbody
  rw [extraItem]
  cases hcase : r.extra with
  | none =>
    rw [hcase] at hodd
    have hend : current + 4 + getUleb128Size r.typeUid + getUleb128Size r.size + 2 =
        current + (2 + 2 + getUleb128Size r.typeUid + getUleb128Size r.size + 2 + 0) := by omega
    simp only [hcase] at hroom
    rw [if_neg (by simpa using hodd), hend, Nat.add_sub_cancel_left, guard, if_pos hroom]
    rfl
  | some e =>
    rw [hcase] at hodd hextra
    simp only [hcase] at hroom hbody
    obtain ⟨hstart, hend⟩ := hextra e rfl
    obtain ⟨h4, hbody⟩ := slice_append hbody
    obtain ⟨h5, h6⟩ := slice_append hbody
    have r4 := readUleb128_of_slice hstart h4
    have r5 := readUleb128_of_slice hend h5
    have r6 := read32_of_slice h6
    rw [length_appendValue] at r5 r6
    rw [length_appendValue] at r6
    have hend : current + 4 + getUleb128Size r.typeUid + getUleb128Size r.size + 2 +
        getUleb128Size e.fragmentStart + getUleb128Size e.fragmentEnd + 4 =
        current + (2 + 2 + getUleb128Size r.typeUid + getUleb128Size r.size + 2 +
          (getUleb128Size e.fragmentStart + getUleb128Size e.fragmentEnd + 4)) := by omega
    simp only [if_pos (show r.typeUid % 2 = 1 from hodd), r4, r5, r6, Option.bind_some]
    rw [hend, Nat.add_sub_cancel_left, guard, if_pos hroom]
    rfl

end Bytes

end MetadataRecord

/-- The numbers fit into their types. -/
structure Ranged (item : SmallItem) (extraItem : ExtraItem) : Prop where
  size : item.size < 2 ^ 32
  chunkUid : item.chunkUid < 2 ^ 16
  fragmentStart : extraItem.fragmentStart < 2 ^ 32
  fragmentEnd : extraItem.fragmentEnd < 2 ^ 32
  packetUid : extraItem.packetUid < 2 ^ 64

section Reading
variable {d : MetadataData} {packetUid current n : ℕ} {item : SmallItem} {extraItem : ExtraItem}

theorem fits_big (h : Ranged item extraItem) (htype : item.typeUid < 2 ^ 32) :
    (MetadataRecord.big item extraItem).Fits := by
  refine ⟨?_, ?_, h.size, h.chunkUid, ?_⟩
  · simp only [MetadataRecord.big]
    split_ifs <;> omega
  · simp only [MetadataRecord.big, Option.isSome_some, if_true]
    split_ifs <;> omega
  · intro e he
    obtain rfl := Option.some.inj he
    exact ⟨h.fragmentStart, h.fragmentEnd⟩

/-- What is read fits into its types, and the record is inside of the block. -/
theorem readItems_bounds (huid : packetUid < 2 ^ 64)
    (h : readItems d packetUid current = some (n, item, extraItem)) :
    item.next = read16 d.data current ∧ current + 8 ≤ d.size ∧ Ranged item extraItem := by
  simp only [readItems, Option.bind_eq_bind, Option.bind_eq_some_iff, Prod.exists] at h
  obtain ⟨typeUid, p, htype, size, p', hsize, h⟩ := h
  obtain ⟨-, hp⟩ := readUleb128_lt htype
  obtain ⟨hsize, hp'⟩ := readUleb128_lt hsize
  split_ifs at h with hodd
  · simp only [Option.bind_eq_some_iff, Prod.exists] at h
    obtain ⟨fragmentStart, q, hstart, fragmentEnd, q', hend, u, hguard, heq⟩ := h
    obtain ⟨hstart, hq⟩ := readUleb128_lt hstart
    obtain ⟨hend, hq'⟩ := readUleb128_lt hend
    obtain ⟨-, rfl, rfl⟩ := Option.some.inj heq |>.symm |> Prod.mk.inj |>.imp_right Prod.mk.inj
    have hroom := (Option.guard_eq_some' _).mp hguard
    exact ⟨rfl, by omega, hsize, read16_lt _ _, hstart, hend, read32_lt _ _⟩
  · simp only [Option.bind_eq_some_iff] at h
    obtain ⟨u, hguard, heq⟩ := h
    obtain ⟨-, rfl, rfl⟩ := Option.some.inj heq |>.symm |> Prod.mk.inj |>.imp_right Prod.mk.inj
    have hroom := (Option.guard_eq_some' _).mp hguard
    exact ⟨rfl, by omega, hsize, read16_lt _ _, Nat.two_pow_pos 32, hsize, huid⟩

end Reading

end PacketMetadata

end Ns3Noc
