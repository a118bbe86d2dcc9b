import Mathlib
import Ns3Noc.MetadataSerialization
import Ns3Noc.NixVector

/-!
# PacketSerialization

A packet is serialized as its nix-vector, its metadata and its buffer. A word in front of each tells
how many bytes it takes together with this word. The tags of a packet are not serialized.
-/
namespace Ns3Noc.PacketSerialization
open ByteSlices PaddedSections Buffer PacketMetadata

structure Packet where
  buffer : Buffer
  metadata : PacketMetadata
  nixVector : Option NixVector

/-- The words of a nix-vector, in the order in which they are written. -/
def nixWords (v : NixVector) : List ℕ :=
  v.used :: v.currentVectorBitSize :: v.totalBitSize :: v.nixVector

/-- `NixVector::Serialize` to address 0 of a memory. -/
def serializeNix (v : NixVector) (memory : ℕ → UInt8) (maxSize : ℕ) : ℕ × (ℕ → UInt8) :=
  match putAll maxSize ⟨memory, 0, 0⟩ ((nixWords v).map word) with
  | .ok s => (1, s.memory)
  | .error memory => (0, memory)

/-- What is written through a pointer. -/
def through (memory : ℕ → UInt8) (p : ℕ) (written : ℕ → UInt8) : ℕ → UInt8 :=
  fun k => if p ≤ k then written (k - p) else memory k

/-- A part of a packet, with the word in front of it. The word and the padding are not counted. -/
def putPart (maxSize : ℕ) (s : Serializing) (n : ℕ)
    (write : (ℕ → UInt8) → Option (ℕ × (ℕ → UInt8))) :
    Option (Except (ℕ → UInt8) Serializing) :=
  if uint32 (s.size + n) ≤ maxSize then
    let memory := overwrite s.memory s.p (wordBytes (uint32 (n + 4)))
    let p := s.p + 4
    (write fun k => memory (p + k)).map fun (serialized, written) =>
      if serialized ≠ 0 then
        .ok ⟨through memory p written, p + padded n, uint32 (s.size + n)⟩
      else .error (through memory p written)
  else some (.error s.memory)

namespace Packet

def getSerializedSize (packet : Packet) (types : IidManager) (pool : MetadataPool) : Option ℕ := do
  let size := match packet.nixVector with
    | some v => uint32 (padded v.getSerializedSize + 4)
    | none => 4
  let metaSize ← packet.metadata.getSerializedSize types pool
  let size := uint32 (size + padded metaSize)
  let size := uint32 (size + 4)
  let size := uint32 (size + padded packet.buffer.getSerializedSize)
  some (uint32 (size + 4))

def putNix (packet : Packet) (maxSize : ℕ) (s : Serializing) :
    Option (Except (ℕ → UInt8) Serializing) :=
  match packet.nixVector with
  | some v => putPart maxSize s v.getSerializedSize fun memory =>
      some (serializeNix v memory v.getSerializedSize)
  | none =>
    if uint32 (s.size + 4) ≤ maxSize then
      some (.ok ⟨overwrite s.memory s.p (wordBytes 4), s.p + 4, uint32 (s.size + 4)⟩)
    else some (.error s.memory)

def putMetadata (packet : Packet) (types : IidManager) (pool : MetadataPool) (maxSize : ℕ)
    (s : Serializing) : Option (Except (ℕ → UInt8) Serializing) := do
  let metaSize ← packet.metadata.getSerializedSize types pool
  putPart maxSize s metaSize fun memory => packet.metadata.serialize types memory metaSize

def putBuffer (packet : Packet) (d : BufferData) (maxSize : ℕ) (s : Serializing) :
    Option (Except (ℕ → UInt8) Serializing) :=
  let bufSize := packet.buffer.getSerializedSize
  putPart maxSize s bufSize fun memory => some (packet.buffer.serialize d memory bufSize)

/-- The next part, unless `Serialize` has returned 0. -/
def next (r : Option (Except (ℕ → UInt8) Serializing))
    (f : Serializing → Option (Except (ℕ → UInt8) Serializing)) :
    Option (Except (ℕ → UInt8) Serializing) :=
  r.bind fun
    | .ok s => f s
    | .error memory => some (.error memory)

/-- `Serialize` to address 0 of a memory, with the value that it returns. `none` is a failed
assertion. -/
def serialize (packet : Packet) (types : IidManager) (pool : MetadataPool) (d : BufferData)
    (memory : ℕ → UInt8) (maxSize : ℕ) : Option (ℕ × (ℕ → UInt8)) :=
  (next (next (packet.putNix maxSize ⟨memory, 0, 0⟩) (packet.putMetadata types pool maxSize))
    (packet.putBuffer d maxSize)).map fun
      | .ok s => (1, s.memory)
      | .error memory => (0, memory)

end Packet

/-- The words from an address on. -/
def wordsAt (memory : ℕ → UInt8) (p n : ℕ) : List ℕ :=
  (List.range n).map fun k => readWord memory (p + 4 * k)

/-- The nix-vector, if there is one, and the address behind it. -/
def readNix (memory : ℕ → UInt8) (nixSize : ℕ) : Option (Option NixVector × ℕ) :=
  if 4 < nixSize then
    (NixVector.deserialize (wordsAt memory 4 ((nixSize - 4) / 4)) nixSize).map fun nix =>
      (some nix, 4 + padded (nixSize - 4))
  else some (none, 4)

/-- `Deserialize` from address 0 of a memory, for a new packet. `PacketMetadata::Deserialize` returns
1 or fails an assertion. -/
def deserialize (types : IidManager) (garbage : ℕ → ℕ → UInt8) (m : BufferMemory)
    (pool : MetadataPool) (memory : ℕ → UInt8) (size : ℕ) :
    Option (ℕ × Packet × BufferMemory × MetadataPool) := do
  let (metadata, pool) := PacketMetadata.construct pool 0
  let nixSize := readWord memory 0
  guard (nixSize ≤ size)
  let size := uint32Sub size nixSize
  let (nixVector, p) ← readNix memory nixSize
  let metaSize := readWord memory p
  guard (metaSize ≤ size)
  let size := uint32Sub size metaSize
  let (_, metadata, pool) ← metadata.deserialize types pool (fun k => memory (p + 4 + k)) metaSize
  let p := p + 4 + padded (uint32Sub metaSize 4)
  let bufSize := readWord memory p
  guard (bufSize ≤ size)
  let size := uint32Sub size bufSize
  let (bufferDeserialized, buffer, m) ←
    Buffer.deserialize garbage m (fun k => memory (p + 4 + k)) bufSize
  some (if bufferDeserialized ≠ 0 ∧ size = 0 then 1 else 0, ⟨buffer, metadata, nixVector⟩, m, pool)

/-! ## Writing -/

section Writing
variable {maxSize n : ℕ} {s : Serializing} {memory : ℕ → UInt8} {a p : ℕ}

theorem through_lay (f : ℕ → UInt8) (p : ℕ) (l : List (Padded UInt8)) :
    through f p (lay (fun k => f (p + k)) 0 l) = lay f p l := by
  funext k
  rw [through, lay_shift]
  split_ifs with hk
  · dsimp only
    rw [Nat.add_zero, Nat.add_sub_cancel' hk]
  · exact (lay_of_lt (Nat.not_le.mp hk)).symm

/-- A part that is written whole into room of its own. -/
theorem putPart_eq {write : (ℕ → UInt8) → Option (ℕ × (ℕ → UInt8))} {l : List (Padded UInt8)}
    (hwrite : ∀ memory, write memory = some (1, lay memory 0 l)) :
    putPart maxSize s n write =
      some (if uint32 (s.size + n) ≤ maxSize then
        .ok ⟨lay s.memory s.p (word (uint32 (n + 4)) :: l), s.p + 4 + padded n,
          uint32 (s.size + n)⟩
      else .error s.memory) := by
  rw [putPart]
  split_ifs with hroom
  · simp only [hwrite, Option.map_some]
    rw [if_pos (by decide), through_lay]
    rfl
  · rfl

end Writing

namespace Packet

/-- What `Serialize` counts for the nix-vector. -/
def nixCount (packet : Packet) : ℕ :=
  match packet.nixVector with
  | some v => v.getSerializedSize
  | none => 4

def nixForm (packet : Packet) : List (Padded UInt8) :=
  match packet.nixVector with
  | some v => word (uint32 (v.getSerializedSize + 4)) :: (nixWords v).map word
  | none => [word 4]

def metaForm (bytes : List UInt8) : List (Padded UInt8) :=
  [word (uint32 (bytes.length + 4)), unpadded bytes]

def bufferForm (packet : Packet) (d : BufferData) : List (Padded UInt8) :=
  word (uint32 (packet.buffer.getSerializedSize + 4)) :: sections d packet.buffer

/-- A packet in a state that its parts ask for, of parts whose own sizes have 32 bits. -/
structure WellFormed (types : IidManager) (pool : MetadataPool) (d : BufferData) (packet : Packet)
    (records : List (SmallItem × ExtraItem)) : Prop where
  metadata : packet.metadata.Holds types pool.enable records
  metaSize : (bytes types packet.metadata records).length < 2 ^ 32
  buffer : packet.buffer.CheckInternalState d
  stop_lt : packet.buffer.stop < 2 ^ 32
  allocated : d.Allocated
  nixSize : ∀ v ∈ packet.nixVector, 12 + 4 * v.nixVector.length < 2 ^ 32
  words_lt : ∀ v ∈ packet.nixVector, ∀ x ∈ nixWords v, x < 2 ^ 32

section Forms
variable {types : IidManager} {pool : MetadataPool} {d : BufferData} {packet : Packet}
  {records : List (SmallItem × ExtraItem)} {maxSize : ℕ} {memory : ℕ → UInt8}

theorem total_words (l : List ℕ) : total (l.map word) = 4 * l.length := by
  induction l with
  | nil => rfl
  | cons x l ih =>
    rw [List.map_cons, total_cons, ih, List.length_cons, Nat.mul_succ, Nat.add_comm]
    rfl

theorem WellFormed.ordered (h : WellFormed types pool d packet records) : packet.buffer.Ordered :=
  ⟨h.buffer.start_le, h.buffer.zeroArea_le, h.buffer.zeroAreaEnd_le, h.stop_lt⟩

theorem WellFormed.bufferSize (h : WellFormed types pool d packet records) :
    packet.buffer.getSerializedSize = total (sections d packet.buffer) ∧
      packet.buffer.getSerializedSize + 3 < 2 ^ 32 ∧ packet.buffer.getSerializedSize % 4 = 0 := by
  have heq := h.ordered.getSerializedSize_eq h.buffer.internalEnd_le h.allocated
  obtain ⟨-, hlt⟩ := h.ordered.total_lt h.buffer.internalEnd_le h.allocated
  have htotal := total_sections d packet.buffer
  rw [heq]
  omega

theorem nixVector_size {v : NixVector} (h : 12 + 4 * v.nixVector.length < 2 ^ 32) :
    v.getSerializedSize = 4 * (nixWords v).length ∧ 4 * (nixWords v).length < 2 ^ 32 := by
  have hlength : (nixWords v).length = v.nixVector.length + 3 := rfl
  rw [hlength, NixVector.getSerializedSize, Nat.mod_eq_of_lt h]
  omega

theorem WellFormed.nix_cases (h : WellFormed types pool d packet records) :
    packet.nixCount + 3 < 2 ^ 32 ∧ packet.nixCount % 4 = 0 ∧ packet.nixCount ≤ total packet.nixForm ∧
      total packet.nixForm ≤ packet.nixCount + 4 ∧ total packet.nixForm % 4 = 0 := by
  rw [nixCount, nixForm]
  cases hv : packet.nixVector with
  | none =>
    dsimp only
    rw [total_cons, total_nil]
    simp [word]
  | some v =>
    obtain ⟨hsize, hlt⟩ := nixVector_size (h.nixSize v hv)
    dsimp only
    rw [hsize, total_cons, total_words]
    dsimp only [word]
    omega

theorem serializeNix_eq {v : NixVector} (h : 12 + 4 * v.nixVector.length < 2 ^ 32)
    (memory : ℕ → UInt8) : serializeNix v memory v.getSerializedSize =
      (1, lay memory 0 ((nixWords v).map word)) := by
  obtain ⟨hsize, hlt⟩ := nixVector_size h
  have hcases := @putAll_cases v.getSerializedSize ((nixWords v).map word) ⟨memory, 0, 0⟩ rfl
    (Nat.zero_le _) (by rwa [total_words, Nat.zero_add])
  rw [total_words, ← hsize, Nat.zero_add] at hcases
  obtain ⟨-, hput⟩ | ⟨hgt, -⟩ := hcases
  · rw [serializeNix, hput]
  · exact absurd hgt (Nat.lt_irrefl _)

/-- The nix-vector is written where its size fits, the word in front of it not counted. -/
theorem WellFormed.putNix_eq (h : WellFormed types pool d packet records) :
    packet.putNix maxSize ⟨memory, 0, 0⟩ = some (if packet.nixCount ≤ maxSize then
      .ok ⟨lay memory 0 packet.nixForm, total packet.nixForm, packet.nixCount⟩
    else .error memory) := by
  rw [putNix, nixCount, nixForm]
  cases hv : packet.nixVector with
  | none =>
    have hfour : uint32 (0 + 4) = 4 := by decide
    dsimp only
    rw [hfour]
    exact (apply_ite some _ _ _).symm
  | some v =>
    obtain ⟨hsize, hlt⟩ := nixVector_size (h.nixSize v hv)
    have hwrite (memory : ℕ → UInt8) : some (serializeNix v memory v.getSerializedSize) =
        some (1, lay memory 0 ((nixWords v).map word)) :=
      congrArg some (serializeNix_eq (h.nixSize v hv) memory)
    have hcount : uint32 (0 + v.getSerializedSize) = v.getSerializedSize := by
      rw [Nat.zero_add, uint32_of_lt (by omega)]
    have hpad : 0 + 4 + padded v.getSerializedSize =
        total (word (uint32 (v.getSerializedSize + 4)) :: (nixWords v).map word) := by
      rw [padded_of_lt (by omega), total_cons, total_words, hsize]
      dsimp only [word]
      omega
    dsimp only
    rw [putPart_eq hwrite]
    dsimp only
    rw [hcount, hpad]

/-- The metadata and the buffer are written in the same way. -/
theorem WellFormed.putMetadata_eq (h : WellFormed types pool d packet records) (s : Serializing) :
    packet.putMetadata types pool maxSize s =
      some (if uint32 (s.size + (bytes types packet.metadata records).length) ≤ maxSize then
        .ok ⟨lay s.memory s.p (metaForm (bytes types packet.metadata records)),
          s.p + 4 + padded (bytes types packet.metadata records).length,
          uint32 (s.size + (bytes types packet.metadata records).length)⟩
      else .error s.memory) := by
  have hwrite (memory : ℕ → UInt8) : packet.metadata.serialize types memory
      (bytes types packet.metadata records).length =
        some (1, lay memory 0 [unpadded (bytes types packet.metadata records)]) :=
    h.metadata.serialize_eq h.metaSize memory
  rw [putMetadata, h.metadata.getSerializedSize_eq h.metaSize]
  exact putPart_eq hwrite

theorem WellFormed.putBuffer_eq (h : WellFormed types pool d packet records) (s : Serializing) :
    packet.putBuffer d maxSize s =
      some (if uint32 (s.size + packet.buffer.getSerializedSize) ≤ maxSize then
        .ok ⟨lay s.memory s.p (packet.bufferForm d), s.p + 4 + padded packet.buffer.getSerializedSize,
          uint32 (s.size + packet.buffer.getSerializedSize)⟩
      else .error s.memory) := by
  have hwrite (memory : ℕ → UInt8) : some (packet.buffer.serialize d memory
      packet.buffer.getSerializedSize) = some (1, lay memory 0 (sections d packet.buffer)) := by
    cases h.ordered.serialize_cases h.buffer.internalEnd_le h.allocated memory
      packet.buffer.getSerializedSize with
    | inl hfits => rw [hfits.2]
    | inr hshort => exact absurd hshort.1 (Nat.lt_irrefl _)
  exact putPart_eq hwrite

/-- The memory behind the metadata. -/
def withMetadata (packet : Packet) (bytes : List UInt8) (memory : ℕ → UInt8) : ℕ → UInt8 :=
  lay (lay memory 0 packet.nixForm) (total packet.nixForm) (metaForm bytes)

/-- What `Serialize` leaves in the memory, as far as it comes. -/
theorem WellFormed.serialize_eq (h : WellFormed types pool d packet records) (memory : ℕ → UInt8) :
    packet.serialize types pool d memory maxSize = some (
      if maxSize < packet.nixCount then (0, memory)
      else if maxSize < uint32 (packet.nixCount + (bytes types packet.metadata records).length) then
        (0, lay memory 0 packet.nixForm)
      else if maxSize < uint32 (uint32 (packet.nixCount +
          (bytes types packet.metadata records).length) + packet.buffer.getSerializedSize) then
        (0, packet.withMetadata (bytes types packet.metadata records) memory)
      else (1, lay (packet.withMetadata (bytes types packet.metadata records) memory)
        (total packet.nixForm + 4 + padded (bytes types packet.metadata records).length)
        (packet.bufferForm d))) := by
  rw [serialize, h.putNix_eq]
  by_cases h1 : packet.nixCount ≤ maxSize
  · rw [if_pos h1, if_neg (Nat.not_lt.mpr h1)]
    simp only [next, Option.bind_some, h.putMetadata_eq]
    generalize uint32 (packet.nixCount + (bytes types packet.metadata records).length) = size
    by_cases h2 : size ≤ maxSize
    · rw [if_pos h2, if_neg (Nat.not_lt.mpr h2)]
      simp only [h.putBuffer_eq]
      generalize uint32 (size + packet.buffer.getSerializedSize) = size'
      by_cases h3 : size' ≤ maxSize
      · rw [if_pos h3, if_neg (Nat.not_lt.mpr h3)]
        rfl
      · rw [if_neg h3, if_pos (Nat.lt_of_not_le h3)]
        rfl
    · rw [if_neg h2, if_pos (Nat.lt_of_not_le h2)]
      rfl
  · rw [if_neg h1, if_pos (Nat.lt_of_not_le h1)]
    rfl

/-- The size of the serialized form. -/
def formSize (packet : Packet) (m : ℕ) : ℕ :=
  total packet.nixForm + 4 + (m + 3) / 4 * 4 + 4 + packet.buffer.getSerializedSize

theorem WellFormed.getSerializedSize_eq (h : WellFormed types pool d packet records) :
    packet.getSerializedSize types pool =
      some (uint32 (packet.formSize (bytes types packet.metadata records).length)) := by
  obtain ⟨-, hbuffer, hdvd⟩ := h.bufferSize
  have hlt := h.metaSize
  have hnix : (match packet.nixVector with
      | some v => uint32 (padded v.getSerializedSize + 4)
      | none => 4) = uint32 (total packet.nixForm) := by
    rw [nixForm]
    cases hv : packet.nixVector with
    | none => rfl
    | some v =>
      obtain ⟨hsize, hlt⟩ := nixVector_size (h.nixSize v hv)
      dsimp only
      rw [padded_of_lt (by omega), total_cons, total_words, hsize]
      dsimp only [word]
      congr 1
      omega
  rw [getSerializedSize, h.metadata.getSerializedSize_eq h.metaSize]
  simp only [Option.bind_eq_bind, Option.bind_some, Option.some.injEq]
  rw [hnix, formSize, padded_of_lt hbuffer]
  generalize (bytes types packet.metadata records).length = m at hlt ⊢
  simp only [padded, uint32]
  omega

end Forms

/-! ## Reading -/

section Reading
variable {types : IidManager} {pool : MetadataPool} {d : BufferData} {packet : Packet}
  {records : List (SmallItem × ExtraItem)} {memory : ℕ → UInt8}

theorem readWord_lay (f : ℕ → UInt8) (a : ℕ) (l l' : List (Padded UInt8)) {v : ℕ} (hv : v < 2 ^ 32) :
    readWord (lay f a (l ++ word v :: l')) (a + total l) = v := by
  rw [lay_append]
  exact readWord_of_slice (slice_word _ _ _ _) hv

theorem wordsAt_lay (f : ℕ → UInt8) (a : ℕ) {ws : List ℕ} (hws : ∀ x ∈ ws, x < 2 ^ 32)
    (l l' : List (Padded UInt8)) :
    wordsAt (lay f a (l ++ (ws.map word ++ l'))) (a + total l) ws.length = ws := by
  induction ws generalizing l with
  | nil => rfl
  | cons x ws ih =>
    have hx := readWord_lay f a l (ws.map word ++ l') (hws x List.mem_cons_self)
    have hrest := ih (fun y hy => hws y (List.mem_cons_of_mem _ hy)) (l ++ [word x])
    have htotal : a + total (l ++ [word x]) = a + total l + 4 := by
      rw [total_append]
      rfl
    rw [List.append_assoc, List.singleton_append, htotal] at hrest
    rw [List.map_cons, List.cons_append, List.length_cons, wordsAt, List.range_succ_eq_map,
      List.map_cons, List.map_map, Nat.mul_zero, Nat.add_zero, hx]
    refine congrArg (x :: ·) (Eq.trans ?_ hrest)
    refine List.map_congr_left fun k _ => ?_
    simp only [Function.comp_apply, Nat.mul_succ]
    congr 1
    omega

/-- The serialized form of a packet. -/
def form (packet : Packet) (d : BufferData) (bytes : List UInt8) : List (Padded UInt8) :=
  packet.nixForm ++ (word (uint32 (bytes.length + 4)) :: inWords bytes :: packet.bufferForm d)

theorem deserialize_nixWords {v : NixVector} (h : 12 + 4 * v.nixVector.length < 2 ^ 32) :
    NixVector.deserialize (nixWords v) (v.getSerializedSize + 4) = some v := by
  have htransfer := NixVector.transfer_eq h
  have hle : 4 * (nixWords v).length ≤ v.getSerializedSize := (nixVector_size h).1.ge
  rw [NixVector.transfer, NixVector.serialize] at htransfer
  rw [← nixWords, if_pos hle] at htransfer
  exact htransfer

theorem WellFormed.readNix_eq (h : WellFormed types pool d packet records) (memory : ℕ → UInt8)
    (l : List (Padded UInt8)) (hlt : total packet.nixForm < 2 ^ 32) :
    readWord (lay memory 0 (packet.nixForm ++ l)) 0 = total packet.nixForm ∧
      readNix (lay memory 0 (packet.nixForm ++ l)) (total packet.nixForm) =
        some (packet.nixVector, total packet.nixForm) := by
  rw [nixForm] at hlt ⊢
  cases hv : packet.nixVector with
  | none => exact ⟨readWord_lay memory 0 [] l (by decide), rfl⟩
  | some v =>
    rw [hv] at hlt
    dsimp only at hlt ⊢
    obtain ⟨hsize, -⟩ := nixVector_size (h.nixSize v hv)
    have htotal : total (word (uint32 (v.getSerializedSize + 4)) :: (nixWords v).map word) =
        v.getSerializedSize + 4 := by
      rw [total_cons, total_words, hsize]
      exact Nat.add_comm _ _
    rw [htotal] at hlt ⊢
    rw [uint32_of_lt hlt, List.cons_append]
    have hwords := wordsAt_lay memory 0 (h.words_lt v hv) [word (v.getSerializedSize + 4)] l
    have hcount : (v.getSerializedSize + 4 - 4) / 4 = (nixWords v).length := by omega
    refine ⟨readWord_lay memory 0 [] _ hlt, ?_⟩
    have haddress : 0 + total [word (v.getSerializedSize + 4)] = 4 := rfl
    rw [haddress, List.singleton_append] at hwords
    have hpos : 4 < v.getSerializedSize + 4 := by
      have hlength : (nixWords v).length = v.nixVector.length + 3 := rfl
      omega
    rw [readNix, if_pos hpos, hcount, hwords, deserialize_nixWords (h.nixSize v hv),
      Option.map_some, padded_of_lt (by omega)]
    simp only [Option.some.injEq, Prod.mk.injEq, true_and]
    omega

theorem WellFormed.readBuffer (h : WellFormed types pool d packet records)
    (hlt : packet.buffer.getSerializedSize + 4 < 2 ^ 32) (garbage : ℕ → ℕ → UInt8)
    {w : BufferWorld} (hw : w.Holds) (memory : ℕ → UInt8) :
    ∃ b m, Buffer.deserialize garbage w.memory (lay memory 0 (sections d packet.buffer))
        (packet.buffer.getSerializedSize + 4) = some (1, b, m) ∧
      b.copyData (m.heap b.data) = packet.buffer.copyData d := by
  have hord := h.ordered
  obtain ⟨hbytes, -⟩ := hord.total_lt h.buffer.internalEnd_le h.allocated
  have hstart := length_startBytes d packet.buffer
  have hstop := length_endBytes d packet.buffer
  have hzeros : (startBytes d packet.buffer).length + packet.buffer.zeroSize +
      (endBytes d packet.buffer).length < 2 ^ 32 := by
    rw [hstart, hstop, zeroSize]
    have hlt := hord.stop_lt
    have h1 := hord.start_le
    have h2 := hord.zeroArea_le
    have h3 := hord.zeroAreaEnd_le
    omega
  obtain ⟨b, m, hread, hcopy, -⟩ := hw.deserialize garbage
    (reads_lay hord h.buffer.internalEnd_le h.allocated memory) hzeros (by omega)
  have hsize : packet.buffer.getSerializedSize = 12 + padded (startBytes d packet.buffer).length +
      padded (endBytes d packet.buffer).length := by
    rw [h.bufferSize.1, total_sections, padded_of_lt (by omega), padded_of_lt (by omega), hstart,
      hstop]
    omega
  rw [← hsize, uint32_of_lt hlt] at hread
  exact ⟨b, m, hread, hcopy.trans (hord.copyData_eq d).symm⟩

/-- The three parts are read one behind the other. Each takes its size from what is left. -/
theorem deserialize_of_reads {f : ℕ → UInt8} {nix : Option NixVector} {b : Buffer}
    {m m' : BufferMemory} {garbage : ℕ → ℕ → UInt8} {w n k p left left₁ left₂ left₃ : ℕ}
    (hw : readWord f 0 = w) (hnix : readNix f w = some (nix, w)) (hmeta : readWord f w = n)
    (hp : w + 4 + padded (uint32Sub n 4) = p) (hbuf : readWord f p = k)
    (hread : Buffer.deserialize garbage m (fun k => f (p + 4 + k)) k = some (1, b, m'))
    (h₁ : w ≤ left) (hleft₁ : uint32Sub left w = left₁) (h₂ : n ≤ left₁)
    (hleft₂ : uint32Sub left₁ n = left₂) (h₃ : k ≤ left₂) (hleft₃ : uint32Sub left₂ k = left₃) :
    deserialize types garbage m pool f left =
      ((construct pool 0).1.deserialize types (construct pool 0).2 (fun k => f (w + 4 + k)) n).map
        fun r => (if left₃ = 0 then 1 else 0, ⟨b, r.2.1, nix⟩, m', r.2.2) := by
  rw [PacketSerialization.deserialize]
  dsimp only
  rw [hw, guard_of h₁, hleft₁]
  simp only [Option.bind_eq_bind, Option.bind_some, hnix, hmeta, guard_of h₂, hleft₂]
  cases (construct pool 0).1.deserialize types (construct pool 0).2 (fun k => f (w + 4 + k)) n with
  | none => rfl
  | some r =>
    simp only [Option.bind_some, Option.map_some, hp, hbuf, guard_of h₃, hleft₃, hread]
    simp only [ne_eq, Nat.one_ne_zero, not_false_eq_true, true_and]

/-- Everything but the metadata is read back in any case. -/
theorem WellFormed.deserialize_eq (h : WellFormed types pool d packet records)
    (hlt : packet.formSize (bytes types packet.metadata records).length < 2 ^ 32)
    (garbage : ℕ → ℕ → UInt8) {w : BufferWorld} (hw : w.Holds) (memory : ℕ → UInt8) :
    ∃ b m, b.copyData (m.heap b.data) = packet.buffer.copyData d ∧
      deserialize types garbage w.memory pool
        (lay memory 0 (packet.form d (bytes types packet.metadata records)))
        (packet.formSize (bytes types packet.metadata records).length) =
      ((construct pool 0).1.deserialize types (construct pool 0).2
        (fun k => lay memory 0 (packet.form d (bytes types packet.metadata records))
          (total packet.nixForm + 4 + k))
        ((bytes types packet.metadata records).length + 4)).map fun r =>
          (if 4 ∣ (bytes types packet.metadata records).length then 1 else 0,
            ⟨b, r.2.1, packet.nixVector⟩, m, r.2.2) := by
  obtain ⟨hbsize, hbpad, hbdvd⟩ := h.bufferSize
  generalize bytes types packet.metadata records = bytes at hlt ⊢
  have hlt' := hlt
  rw [formSize] at hlt'
  obtain ⟨hw0, hnix⟩ := h.readNix_eq memory
    (word (uint32 (bytes.length + 4)) :: inWords bytes :: packet.bufferForm d) (by omega)
  rw [← form] at hw0 hnix
  have hmeta := readWord_lay memory 0 packet.nixForm (inWords bytes :: packet.bufferForm d)
    (v := bytes.length + 4) (by omega)
  have hbuf := readWord_lay memory 0 (packet.nixForm ++ [word (bytes.length + 4), inWords bytes])
    (sections d packet.buffer) (v := packet.buffer.getSerializedSize + 4) (by omega)
  have hform : packet.form d bytes = packet.nixForm ++ word (bytes.length + 4) ::
      (inWords bytes :: packet.bufferForm d) := by
    rw [form, uint32_of_lt (by omega)]
  have hform' : packet.form d bytes = (packet.nixForm ++ [word (bytes.length + 4), inWords bytes]) ++
      word (packet.buffer.getSerializedSize + 4) :: sections d packet.buffer := by
    rw [hform, bufferForm, uint32_of_lt (by omega)]
    simp only [List.append_assoc, List.cons_append, List.nil_append]
  rw [← hform, Nat.zero_add] at hmeta
  rw [← hform', Nat.zero_add, total_append] at hbuf
  have hpre : total [word (bytes.length + 4), inWords bytes] = 4 + (bytes.length + 3) / 4 * 4 := rfl
  rw [hpre] at hbuf
  -- the buffer is behind the word with its size
  obtain ⟨b, m, hread, hcopy⟩ := h.readBuffer (by omega) garbage hw fun k => lay memory 0
    (packet.nixForm ++ [word (bytes.length + 4), inWords bytes,
      word (packet.buffer.getSerializedSize + 4)])
    (total packet.nixForm + (4 + (bytes.length + 3) / 4 * 4) + 4 + k)
  have hshift : (fun k => lay memory 0 (packet.form d bytes)
      (total packet.nixForm + (4 + (bytes.length + 3) / 4 * 4) + 4 + k)) =
      lay (fun k => lay memory 0 (packet.nixForm ++ [word (bytes.length + 4), inWords bytes,
        word (packet.buffer.getSerializedSize + 4)])
        (total packet.nixForm + (4 + (bytes.length + 3) / 4 * 4) + 4 + k)) 0
        (sections d packet.buffer) := by
    have htotal : 0 + total (packet.nixForm ++ [word (bytes.length + 4), inWords bytes,
        word (packet.buffer.getSerializedSize + 4)]) =
        total packet.nixForm + (4 + (bytes.length + 3) / 4 * 4) + 4 := by
      rw [total_append, total_cons, total_cons, total_cons, total_nil]
      dsimp only [word, inWords]
      omega
    have hsplit : packet.form d bytes = (packet.nixForm ++ [word (bytes.length + 4), inWords bytes,
        word (packet.buffer.getSerializedSize + 4)]) ++ sections d packet.buffer := by
      rw [hform']
      simp only [List.append_assoc, List.cons_append, List.nil_append]
    have hlay := lay_append memory 0 (packet.nixForm ++ [word (bytes.length + 4), inWords bytes,
      word (packet.buffer.getSerializedSize + 4)]) (sections d packet.buffer)
    rw [← hsplit, htotal] at hlay
    rw [hlay]
    exact (lay_shift _ _ 0 _).symm
  rw [← hshift] at hread
  refine ⟨b, m, hcopy, ?_⟩
  have hsizes (n k : ℕ) (h : total packet.nixForm + 4 + (n + 3) / 4 * 4 + 4 + k < 2 ^ 32) :
      uint32Sub (total packet.nixForm + 4 + (n + 3) / 4 * 4 + 4 + k) (total packet.nixForm) =
          4 + (n + 3) / 4 * 4 + 4 + k ∧
        uint32Sub (4 + (n + 3) / 4 * 4 + 4 + k) (n + 4) = (n + 3) / 4 * 4 - n + 4 + k ∧
        uint32Sub ((n + 3) / 4 * 4 - n + 4 + k) (k + 4) = (n + 3) / 4 * 4 - n := by
    refine ⟨?_, ?_, ?_⟩ <;> rw [uint32Sub_of_le (by omega) (by omega)] <;> omega
  obtain ⟨h₁, h₂, h₃⟩ := hsizes _ _ hlt'
  have hp : total packet.nixForm + 4 + padded (uint32Sub (bytes.length + 4) 4) =
      total packet.nixForm + (4 + (bytes.length + 3) / 4 * 4) := by
    rw [uint32Sub_of_le (by omega) (by omega), Nat.add_sub_cancel, padded_of_lt (by omega),
      Nat.add_assoc]
  have hrest : (bytes.length + 3) / 4 * 4 - bytes.length = 0 ↔ 4 ∣ bytes.length := by omega
  rw [formSize, deserialize_of_reads hw0 hnix hmeta hp hbuf hread (by omega) h₁ (by omega) h₂
    (by omega) h₃]
  simp only [hrest]

/-- The packet that `Deserialize` makes of a memory is the one that was serialized there. -/
def Restores (types : IidManager) (pool : MetadataPool) (d : BufferData) (packet : Packet)
    (memory : ℕ → UInt8) (size : ℕ) : Prop :=
  ∀ (garbage : ℕ → ℕ → UInt8) (w : BufferWorld), w.Holds → ∃ packet' m pool',
    deserialize types garbage w.memory pool memory size = some (1, packet', m, pool') ∧
      packet'.buffer.copyData (m.heap packet'.buffer.data) = packet.buffer.copyData d ∧
      packet'.metadata.packetUid = packet.metadata.packetUid ∧
      packet'.nixVector = packet.nixVector ∧ packet'.metadata.items = packet.metadata.items

theorem returned_of_deserialize {m : PacketMetadata} {size : ℕ} {r : ℕ × PacketMetadata × MetadataPool}
    (h : m.deserialize types pool memory size = some r) : r.1 = 1 := by
  simp only [PacketMetadata.deserialize, Option.bind_eq_bind, Option.bind_eq_some_iff] at h
  obtain ⟨_, -, _, -, hr⟩ := h
  exact congrArg Prod.fst (Option.some.inj hr).symm

theorem slice_metadata (packet : Packet) (d : BufferData) (bytes : List UInt8)
    (memory : ℕ → UInt8) :
    slice (fun k => lay memory 0 (packet.form d bytes) (total packet.nixForm + 4 + k)) 0
      bytes.length = bytes := by
  have hform : packet.form d bytes = (packet.nixForm ++ [word (uint32 (bytes.length + 4))]) ++
      inWords bytes :: packet.bufferForm d := by
    rw [form, List.append_assoc, List.singleton_append]
  have htotal : total (packet.nixForm ++ [word (uint32 (bytes.length + 4))]) =
      total packet.nixForm + 4 := by
    rw [total_append, total_cons, total_nil]
    rfl
  have hslice := slice_lay (lay memory 0 (packet.nixForm ++ [word (uint32 (bytes.length + 4))]))
    (0 + total (packet.nixForm ++ [word (uint32 (bytes.length + 4))])) (inWords bytes)
    (packet.bufferForm d)
  rw [← lay_append, ← hform, Nat.zero_add, htotal] at hslice
  refine Eq.trans (slice_congr fun k _ => ?_) hslice
  rw [Nat.zero_add]

/-- What the serialized form gives back: everything if the metadata needs no padding, each of its
items comes back and they fit into one block. -/
theorem WellFormed.restores_iff (h : WellFormed types pool d packet records) (hpool : pool.Sound)
    (hlt : packet.formSize (bytes types packet.metadata records).length < 2 ^ 32)
    (memory : ℕ → UInt8) :
    Restores types pool d packet (lay memory 0 (packet.form d (bytes types packet.metadata records)))
        (packet.formSize (bytes types packet.metadata records).length) ↔
      4 ∣ (bytes types packet.metadata records).length ∧
        (∀ record ∈ records, Returns types record) ∧ bigSizes records < 2 ^ 16 := by
  have hlt' := hlt
  rw [formSize] at hlt'
  rw [← h.metadata.restores_iff_fits hpool (by omega) (slice_metadata packet d _ memory)]
  constructor
  · intro hrestores
    obtain ⟨packet', m, pool', hread, -, huid, -, hitems⟩ :=
      hrestores (fun _ _ => 0) _ BufferWorld.empty_holds
    obtain ⟨b, m', -, heq⟩ := h.deserialize_eq hlt (fun _ _ => 0) BufferWorld.empty_holds memory
    rw [heq, Option.map_eq_some_iff] at hread
    obtain ⟨⟨returned, metadata, pool''⟩, hmeta, hpacket⟩ := hread
    obtain rfl : returned = 1 := returned_of_deserialize hmeta
    simp only [Prod.mk.injEq] at hpacket
    obtain ⟨hdvd, rfl, -, -⟩ := hpacket
    refine ⟨?_, metadata, pool'', hmeta, huid, hitems⟩
    by_contra hnot
    rw [if_neg hnot] at hdvd
    exact Nat.zero_ne_one hdvd
  · rintro ⟨hdvd, metadata, pool', hmeta, huid, hitems⟩ garbage w hw
    obtain ⟨b, m', hcopy, heq⟩ := h.deserialize_eq hlt garbage hw memory
    rw [heq, hmeta, if_pos hdvd]
    exact ⟨_, _, _, rfl, hcopy, huid, rfl, hitems⟩

end Reading

/-! ## Transfer -/

section Transfer
variable {types : IidManager} {pool : MetadataPool} {d : BufferData} {packet : Packet}
  {records : List (SmallItem × ExtraItem)} {maxSize : ℕ}

/-- `Serialize` with some room, and `Deserialize` of what it has written: it returns 1 if the size
fits into the room, stays within it in any case, and the packet is restored. -/
def Transfers (types : IidManager) (pool : MetadataPool) (d : BufferData) (packet : Packet)
    (maxSize : ℕ) : Prop :=
  ∀ memory : ℕ → UInt8, ∃ size returned memory',
    packet.getSerializedSize types pool = some size ∧
      packet.serialize types pool d memory maxSize = some (returned, memory') ∧
      (returned = 1 ↔ size ≤ maxSize) ∧ (∀ k, maxSize ≤ k → memory' k = memory k) ∧
      (returned = 1 → Restores types pool d packet memory' size)

theorem transfers_iff_of_eq {size returned : ℕ} {written : (ℕ → UInt8) → ℕ → UInt8}
    (hsize : packet.getSerializedSize types pool = some size)
    (hserialize : ∀ memory, packet.serialize types pool d memory maxSize =
      some (returned, written memory)) :
    Transfers types pool d packet maxSize ↔ (returned = 1 ↔ size ≤ maxSize) ∧
      (∀ memory k, maxSize ≤ k → written memory k = memory k) ∧
      (returned = 1 → ∀ memory, Restores types pool d packet (written memory) size) := by
  rw [Transfers]
  simp only [hsize, hserialize, Option.some.injEq, Prod.mk.injEq]
  constructor
  · intro h
    refine ⟨?_, fun memory k hk => ?_, fun hreturned memory => ?_⟩
    · obtain ⟨_, _, _, rfl, ⟨rfl, -⟩, hiff, -⟩ := h fun _ => 0
      exact hiff
    · obtain ⟨_, _, _, rfl, ⟨-, rfl⟩, -, hframe, -⟩ := h memory
      exact hframe k hk
    · obtain ⟨_, _, _, rfl, ⟨rfl, rfl⟩, -, -, hrestores⟩ := h memory
      exact hrestores hreturned
  · rintro ⟨hiff, hframe, hrestores⟩ memory
    exact ⟨_, _, _, rfl, ⟨rfl, rfl⟩, hiff, hframe memory, fun h => hrestores h memory⟩

/-- An address whose byte does not depend on what was there has been written. -/
theorem lt_of_frame {written : (ℕ → UInt8) → ℕ → UInt8} {k : ℕ}
    (hframe : ∀ memory k, maxSize ≤ k → written memory k = memory k)
    (hsame : ∀ f g, written f k = written g k) : k < maxSize := by
  by_contra hle
  have hzero := hframe (fun _ => 0) k (Nat.not_lt.mp hle)
  have hone := hframe (fun _ => 1) k (Nat.not_lt.mp hle)
  rw [hsame (fun _ => 0) fun _ => 1, hone] at hzero
  exact absurd hzero (by decide)

theorem written_words (a : ℕ) (l : List ℕ) {k : ℕ} (hk : a ≤ k) (hlt : k < a + 4 * l.length) :
    PaddedSections.Written a (l.map word) k := by
  induction l generalizing a with
  | nil => exact absurd (hk.trans_lt hlt) (Nat.lt_irrefl _)
  | cons x l ih =>
    rw [List.length_cons] at hlt
    by_cases hfirst : k < a + 4
    · exact .inl ⟨hk, hfirst.trans_eq (congrArg (a + ·) (length_wordBytes x).symm)⟩
    · exact .inr (ih (a + 4) (by omega) (by omega))

theorem written_nixForm (packet : Packet) {k : ℕ} (hk : k < total packet.nixForm) :
    PaddedSections.Written 0 packet.nixForm k := by
  rw [nixForm] at hk ⊢
  cases hv : packet.nixVector with
  | none =>
    rw [hv] at hk
    exact written_words 0 [4] (Nat.zero_le k) (by rwa [Nat.zero_add])
  | some v =>
    rw [hv] at hk
    dsimp only at hk ⊢
    rw [← List.map_cons, total_words] at hk
    rw [← List.map_cons]
    exact written_words 0 _ (Nat.zero_le k) (by rwa [Nat.zero_add])

theorem written_metaForm {a k : ℕ} {bytes : List UInt8} (hk : a ≤ k)
    (hlt : k < a + 4 + bytes.length) : PaddedSections.Written a (metaForm bytes) k := by
  by_cases hfirst : k < a + 4
  · exact .inl ⟨hk, hfirst.trans_eq (congrArg (a + ·) (length_wordBytes _).symm)⟩
  · exact .inr (.inl ⟨by exact Nat.le_of_not_lt hfirst, hlt⟩)

/-- The last word of the buffer is written, if only in part. -/
theorem written_bufferForm (packet : Packet) (d : BufferData) (a : ℕ) :
    PaddedSections.Written a (packet.bufferForm d) (a + total (sections d packet.buffer)) := by
  simp only [bufferForm, sections, PaddedSections.Written, total_cons, total_nil, word, inWords,
    length_wordBytes]
  generalize (startBytes d packet.buffer).length = x
  generalize (endBytes d packet.buffer).length = y
  omega

theorem lay_inWords (f : ℕ → UInt8) (a v : ℕ) (bytes : List UInt8) (l : List (Padded UInt8)) :
    lay f a (word v :: inWords bytes :: l) =
      lay (lay f a [word v, unpadded bytes]) (a + 4 + (bytes.length + 3) / 4 * 4) l := by
  rw [lay, lay, lay, lay, lay]
  rfl

/-- The parts lie one behind the other, unless the padding of the metadata has been reduced to 32
bits. -/
theorem lay_form (packet : Packet) (d : BufferData) (bytes : List UInt8)
    (h : bytes.length + 3 < 2 ^ 32) (memory : ℕ → UInt8) :
    lay (packet.withMetadata bytes memory) (total packet.nixForm + 4 + padded bytes.length)
      (packet.bufferForm d) = lay memory 0 (packet.form d bytes) := by
  rw [form, lay_append, Nat.zero_add, padded_of_lt h, withMetadata, metaForm, lay_inWords]

theorem WellFormed.total_form (h : WellFormed types pool d packet records) (bytes : List UInt8) :
    total (packet.form d bytes) = packet.formSize bytes.length := by
  rw [form, total_append, total_cons, total_cons, bufferForm, total_cons, ← h.bufferSize.1, formSize]
  dsimp only [word, inWords]
  omega

theorem nixForm_pos (packet : Packet) : 4 ≤ total packet.nixForm := by
  rw [nixForm]
  cases packet.nixVector with
  | none => exact Nat.le_refl 4
  | some v => exact Nat.le_add_right 4 _

theorem frame_nixForm_iff (packet : Packet) :
    (∀ (memory : ℕ → UInt8) (k : ℕ), maxSize ≤ k → lay memory 0 packet.nixForm k = memory k) ↔
      total packet.nixForm ≤ maxSize := by
  have hpos := nixForm_pos packet
  constructor
  · intro hframe
    have hlast : total packet.nixForm - 1 < maxSize := lt_of_frame hframe fun f g =>
      lay_of_written (written_nixForm packet (by omega))
    omega
  · intro hle memory k hk
    exact lay_of_ge (by omega)

theorem frame_withMetadata_iff (packet : Packet) (bytes : List UInt8) :
    (∀ (memory : ℕ → UInt8) (k : ℕ), maxSize ≤ k →
      packet.withMetadata bytes memory k = memory k) ↔
      total packet.nixForm + 4 + bytes.length ≤ maxSize := by
  constructor
  · intro hframe
    have hlast : total packet.nixForm + 4 + bytes.length - 1 < maxSize :=
      lt_of_frame hframe fun f g => lay_of_written (written_metaForm (by omega) (by omega))
    omega
  · intro hle memory k hk
    have htotal : total (metaForm bytes) = 4 + bytes.length := rfl
    rw [withMetadata, lay_of_ge (by omega), lay_of_ge (by omega)]

/-- Where everything is written within the room, the paddings are as long as they should be. -/
theorem WellFormed.formSize_le (h : WellFormed types pool d packet records) {bytes : List UInt8}
    (hframe : ∀ memory k, maxSize ≤ k → lay (packet.withMetadata bytes memory)
      (total packet.nixForm + 4 + padded bytes.length) (packet.bufferForm d) k = memory k)
    (hmax : maxSize < 2 ^ 32) :
    bytes.length + 3 < 2 ^ 32 ∧ packet.formSize bytes.length ≤ 2 ^ 32 := by
  obtain ⟨-, -, -, -, hdvd⟩ := h.nix_cases
  obtain ⟨hbuffer, -, hbdvd⟩ := h.bufferSize
  have hpos := nixForm_pos packet
  have hmeta : total packet.nixForm + 4 + bytes.length - 1 < maxSize :=
    lt_of_frame hframe fun f g =>
      lay_congr (lay_of_written (written_metaForm (by omega) (by omega)))
  have hlt : bytes.length + 3 < 2 ^ 32 := by omega
  have hlast : total packet.nixForm + 4 + padded bytes.length + total (sections d packet.buffer) <
      maxSize := lt_of_frame hframe fun f g => lay_of_written (written_bufferForm packet d _)
  rw [padded_of_lt hlt, ← hbuffer] at hlast
  rw [formSize]
  omega

theorem not_restores_zero {memory : ℕ → UInt8} (h : readWord memory 0 ≠ 0) :
    ¬Restores types pool d packet memory 0 := by
  intro hrestores
  obtain ⟨packet', m, pool', hread, -⟩ := hrestores (fun _ _ => 0) _ BufferWorld.empty_holds
  rw [PacketSerialization.deserialize] at hread
  have hguard : (guard (readWord memory 0 ≤ 0) : Option Unit) = none :=
    if_neg (Nat.not_le.mpr (Nat.pos_of_ne_zero h))
  dsimp only at hread
  rw [hguard, Option.bind_eq_bind, Option.bind_none] at hread
  cases hread

end Transfer

end Packet

end Ns3Noc.PacketSerialization
