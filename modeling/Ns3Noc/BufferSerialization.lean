import Mathlib
import Ns3Noc.BigEndian
import Ns3Noc.BufferExtensions
import Ns3Noc.PaddedSections

/-!
# BufferSerialization

A buffer is serialized as the sizes of its zero area, of its start bytes and of its end bytes, in
words of four bytes, and as these bytes, each padded to whole words. A word has its lowest byte first.
-/
namespace Ns3Noc
open ByteSlices PaddedSections

/-- `(x + 3) & (~3)` -/
def padded (x : ℕ) : ℕ := uint32 (x + 3) / 4 * 4

/-- What `Allocate` asks for, `reqSize - 1 + sizeof (struct Buffer::Data)`, has 32 bits. -/
def BufferData.Allocated (d : BufferData) : Prop := d.size - 1 + 20 < 2 ^ 32

instance (d : BufferData) : Decidable d.Allocated := inferInstanceAs (Decidable (_ < _))

namespace Buffer

def wordBytes (v : ℕ) : List UInt8 := (BigEndian.toBytes 4 v).reverse

def readWord (memory : ℕ → UInt8) (p : ℕ) : ℕ := BigEndian.ofBytes (slice memory p 4).reverse

/-- The memory, the pointer and the size in `Serialize`. -/
structure Serializing where
  memory : ℕ → UInt8
  p : ℕ
  size : ℕ

/-- The bytes are written if there is room for them with their padding. -/
def Serializing.put (maxSize : ℕ) (s : Serializing) (bytes : List UInt8) (room : ℕ) :
    Except (ℕ → UInt8) Serializing :=
  if uint32 (s.size + room) ≤ maxSize then
    .ok ⟨overwrite s.memory s.p bytes, s.p + room, uint32 (s.size + room)⟩
  else .error s.memory

def getSerializedSize (b : Buffer) : ℕ :=
  let dataStart := padded (uint32Sub b.zeroAreaStart b.start)
  let dataEnd := padded (uint32Sub b.stop b.zeroAreaEnd)
  uint32 (4 + 4 + dataStart + 4 + dataEnd)

/-- `Serialize` to address 0 of a memory, with the value that it returns. -/
def serialize (d : BufferData) (b : Buffer) (memory : ℕ → UInt8) (maxSize : ℕ) :
    ℕ × (ℕ → UInt8) :=
  let result : Except (ℕ → UInt8) Serializing := do
    let s : Serializing := ⟨memory, 0, 0⟩
    let s ← s.put maxSize (wordBytes (uint32Sub b.zeroAreaEnd b.zeroAreaStart)) 4
    let dataStartLength := uint32Sub b.zeroAreaStart b.start
    let s ← s.put maxSize (wordBytes dataStartLength) 4
    let s ← s.put maxSize (slice d.data b.start dataStartLength) (padded dataStartLength)
    let dataEndLength := uint32Sub b.stop b.zeroAreaEnd
    let s ← s.put maxSize (wordBytes dataEndLength) 4
    s.put maxSize (slice d.data b.zeroAreaStart dataEndLength) (padded dataEndLength)
  match result with
  | .ok s => (1, s.memory)
  | .error memory => (0, memory)

/-- `Deserialize` from address 0 of a memory; `none` is a failed assertion. -/
def deserialize (garbage : ℕ → ℕ → UInt8) (m : BufferMemory) (memory : ℕ → UInt8) (size : ℕ) :
    Option (ℕ × Buffer × BufferMemory) := do
  let sizeCheck := uint32Sub size 4
  guard (sizeCheck ≥ 4)
  let zeroDataLength := readWord memory 0
  let sizeCheck := uint32Sub sizeCheck 4
  let (b, m) := construct garbage m zeroDataLength
  guard (sizeCheck ≥ 4)
  let dataStartLength := readWord memory 4
  let sizeCheck := uint32Sub sizeCheck 4
  let (_, b, m) ← addAtStart garbage m b dataStartLength
  guard (sizeCheck ≥ dataStartLength)
  let m ← (BufferIterator.ofBegin b).write m (slice memory 8 dataStartLength)
  let p := 8 + padded dataStartLength
  let sizeCheck := uint32Sub sizeCheck (padded dataStartLength)
  guard (sizeCheck ≥ 4)
  let dataEndLength := readWord memory p
  let sizeCheck := uint32Sub sizeCheck 4
  let (_, b, m) ← addAtEnd garbage m b dataEndLength
  guard (sizeCheck ≥ dataEndLength)
  let tmp ← (BufferIterator.ofEnd b).prev dataEndLength
  let m ← tmp.write m (slice memory (p + 4) dataEndLength)
  let sizeCheck := uint32Sub sizeCheck (padded dataEndLength)
  guard (sizeCheck = 0)
  some (1, b, m)

section Sections
variable {b : Buffer} {d : BufferData} {memory : ℕ → UInt8} {maxSize k : ℕ}

theorem padded_of_lt {x : ℕ} (h : x + 3 < 2 ^ 32) : padded x = (x + 3) / 4 * 4 := by
  rw [padded, uint32_of_lt h]

@[simp] theorem length_wordBytes (v : ℕ) : (wordBytes v).length = 4 := by
  rw [wordBytes, List.length_reverse, BigEndian.length_toBytes]

def word (v : ℕ) : Padded UInt8 := ⟨wordBytes v, 4, (length_wordBytes v).le⟩

/-- Bytes in whole words. -/
def inWords (bytes : List UInt8) : Padded UInt8 := ⟨bytes, (bytes.length + 3) / 4 * 4, by omega⟩

/-- The serialized form. -/
def sections (d : BufferData) (b : Buffer) : List (Padded UInt8) :=
  [word b.zeroSize, word (startBytes d b).length, inWords (startBytes d b),
    word (endBytes d b).length, inWords (endBytes d b)]

theorem total_sections (d : BufferData) (b : Buffer) : total (sections d b) =
    4 + 4 + (b.zeroAreaStart - b.start + 3) / 4 * 4 + 4 + (b.stop - b.zeroAreaEnd + 3) / 4 * 4 := by
  have hstart := length_startBytes d b
  have hend := length_endBytes d b
  simp only [sections, total_cons, total_nil, word, inWords, hstart, hend]
  omega

/-- A block that could be allocated is small enough for the serialized form to have 32 bits. -/
theorem Ordered.total_lt (h : b.Ordered) (hend : b.internalEnd ≤ d.size) (hd : d.Allocated) :
    b.zeroAreaStart - b.start + (b.stop - b.zeroAreaEnd) + 19 < 2 ^ 32 ∧
      total (sections d b) < 2 ^ 32 := by
  have hbytes : b.zeroAreaStart - b.start + (b.stop - b.zeroAreaEnd) ≤ b.internalEnd := by
    obtain ⟨h1, h2, h3, h4⟩ := h
    rw [internalEnd, zeroSize]
    omega
  rw [BufferData.Allocated] at hd
  rw [total_sections]
  omega

theorem Ordered.getSerializedSize_eq (h : b.Ordered) (hend : b.internalEnd ≤ d.size)
    (hd : d.Allocated) : b.getSerializedSize = total (sections d b) := by
  obtain ⟨hbytes, hlt⟩ := h.total_lt hend hd
  have hlt' := h.stop_lt
  have h1 := h.start_le
  have h2 := h.zeroArea_le
  have h3 := h.zeroAreaEnd_le
  rw [getSerializedSize, uint32Sub_of_le h1 (by omega), uint32Sub_of_le h3 hlt',
    padded_of_lt (by omega), padded_of_lt (by omega), ← total_sections d b, uint32_of_lt hlt]

/-- The sections one after the other, as far as there is room. -/
def putAll (maxSize : ℕ) (s : Serializing) (l : List (Padded UInt8)) :
    Except (ℕ → UInt8) Serializing :=
  l.foldlM (fun s x => s.put maxSize x.values x.room) s

theorem putAll_cases (l : List (Padded UInt8)) {s : Serializing} (hp : s.p = s.size)
    (hle : s.size ≤ maxSize) (hlt : s.size + total l < 2 ^ 32) :
    s.size + total l ≤ maxSize ∧
        putAll maxSize s l = .ok ⟨lay s.memory s.p l, s.p + total l, s.size + total l⟩ ∨
      maxSize < s.size + total l ∧
        ∃ m, putAll maxSize s l = .error m ∧ ∀ k, maxSize ≤ k → m k = s.memory k := by
  induction l generalizing s with
  | nil => exact .inl ⟨hle, rfl⟩
  | cons x l ih =>
    have hfits := x.fits
    rw [total_cons, ← Nat.add_assoc] at hlt ⊢
    rw [putAll, List.foldlM_cons, Serializing.put, uint32_of_lt (by omega)]
    by_cases hroom : s.size + x.room ≤ maxSize
    · rw [if_pos hroom]
      cases ih (s := ⟨overwrite s.memory s.p x.values, s.p + x.room, s.size + x.room⟩)
        (congrArg (· + x.room) hp) hroom hlt with
      | inl hok =>
        refine .inl ⟨hok.1, hok.2.trans ?_⟩
        rw [lay, ← Nat.add_assoc]
      | inr herror =>
        obtain ⟨hgt, m, hm, hothers⟩ := herror
        refine .inr ⟨hgt, m, hm, fun k hk => (hothers k hk).trans ?_⟩
        exact overwrite_of_ge (by omega)
    · rw [if_neg hroom]
      exact .inr ⟨by omega, s.memory, rfl, fun k _ => rfl⟩

/-- The serialized form is written where there is room for it, and nothing outside of the room
otherwise. -/
theorem Ordered.serialize_cases (h : b.Ordered) (hend : b.internalEnd ≤ d.size) (hd : d.Allocated)
    (memory : ℕ → UInt8) (maxSize : ℕ) :
    b.getSerializedSize ≤ maxSize ∧
        b.serialize d memory maxSize = (1, lay memory 0 (sections d b)) ∨
      maxSize < b.getSerializedSize ∧ (b.serialize d memory maxSize).1 = 0 ∧
        ∀ k, maxSize ≤ k → (b.serialize d memory maxSize).2 k = memory k := by
  obtain ⟨hbytes, hlt⟩ := h.total_lt hend hd
  have hstart := length_startBytes d b
  have hstop := length_endBytes d b
  have hserialize : b.serialize d memory maxSize =
      match putAll maxSize ⟨memory, 0, 0⟩ (sections d b) with
      | .ok s => (1, s.memory)
      | .error memory => (0, memory) := by
    have h1 := h.start_le
    have h2 := h.zeroArea_le
    have h3 := h.zeroAreaEnd_le
    have h4 := h.stop_lt
    have hpadStart := padded_of_lt (x := b.zeroAreaStart - b.start) (by omega)
    have hpadEnd := padded_of_lt (x := b.stop - b.zeroAreaEnd) (by omega)
    rw [serialize, uint32Sub_of_le h1 (by omega), uint32Sub_of_le h2 (by omega),
      uint32Sub_of_le h3 h4]
    simp only [putAll, sections, List.foldlM_cons, List.foldlM_nil, bind_pure, word, inWords, hstart,
      hstop, hpadStart, hpadEnd]
    rfl
  rw [hserialize, h.getSerializedSize_eq hend hd]
  cases putAll_cases (sections d b) (s := ⟨memory, 0, 0⟩) rfl (Nat.zero_le maxSize)
    (by rwa [Nat.zero_add]) with
  | inl hok =>
    rw [Nat.zero_add] at hok
    exact .inl ⟨hok.1, by rw [hok.2]⟩
  | inr herror =>
    obtain ⟨hgt, m, hm, hothers⟩ := herror
    rw [Nat.zero_add] at hgt
    rw [hm]
    exact .inr ⟨hgt, rfl, hothers⟩

/-- The address is written whatever was there before. -/
def Writes (d : BufferData) (b : Buffer) (maxSize k : ℕ) : Prop :=
  ∀ memory memory', (b.serialize d memory maxSize).2 k = (b.serialize d memory' maxSize).2 k

end Sections

section Reading
variable {garbage : ℕ → ℕ → UInt8} {m m₀ m₁ m₂ m₃ m₄ : BufferMemory} {b₀ b₁ b₂ : Buffer}
  {memory : ℕ → UInt8} {z : ℕ} {l l' : List UInt8}

theorem readWord_of_slice {p v : ℕ} (h : slice memory p 4 = wordBytes v) (hv : v < 2 ^ 32) :
    readWord memory p = v := by
  rw [readWord, h, wordBytes, List.reverse_reverse, BigEndian.ofBytes_toBytes]
  exact hv.trans_eq (by norm_num)

theorem slice_word (f : ℕ → UInt8) (a v : ℕ) (sections : List (Padded UInt8)) :
    slice (lay f a (word v :: sections)) a 4 = wordBytes v := by
  have hslice := slice_lay f a (word v) sections
  rw [word] at hslice ⊢
  dsimp only at hslice
  rwa [length_wordBytes] at hslice

theorem guard_of {p : Prop} [Decidable p] (h : p) : (guard p : Option Unit) = some () := if_pos h

/-- What `Deserialize` reads. -/
structure Reads (memory : ℕ → UInt8) (z : ℕ) (l l' : List UInt8) : Prop where
  zeroSize : readWord memory 0 = z
  startLength : readWord memory 4 = l.length
  start : slice memory 8 l.length = l
  stopLength : readWord memory (8 + padded l.length) = l'.length
  stop : slice memory (8 + padded l.length + 4) l'.length = l'

/-- The serialized form is read back. -/
theorem reads_lay {d : BufferData} {b : Buffer} (h : b.Ordered) (hend : b.internalEnd ≤ d.size)
    (hd : d.Allocated) (memory : ℕ → UInt8) :
    Reads (lay memory 0 (sections d b)) b.zeroSize (startBytes d b) (endBytes d b) := by
  obtain ⟨hbytes, -⟩ := h.total_lt hend hd
  have hstart := length_startBytes d b
  have hstop := length_endBytes d b
  have hzero : b.zeroSize < 2 ^ 32 := by
    obtain ⟨h1, h2, h3, h4⟩ := h
    rw [zeroSize]
    omega
  have hpad : 8 + padded (startBytes d b).length = 0 + 4 + 4 + (inWords (startBytes d b)).room := by
    rw [padded_of_lt (by omega)]
    rfl
  refine ⟨readWord_of_slice ?_ hzero, readWord_of_slice ?_ (by omega), ?_,
    readWord_of_slice ?_ (by omega), ?_⟩
  · exact slice_word _ _ _ _
  · exact slice_word _ (0 + 4) _ _
  · exact slice_lay _ (0 + 4 + 4) (inWords (startBytes d b)) _
  · rw [hpad]
    exact slice_word _ _ _ _
  · rw [hpad]
    exact slice_lay _ _ (inWords (endBytes d b)) _

/-- The bytes of the form, with the word for its size that comes before it. -/
theorem deserialize_eq (hreads : Reads memory z l l') (hlt : l.length + l'.length + 19 < 2 ^ 32)
    {flag flag' : Bool} {it : BufferIterator}
    (hconstruct : construct garbage m z = (b₀, m₀))
    (hstart : addAtStart garbage m₀ b₀ l.length = some (flag, b₁, m₁))
    (hwrite : (BufferIterator.ofBegin b₁).write m₁ l = some m₂)
    (hstop : addAtEnd garbage m₂ b₁ l'.length = some (flag', b₂, m₃))
    (hprev : (BufferIterator.ofEnd b₂).prev l'.length = some it)
    (hwrite' : it.write m₃ l' = some m₄) :
    deserialize garbage m memory (uint32 (12 + padded l.length + padded l'.length + 4)) =
      some (1, b₂, m₄) := by
  obtain ⟨hzero, hlength, hslice, hlength', hslice'⟩ := hreads
  obtain ⟨hpad, hpad', hpads⟩ : l.length ≤ padded l.length ∧ l'.length ≤ padded l'.length ∧
      12 + padded l.length + padded l'.length < 2 ^ 32 := by
    rw [padded_of_lt (by omega), padded_of_lt (by omega)]
    omega
  simp only [deserialize, hzero, hlength, hconstruct]
  generalize padded l.length = n at *
  have hsize : uint32Sub (uint32 (12 + n + padded l'.length + 4)) 4 = 12 + n + padded l'.length := by
    rw [uint32, uint32Sub]
    omega
  have hsize₁ : uint32Sub (12 + n + padded l'.length) 4 = 8 + n + padded l'.length := by
    rw [uint32Sub_of_le (by omega) hpads]
    omega
  have hsize₂ : uint32Sub (8 + n + padded l'.length) 4 = 4 + n + padded l'.length := by
    rw [uint32Sub_of_le (by omega) (by omega)]
    omega
  have hsize₃ : uint32Sub (4 + n + padded l'.length) n = 4 + padded l'.length := by
    rw [uint32Sub_of_le (by omega) (by omega)]
    omega
  have hsize₄ : uint32Sub (4 + padded l'.length) 4 = padded l'.length := by
    rw [uint32Sub_of_le (by omega) (by omega)]
    omega
  have hsize₅ : uint32Sub (padded l'.length) (padded l'.length) = 0 := by
    rw [uint32Sub_of_le le_rfl (by omega), Nat.sub_self]
  simp only [hsize, hsize₁, hsize₂, hsize₃, hsize₄, hlength', hsize₅]
  generalize padded l'.length = n' at *
  simp only [Option.bind_eq_bind]
  rw [guard_of (by omega), Option.bind_some, guard_of (by omega), Option.bind_some, hstart,
    Option.bind_some, guard_of (by omega), Option.bind_some, hslice, hwrite, Option.bind_some,
    guard_of (by omega), Option.bind_some, hstop, Option.bind_some, guard_of hpad',
    Option.bind_some, hprev, Option.bind_some, hslice', hwrite', Option.bind_some,
    guard_of trivial, Option.bind_some]

/-- Where the start bytes leave the new buffer behind them: its end is that of the bytes, or its
block is full. -/
theorem stop_or_full {m m' : BufferMemory} {b b' : Buffer} {n : ℕ} {flag : Bool} (h : b.Ordered)
    (hpos : 0 < (m.heap b.data).count) (hdirty : (m.heap b.data).dirtyStart ≤ b.start)
    (hne : b.data ≠ m.nextData) (hn : b.stop - b.start + n < 2 ^ 32) (hstart : b.start ≤ 1)
    (hend : b.internalEnd = b.start) (hsize : (m.heap b.data).size = 1)
    (hadd : addAtStart garbage m b n = some (flag, b', m')) :
    b'.stop ≤ b.stop - b.start + n ∨ b'.internalEnd = 1 ∧ (m'.heap b'.data).size = 1 := by
  rw [addAtStart_cases h hpos hdirty hne hn] at hadd
  split at hadd
  · obtain ⟨-, hb, hm⟩ := Prod.mk.inj (Option.some.inj hadd) |>.imp_right Prod.mk.inj
    rw [← hb, ← hm]
    by_cases hzero : b.start = 0
    · left
      dsimp only [noteZeroArea]
      omega
    · right
      refine ⟨?_, ?_⟩
      · show b.internalEnd = 1
        omega
      · show ((m.setData b.data _).heap b.data).size = 1
        simp only [BufferMemory.setData, Function.update_self]
        exact hsize
  · obtain ⟨-, hb, -⟩ := Prod.mk.inj (Option.some.inj hadd) |>.imp_right Prod.mk.inj
    rw [← hb]
    exact .inl le_rfl

end Reading

end Buffer

namespace BufferIterator

theorem store_size (m : BufferMemory) (it : BufferIterator) (a : ℕ) (l : List UInt8) (p : ℕ) :
    ((it.store m a l).heap p).size = (m.heap p).size := by
  simp only [store, BufferMemory.setData]
  by_cases hp : p = it.data
  · rw [hp, Function.update_self]
  · rw [Function.update_of_ne hp]

end BufferIterator

namespace BufferWorld
open Buffer
variable {w : BufferWorld} {memory : ℕ → UInt8} {z : ℕ} {l l' : List UInt8}

/-- The bytes are read into a new buffer, unless its offsets do not have 32 bits. -/
theorem Holds.deserialize_fits (h : w.Holds) (garbage : ℕ → ℕ → UInt8) (hreads : Reads memory z l l')
    (hfit : l.length + z + l'.length < 2 ^ 32) (hlt : l.length + l'.length + 19 < 2 ^ 32)
    (hz : min 1 w.memory.recommendedStart + z < 2 ^ 32) :
    ∃ b m, Buffer.deserialize garbage w.memory memory
        (uint32 (12 + padded l.length + padded l'.length + 4)) = some (1, b, m) ∧
      b.copyData (m.heap b.data) = l ++ List.replicate z 0 ++ l' ∧
      ∀ j c, w.buffer j = some c → c.copyData (m.heap c.data) = w.bytes c := by
  obtain ⟨b₀, m₀, hconstruct, h₀, hzeros, hothers₀⟩ := @Holds.construct garbage w h z hz
  obtain ⟨m₀', hconstruct', hheap₀, -⟩ := construct_eq garbage w.memory z
  obtain ⟨hb₀', rfl⟩ := Prod.mk.inj (hconstruct.symm.trans hconstruct')
  have hb₀ : (w.addBuffer (b₀, m₀)).buffer w.buffers.length = some b₀ := by
    rw [buffer_addBuffer, if_pos rfl]
  have hord₀ := h₀.ordered _ b₀ hb₀
  have hlen₀ := hord₀.length_copyData (m₀.heap b₀.data)
  rw [hzeros, List.length_replicate] at hlen₀
  obtain ⟨flag, b₁, m₁, hstart, -, -, -, hext⟩ := h₀.prepend garbage hb₀ (l := l) (by omega)
  have hwrite := hext.region.write (m := m₁) le_rfl
  have hb₁ : ((w.addBuffer (b₀, m₀)).setBuffer w.buffers.length (b₁,
      (BufferIterator.ofBegin b₁).store m₁ b₁.start l)).buffer w.buffers.length = some b₁ := by
    rw [buffer_setBuffer hb₀, if_pos rfl]
  have hord₁ := hext.holds.ordered _ b₁ hb₁
  have hlen₁ := congrArg List.length hext.bytes
  rw [hord₁.length_copyData, List.length_append, bytes, hord₀.length_copyData] at hlen₁
  have hfull : b₁.stop ≤ z + l.length ∨ b₁.internalEnd = 1 ∧ (m₁.heap b₁.data).size = 1 := by
    rw [hlen₀]
    refine stop_or_full hord₀ (h₀.count_pos hb₀) (h₀.dirtyStart _ b₀ hb₀) (h₀.fresh _ b₀ hb₀).ne
      (by omega) ?_ ?_ ?_ hstart
    · rw [hb₀']
      exact Nat.min_le_left _ _
    · rw [hb₀', internalEnd, zeroSize, uint32_of_lt hz]
      dsimp only
      omega
    · rw [hb₀']
      exact congrArg BufferData.size hheap₀
  have hkept (hkeep : b₁.KeepsAtEnd (((BufferIterator.ofBegin b₁).store m₁ b₁.start l).heap b₁.data)
      l'.length) : b₁.stop + l'.length < 2 ^ 32 := by
    cases hfull with
    | inl hle => omega
    | inr hone =>
      have hroom := hkeep.1
      rw [hord₁.getInternalEnd_eq, hone.1, BufferIterator.store_size, hone.2,
        uint32_of_lt (by omega)] at hroom
      have := hord₁.stop_lt
      omega
  obtain ⟨flag', b₂, m₂, it, hstop, hprev, -, -, -, -, hext'⟩ := @Holds.append garbage _ _ _ l'
    hext.holds hb₁ (by omega) hkept (fun _ => by omega)
  have hwrite' := hext'.region.write (m := m₂) le_rfl
  refine ⟨b₂, _, deserialize_eq hreads hlt hconstruct hstart hwrite hstop hprev hwrite', ?_,
    fun j c hc => ?_⟩
  · refine hext'.bytes.trans (congrArg (· ++ l') (hext.bytes.trans ?_))
    exact congrArg (l ++ ·) hzeros
  · have hj : j ≠ w.buffers.length := (SharedBlocks.lt_length_of_join hc).ne
    have hc₀ : (w.addBuffer (b₀, m₀)).buffer j = some c := by
      rw [buffer_addBuffer, if_neg hj, hc]
    have hc₁ := (hext'.others j c hj (by rw [buffer_setBuffer hb₀, if_neg hj, hc₀]))
    exact hc₁.trans ((hext.others j c hj hc₀).trans (hothers₀ j c hc))

/-- A zero area that ends at 2 ^ 32: the offsets wrap, and the bytes are the same. -/
theorem Holds.deserialize_wraps (h : w.Holds) (garbage : ℕ → ℕ → UInt8)
    (hreads : Reads memory z [] []) (hstart : min 1 w.memory.recommendedStart = 1)
    (hz : 1 + z = 2 ^ 32) :
    ∃ b m, Buffer.deserialize garbage w.memory memory
        (uint32 (12 + padded 0 + padded 0 + 4)) = some (1, b, m) ∧
      b.copyData (m.heap b.data) = List.replicate z 0 ∧
      ∀ j c, w.buffer j = some c → c.copyData (m.heap c.data) = w.bytes c := by
  obtain ⟨m₀, hconstruct, hheap, hothers⟩ := construct_eq garbage w.memory z
  have hwrap : uint32 (1 + z) = 0 := by
    rw [hz]
    decide
  have hzero : uint32Sub 0 1 = z := by
    rw [uint32Sub]
    omega
  rw [hstart, hwrap] at hconstruct hheap
  generalize hb : (⟨w.memory.nextData, 1, 1, 0, 1, 0⟩ : Buffer) = b at hconstruct
  have hsame : m₀.setData w.memory.nextData ⟨1, 1, 1, 0, garbage w.memory.nextData⟩ = m₀ := by
    rw [← hheap, BufferMemory.setData, Function.update_eq_self]
  have hadd : Buffer.addAtStart garbage m₀ b 0 = some (false, b, m₀) := by
    simp [Buffer.addAtStart, ← hb, hheap, noteZeroArea, hsame]
  have hwrite : (BufferIterator.ofBegin b).write m₀ [] = some m₀ := by
    simp [BufferIterator.write, BufferIterator.checkNoZero, BufferIterator.ofBegin, ← hb,
      BufferIterator.store_nil]
  have hend : uint32 b.getInternalEnd ≤ 1 := by
    rw [← hb, getInternalEnd]
    dsimp only
    decide
  have hadd' : Buffer.addAtEnd garbage m₀ b 0 = some (false, b, m₀) := by
    have hzero' : uint32 0 = 0 := by decide
    rw [← hb] at hend ⊢
    simp [Buffer.addAtEnd, hheap, noteZeroArea, hsame, hend, hzero']
  have hprev : (BufferIterator.ofEnd b).prev 0 = some (BufferIterator.ofEnd b) := rfl
  have hwrite' : (BufferIterator.ofEnd b).write m₀ [] = some m₀ := by
    simp [BufferIterator.write, BufferIterator.checkNoZero, BufferIterator.ofEnd, ← hb,
      BufferIterator.store_nil]
  have hdeserialize := deserialize_eq hreads (by norm_num) hconstruct hadd hwrite hadd' hprev hwrite'
  rw [List.length_nil] at hdeserialize
  refine ⟨b, m₀, hdeserialize, ?_, fun j c hc => ?_⟩
  · have hempty : uint32Sub 1 1 = 0 := by decide
    have hempty' : uint32Sub 0 0 = 0 := by decide
    rw [copyData, ← hb]
    dsimp only
    rw [hempty, hempty', hzero, slice_zero, List.nil_append, List.append_nil]
  · rw [hothers _ (h.fresh j c hc).ne]
    rfl

/-- The bytes are read into a new buffer. -/
theorem Holds.deserialize (h : w.Holds) (garbage : ℕ → ℕ → UInt8) (hreads : Reads memory z l l')
    (hfit : l.length + z + l'.length < 2 ^ 32) (hlt : l.length + l'.length + 19 < 2 ^ 32) :
    ∃ b m, Buffer.deserialize garbage w.memory memory
        (uint32 (12 + padded l.length + padded l'.length + 4)) = some (1, b, m) ∧
      b.copyData (m.heap b.data) = l ++ List.replicate z 0 ++ l' ∧
      ∀ j c, w.buffer j = some c → c.copyData (m.heap c.data) = w.bytes c := by
  by_cases hz : min 1 w.memory.recommendedStart + z < 2 ^ 32
  · exact h.deserialize_fits garbage hreads hfit hlt hz
  · obtain rfl : l = [] := List.eq_nil_of_length_eq_zero (by omega)
    obtain rfl : l' = [] := List.eq_nil_of_length_eq_zero (by omega)
    rw [List.append_nil]
    exact h.deserialize_wraps garbage hreads (by omega) (by omega)

end BufferWorld

namespace Buffer
variable {b : Buffer} {d : BufferData}

/-- The addresses of the serialized form are written, apart from the padding of the start bytes and
of the end bytes. -/
theorem Ordered.writes_iff (h : b.Ordered) (hend : b.internalEnd ≤ d.size) (hd : d.Allocated)
    {maxSize k : ℕ} (hle : b.getSerializedSize ≤ maxSize) :
    Writes d b maxSize k ↔ Written 0 (sections d b) k := by
  have hserialize (memory : ℕ → UInt8) :
      (b.serialize d memory maxSize).2 = lay memory 0 (sections d b) := by
    cases h.serialize_cases hend hd memory maxSize with
    | inl hfits => rw [hfits.2]
    | inr hshort => exact absurd hle hshort.1.not_ge
  simp only [Writes, hserialize]
  constructor
  · intro hsame
    by_contra hnot
    have hk := hsame (fun _ => 0) (fun _ => 1)
    rw [lay_of_not_written hnot, lay_of_not_written hnot] at hk
    exact absurd hk (by decide)
  · intro hwritten memory memory'
    exact lay_of_written hwritten

/-- The addresses of the sizes, of the start bytes and of the end bytes. -/
def Unpadded (b : Buffer) (k : ℕ) : Prop :=
  let dataEnd := 8 + padded (uint32Sub b.zeroAreaStart b.start)
  k < 8 + uint32Sub b.zeroAreaStart b.start ∨
    dataEnd ≤ k ∧ k < dataEnd + 4 + uint32Sub b.stop b.zeroAreaEnd

theorem Ordered.written_iff (h : b.Ordered) (hend : b.internalEnd ≤ d.size) (hd : d.Allocated)
    {k : ℕ} : Written 0 (sections d b) k ↔ b.Unpadded k := by
  obtain ⟨hbytes, -⟩ := h.total_lt hend hd
  have hstart := length_startBytes d b
  have hstop := length_endBytes d b
  obtain ⟨h1, h2, h3, h4⟩ := h
  rw [Unpadded, uint32Sub_of_le h1 (by omega), uint32Sub_of_le h3 h4, padded_of_lt (by omega)]
  simp only [sections, Written, word, inWords, length_wordBytes, hstart, hstop, or_false]
  omega

/-- What `Serialize` does with room for `maxSize` bytes, and `Deserialize` with what it has written. -/
structure Serializes (d : BufferData) (b : Buffer) (maxSize : ℕ) (Written : ℕ → Prop) : Prop where
  returned : ∀ memory, (b.serialize d memory maxSize).1 =
    if b.getSerializedSize ≤ maxSize then 1 else 0
  written : b.getSerializedSize ≤ maxSize → ∀ k, Writes d b maxSize k ↔ Written k
  within : ∀ memory k, maxSize ≤ k ∨ b.getSerializedSize ≤ maxSize ∧ ¬Written k →
    (b.serialize d memory maxSize).2 k = memory k
  read : b.getSerializedSize ≤ maxSize → ∀ (garbage : ℕ → ℕ → UInt8) (w : BufferWorld),
    w.Holds → ∀ memory, ∃ b' m', deserialize garbage w.memory (b.serialize d memory maxSize).2
        (uint32 (b.getSerializedSize + 4)) = some (1, b', m') ∧
      b'.copyData (m'.heap b'.data) = b.copyData d

/-- Exactly what fits is serialized, in the first bytes apart from the padding, and read back. -/
theorem serializes (h : b.CheckInternalState d) (hlt : b.stop < 2 ^ 32) (hd : d.Allocated)
    (maxSize : ℕ) : Serializes d b maxSize b.Unpadded := by
  have hord : b.Ordered := ⟨h.start_le, h.zeroArea_le, h.zeroAreaEnd_le, hlt⟩
  have hend : b.internalEnd ≤ d.size := h.internalEnd_le
  obtain ⟨hbytes, htotal⟩ := hord.total_lt hend hd
  have hstart := length_startBytes d b
  have hstop := length_endBytes d b
  refine ⟨fun memory => ?_, fun hle k => ?_, fun memory k hk => ?_, fun hle garbage w hw memory => ?_⟩
  · cases hord.serialize_cases hend hd memory maxSize with
    | inl hfits => rw [hfits.2, if_pos hfits.1]
    | inr hshort => rw [hshort.2.1, if_neg hshort.1.not_ge]
  · rw [hord.writes_iff hend hd hle, hord.written_iff hend hd]
  · cases hord.serialize_cases hend hd memory maxSize with
    | inl hfits =>
      rw [hfits.2]
      cases hk with
      | inl hge =>
        refine lay_of_ge ?_
        rw [Nat.zero_add, ← hord.getSerializedSize_eq hend hd]
        exact hfits.1.trans hge
      | inr hpad => exact lay_of_not_written fun hk => hpad.2 ((hord.written_iff hend hd).mp hk)
    | inr hshort => exact hshort.2.2 k (hk.resolve_right fun hle => hshort.1.not_ge hle.1)
  · cases hord.serialize_cases hend hd memory maxSize with
    | inl hfits =>
      have hzeros : (startBytes d b).length + b.zeroSize + (endBytes d b).length < 2 ^ 32 := by
        rw [hstart, hstop, zeroSize]
        have := h.start_le
        have := h.zeroArea_le
        have := h.zeroAreaEnd_le
        omega
      obtain ⟨b', m', hread, hbytes', -⟩ := hw.deserialize garbage
        (reads_lay hord hend hd memory) hzeros (by omega)
      refine ⟨b', m', ?_, hbytes'.trans (hord.copyData_eq d).symm⟩
      have hsize : b.getSerializedSize =
          12 + padded (startBytes d b).length + padded (endBytes d b).length := by
        rw [hord.getSerializedSize_eq hend hd, total_sections, padded_of_lt (by omega),
          padded_of_lt (by omega), hstart, hstop]
        omega
      rw [hfits.2, hsize]
      exact hread
    | inr hshort => exact absurd hle hshort.1.not_ge

/-- A start byte, two zeros and three end bytes. -/
def exampleBuffer : Buffer := ⟨0, 1, 1, 3, 0, 6⟩

def exampleData : BufferData := ⟨1, 4, 0, 6, fun k => UInt8.ofNat (k + 7)⟩

theorem exampleBuffer_checks : exampleBuffer.CheckInternalState exampleData := by
  constructor <;> decide

theorem serializes_example : Serializes exampleData exampleBuffer 20 exampleBuffer.Unpadded :=
  serializes exampleBuffer_checks (by decide) (by decide) 20

/-- The padding of the start byte is not written. -/
theorem not_serializes : ¬∀ (d : BufferData) (b : Buffer) (maxSize : ℕ), b.CheckInternalState d →
    b.stop < 2 ^ 32 → d.Allocated → Serializes d b maxSize (· < b.getSerializedSize) := by
  intro h
  have hserializes := h exampleData exampleBuffer 20 exampleBuffer_checks (by decide) (by decide)
  have hwrites := (hserializes.written (by decide) 9).mpr (by decide) (fun _ => 0) (fun _ => 1)
  exact absurd hwrites (by decide +kernel)

example : (exampleBuffer.serialize exampleData (fun _ => 0) 19).1 = 0 := by decide +kernel

end Buffer

end Ns3Noc
