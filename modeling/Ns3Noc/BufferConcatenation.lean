import Mathlib
import Ns3Noc.BufferExtensions

/-!
# BufferConcatenation

A buffer behind another one. Where the zero area of the second one follows that of the first one,
the zero areas are joined, and the end bytes are written behind them. Otherwise copies without zero
areas are put together.
-/
namespace Ns3Noc
open ByteSlices PartialRuns

def BufferMemory.setDirtyEnd (m : BufferMemory) (p e : ℕ) : BufferMemory :=
  m.setData p { m.heap p with dirtyEnd := e }

theorem BufferMemory.setDirtyEnd_heap (m : BufferMemory) (p e : ℕ) :
    (m.setDirtyEnd p e).heap p = { m.heap p with dirtyEnd := e } :=
  Function.update_self _ _ _

namespace Buffer
variable (garbage : ℕ → ℕ → UInt8)

def createFullCopy (m : BufferMemory) (b : Buffer) : Option (Buffer × BufferMemory) :=
  let zeroSize := uint32Sub b.zeroAreaEnd b.zeroAreaStart
  if zeroSize ≠ 0 then do
    let (tmp, m) := construct garbage m 0
    let (_, tmp, m) ← addAtStart garbage m tmp zeroSize
    let m ← (BufferIterator.ofBegin tmp).writeU8s m 0 zeroSize
    let dataStart := uint32Sub b.zeroAreaStart b.start
    let (_, tmp, m) ← addAtStart garbage m tmp dataStart
    let m ← (BufferIterator.ofBegin tmp).write m (slice (m.heap b.data).data b.start dataStart)
    let dataEnd := uint32Sub b.stop b.zeroAreaEnd
    let (_, tmp, m) ← addAtEnd garbage m tmp dataEnd
    let i ← (BufferIterator.ofEnd tmp).prev dataEnd
    let m ← i.write m (slice (m.heap b.data).data b.zeroAreaStart dataEnd)
    some (tmp, m)
  else some (b.copy m)

/-- The condition of the optimization in `AddAtEnd (o)`. -/
def JoinsZeroAreas (d : BufferData) (b o : Buffer) : Prop :=
  d.count = 1 ∧ b.stop = b.zeroAreaEnd ∧ b.stop = d.dirtyEnd ∧ o.start = o.zeroAreaStart ∧
    uint32Sub o.zeroAreaEnd o.zeroAreaStart > 0

instance (d : BufferData) (b o : Buffer) : Decidable (JoinsZeroAreas d b o) :=
  inferInstanceAs (Decidable (_ ∧ _))

/-- `AddAtEnd (o)`. The copies are destroyed at the end. -/
def addAtEndBuffer (m : BufferMemory) (b o : Buffer) : Option (Buffer × BufferMemory) :=
  if JoinsZeroAreas (m.heap b.data) b o then do
    let zeroSize := uint32Sub o.zeroAreaEnd o.zeroAreaStart
    let zeroAreaEnd := uint32 (b.zeroAreaEnd + zeroSize)
    let b := { b with zeroAreaEnd := zeroAreaEnd, stop := zeroAreaEnd }
    let m := m.setData b.data { m.heap b.data with dirtyEnd := zeroAreaEnd }
    let endData := uint32Sub o.stop o.zeroAreaEnd
    let (_, b, m) ← addAtEnd garbage m b endData
    let dst ← (BufferIterator.ofEnd b).prev endData
    let src ← (BufferIterator.ofEnd o).prev endData
    let m ← dst.writeIterator m src (BufferIterator.ofEnd o)
    some (b, m)
  else do
    let (dst, m) ← createFullCopy garbage m b
    let (src, m) ← createFullCopy garbage m o
    let (_, dst, m) ← addAtEnd garbage m dst src.getSize
    let destStart ← (BufferIterator.ofEnd dst).prev src.getSize
    let m ← destStart.writeIterator m (BufferIterator.ofBegin src) (BufferIterator.ofEnd src)
    let (b, m) := b.assign m dst
    some (b, dst.destroy (src.destroy m))

/-- Neither buffer has a zero area, and the first one is extended in the block of both. -/
def Clashes (d : BufferData) (b o : Buffer) : Prop :=
  b.zeroSize = 0 ∧ o.zeroSize = 0 ∧ b.data = o.data ∧
    uint32 (b.getInternalEnd + o.getSize) ≤ d.size ∧ d.dirtyEnd ≤ b.stop

instance (d : BufferData) (b o : Buffer) : Decidable (Clashes d b o) :=
  inferInstanceAs (Decidable (_ ∧ _))

variable {garbage} {m m' : BufferMemory} {b b' : Buffer} {d d' : BufferData} {n : ℕ} {flag : Bool}

/-- Blocks in which a buffer has the same bytes have the same start and end bytes. -/
theorem Ordered.slices_of_copyData (h : b.Ordered) (heq : b.copyData d = b.copyData d') :
    startBytes d b = startBytes d' b ∧ endBytes d b = endBytes d' b := by
  rw [h.copyData_eq, h.copyData_eq] at heq
  obtain ⟨hfront, hend⟩ := List.append_inj heq (by simp)
  exact ⟨(List.append_inj hfront (by simp)).1, hend⟩

/-- A buffer that stops with its zero area has no end bytes. -/
theorem Ordered.copyData_of_stop (h : b.Ordered) (hstop : b.stop = b.zeroAreaEnd) :
    b.copyData d = slice d.data b.start (b.zeroAreaStart - b.start) ++
      List.replicate b.zeroSize 0 := by
  rw [h.copyData_eq, hstop, Nat.sub_self, slice_zero, List.append_nil]

/-- The buffer with `z` zeros behind it, where it stops with its zero area. -/
def moreZeros (b : Buffer) (z : ℕ) : Buffer :=
  { b with zeroAreaEnd := b.stop + z, stop := b.stop + z }

/-- `AddAtEnd` moves the end of the buffer by no more than the bytes it adds. -/
theorem stop_of_addAtEnd (h : b.Ordered) (hpos : 0 < (m.heap b.data).count)
    (hstop : b.stop ≤ (m.heap b.data).dirtyEnd) (hne : b.data ≠ m.nextData)
    (hn : b.stop + n < 2 ^ 32) (hadd : addAtEnd garbage m b n = some (flag, b', m')) :
    b'.stop ≤ b.stop + n := by
  rw [addAtEnd_cases h hpos hstop hne (by omega) (fun _ => hn) (fun _ => by omega)] at hadd
  split at hadd
  · obtain ⟨-, hb, -⟩ := Prod.mk.inj (Option.some.inj hadd) |>.imp_right Prod.mk.inj
    rw [← hb]
    exact le_rfl
  · obtain ⟨-, hb, -⟩ := Prod.mk.inj (Option.some.inj hadd) |>.imp_right Prod.mk.inj
    rw [← hb]
    dsimp only [movedTo]
    omega

/-- The last bytes of a buffer are those before its internal end. -/
theorem Ordered.drop_copyData (h : b.Ordered) (hn : b.zeroAreaEnd + n ≤ b.stop) :
    (b.copyData d).drop (b.stop - b.start - n) = slice d.data (b.internalEnd - n) n := by
  obtain ⟨h1, h2, h3, h4⟩ := h
  have hfront : (slice d.data b.start (b.zeroAreaStart - b.start) ++ List.replicate b.zeroSize 0 ++
      slice d.data b.zeroAreaStart (b.stop - b.zeroAreaEnd - n)).length = b.stop - b.start - n := by
    rw [List.length_append, List.length_append, length_slice, length_slice, List.length_replicate,
      zeroSize]
    omega
  have hsplit : b.stop - b.zeroAreaEnd = b.stop - b.zeroAreaEnd - n + n := by omega
  have hplace : b.zeroAreaStart + (b.stop - b.zeroAreaEnd - n) = b.internalEnd - n := by
    rw [internalEnd, zeroSize]
    omega
  rw [Ordered.copyData_eq ⟨h1, h2, h3, h4⟩, hsplit, slice_add, ← List.append_assoc, ← hfront,
    List.drop_left, hplace]

theorem createFullCopy_of_zero (h : b.Ordered) (hz : b.zeroSize = 0) :
    createFullCopy garbage m b = some (b.copy m) := by
  have hzero : ¬uint32Sub b.zeroAreaEnd b.zeroAreaStart ≠ 0 := by
    rw [uint32Sub_of_le h.zeroArea_le (h.zeroAreaEnd_le.trans_lt h.stop_lt)]
    exact not_not_intro hz
  rw [createFullCopy]
  dsimp only
  rw [if_neg hzero]

theorem data_of_addAtEnd (hkeep : b.KeepsAtEnd (m.heap b.data) n)
    (hadd : addAtEnd garbage m b n = some (flag, b', m')) : b'.data = b.data := by
  rw [KeepsAtEnd] at hkeep
  rw [addAtEnd] at hadd
  dsimp only at hadd
  rw [if_pos hkeep] at hadd
  split at hadd
  · obtain ⟨-, hb, -⟩ := Prod.mk.inj (Option.some.inj hadd) |>.imp_right Prod.mk.inj
    rw [← hb]
    rfl
  · cases hadd

/-- The first byte that `AddAtEnd` adds is what the block held there, or garbage. -/
theorem byte_of_addAtEnd (h : b.Ordered) (hpos : 0 < (m.heap b.data).count)
    (hstop : b.stop ≤ (m.heap b.data).dirtyEnd) (hne : b.data ≠ m.nextData)
    (hn : b.stop + n < 2 ^ 32) {x : UInt8} (hheld : (m.heap b.data).data b.internalEnd = x)
    (hgarbage : ∀ k, garbage m.nextData k = x)
    (hadd : addAtEnd garbage m b n = some (flag, b', m')) :
    (m'.heap b'.data).data (b'.internalEnd - n) = x := by
  have hzero : b.zeroSize ≤ b.stop := by
    have := h.zeroAreaEnd_le
    rw [zeroSize]
    omega
  rw [addAtEnd_cases h hpos hstop hne (by omega) (fun _ => hn) (fun _ => by omega)] at hadd
  split at hadd
  · obtain ⟨-, hb, hm⟩ := Prod.mk.inj (Option.some.inj hadd) |>.imp_right Prod.mk.inj
    have hend : b'.internalEnd - n = b.internalEnd := by
      rw [← hb]
      show b.stop + n - b.zeroSize - n = b.stop - b.zeroSize
      omega
    rw [hend, ← hheld, ← hm, ← hb]
    exact congrFun (congrArg BufferData.data (m.setDirtyEnd_heap b.data (b.stop + n))) _
  · obtain ⟨-, hb, hm⟩ := Prod.mk.inj (Option.some.inj hadd) |>.imp_right Prod.mk.inj
    have hend : b'.internalEnd - n = b.internalEnd - b.start := by
      obtain ⟨h1, h2, h3, h4⟩ := h
      rw [← hb]
      simp only [internalEnd, zeroSize, movedTo]
      omega
    have hblock := BufferMemory.moved_new m b.data ⟨1, if b.internalEnd - b.start + n = 0 then 1 else
      b.internalEnd - b.start + n, 0, b.stop - b.start + n, overwrite (garbage m.nextData) 0
        (slice (m.heap b.data).data b.start (b.internalEnd - b.start))⟩
    rw [hend, ← hm, ← hb]
    refine (congrFun (congrArg BufferData.data hblock) _).trans ?_
    have hlength := length_slice (m.heap b.data).data b.start (b.internalEnd - b.start)
    show overwrite (garbage m.nextData) 0 _ _ = x
    rw [overwrite_of_ge (by omega), hgarbage]

end Buffer

theorem BufferIterator.data_of_prev {it it' : BufferIterator} {n : ℕ} (h : it.prev n = some it') :
    it'.data = it.data := by
  rw [prev] at h
  split at h
  · rw [← Option.some.inj h]
  · cases h

theorem BufferIterator.apart_of_writeIterator {it first last : BufferIterator}
    {m m' : BufferMemory} (h : it.writeIterator m first last = some m') : it.data ≠ first.data := by
  rw [writeIterator] at h
  split at h
  · rename_i hall
    exact hall.2.2.2.2.1
  · cases h

theorem BufferIterator.store_heap_of_ne {it : BufferIterator} {p : ℕ} (hp : p ≠ it.data)
    (m : BufferMemory) (a : ℕ) (l : List UInt8) : (it.store m a l).heap p = m.heap p :=
  Function.update_of_ne hp _ _

namespace BufferWorld
open Buffer
variable {w w' : BufferWorld} {i j : ℕ} {a b c o : Buffer} {m : BufferMemory} {l s : List UInt8}

/-- A buffer on a block of its own that comes to a family. -/
structure Added (w : BufferWorld) (b : Buffer) (m : BufferMemory) (s : List UInt8) : Prop where
  holds : (w.addBuffer (b, m)).Holds
  bytes : b.copyData (m.heap b.data) = s
  others : ∀ j c, w.buffer j = some c → c.copyData (m.heap c.data) = w.bytes c
  apart : ∀ j c, w.buffer j = some c → c.data ≠ b.data

theorem buffer_last (w : BufferWorld) (b : Buffer) (m : BufferMemory) :
    (w.addBuffer (b, m)).buffer w.buffers.length = some b := by
  rw [buffer_addBuffer, if_pos rfl]

theorem buffer_before (r : Buffer × BufferMemory) (hc : w.buffer j = some c) :
    j ≠ w.buffers.length ∧ (w.addBuffer r).buffer j = some c := by
  have hj : j ≠ w.buffers.length := (SharedBlocks.lt_length_of_join hc).ne
  refine ⟨hj, ?_⟩
  rw [buffer_addBuffer, if_neg hj, hc]

theorem setBuffer_last (w : BufferWorld) (r r' : Buffer × BufferMemory) :
    (w.addBuffer r).setBuffer w.buffers.length r' = w.addBuffer r' := by
  simp [setBuffer, addBuffer]

theorem Holds.construct_empty (h : w.Holds) (garbage : ℕ → ℕ → UInt8) :
    ∃ b m, Buffer.construct garbage w.memory 0 = (b, m) ∧ b.stop ≤ 1 ∧ b.zeroSize = 0 ∧
      w.Added b m [] := by
  have hlt : min 1 w.memory.recommendedStart < 2 ^ 32 :=
    (Nat.min_le_left _ _).trans_lt (by norm_num)
  obtain ⟨b, m, hconstruct, hholds, hbytes, hothers⟩ := @Holds.construct garbage w h 0 hlt
  obtain ⟨m', hconstruct', -, -⟩ := construct_eq garbage w.memory 0
  obtain ⟨hb, -⟩ := Prod.mk.inj (hconstruct.symm.trans hconstruct')
  rw [Nat.add_zero, uint32_of_lt hlt] at hb
  refine ⟨b, m, hconstruct, ?_, ?_, hholds, hbytes, hothers, fun j c hc => ?_⟩
  · rw [hb]
    exact Nat.min_le_left _ _
  · rw [hb]
    exact Nat.sub_self _
  · rw [hb]
    exact (h.fresh j c hc).ne

theorem Added.prepend (h : w.Added b m s) (garbage : ℕ → ℕ → UInt8)
    (hn : b.stop + l.length < 2 ^ 32) :
    ∃ flag b' m', Buffer.addAtStart garbage m b l.length = some (flag, b', m') ∧
      (BufferIterator.ofBegin b').Region l.length b'.start ∧ b'.stop ≤ b.stop + l.length ∧
      b'.zeroSize = b.zeroSize ∧
      (∀ j c, w.buffer j = some c → c.copyData (m'.heap c.data) = w.bytes c) ∧
      w.Added b' ((BufferIterator.ofBegin b').store m' b'.start l) (l ++ s) := by
  have hlast := buffer_last w b m
  obtain ⟨flag, b', m', hadd, hstop, hzero, hshared, hext⟩ := h.holds.prepend garbage hlast
    (l := l) (by omega)
  have hadded : w.Added b' ((BufferIterator.ofBegin b').store m' b'.start l) (l ++ s) := by
    refine ⟨?_, ?_, fun j c hc => ?_, fun j c hc => ?_⟩
    · rw [← setBuffer_last w (b, m)]
      exact hext.holds
    · exact hext.bytes.trans (congrArg (l ++ ·) h.bytes)
    · obtain ⟨hj, hbefore⟩ := buffer_before (b, m) hc
      exact (hext.others j c hj hbefore).trans (h.others j c hc)
    · obtain ⟨hj, hbefore⟩ := buffer_before (b, m) hc
      exact fun hdata => h.apart j c hc (hshared j c hj hbefore hdata)
  refine ⟨flag, b', m', hadd, hext.region, hstop, hzero, fun j c hc => ?_, hadded⟩
  rw [← hadded.others j c hc, BufferIterator.store_heap_of_ne (hadded.apart j c hc)]

theorem Added.append (h : w.Added b m s) (garbage : ℕ → ℕ → UInt8)
    (hn : b.stop + l.length < 2 ^ 32) :
    ∃ flag b' m' it, Buffer.addAtEnd garbage m b l.length = some (flag, b', m') ∧
      (BufferIterator.ofEnd b').prev l.length = some it ∧
      it.Region l.length (b'.internalEnd - l.length) ∧ b'.stop ≤ b.stop + l.length ∧
      b'.zeroSize = b.zeroSize ∧
      (∀ j c, w.buffer j = some c → c.copyData (m'.heap c.data) = w.bytes c) ∧
      w.Added b' (it.store m' (b'.internalEnd - l.length) l) (s ++ l) := by
  have hlast := buffer_last w b m
  obtain ⟨flag, b', m', it, hadd, hprev, hdata, -, hzero, hshared, hext⟩ := @Holds.append garbage _ _ _ l
    h.holds hlast (by omega) (fun _ => hn) (fun _ => by omega)
  have hstop := stop_of_addAtEnd (h.holds.ordered _ b hlast) (h.holds.count_pos hlast)
    (h.holds.le_dirtyEnd hlast) (h.holds.fresh _ b hlast).ne hn hadd
  have hadded : w.Added b' (it.store m' (b'.internalEnd - l.length) l) (s ++ l) := by
    refine ⟨?_, ?_, fun j c hc => ?_, fun j c hc => ?_⟩
    · rw [← setBuffer_last w (b, m)]
      exact hext.holds
    · exact hext.bytes.trans (congrArg (· ++ l) h.bytes)
    · obtain ⟨hj, hbefore⟩ := buffer_before (b, m) hc
      exact (hext.others j c hj hbefore).trans (h.others j c hc)
    · obtain ⟨hj, hbefore⟩ := buffer_before (b, m) hc
      exact fun hdata => h.apart j c hc (hshared j c hj hbefore hdata).2
  refine ⟨flag, b', m', it, hadd, hprev, hext.region, hstop, hzero, fun j c hc => ?_, hadded⟩
  have hne : c.data ≠ it.data := hdata ▸ hadded.apart j c hc
  rw [← hadded.others j c hc, BufferIterator.store_heap_of_ne hne]

/-- A copy of a buffer with a zero area has its bytes on a block of its own. -/
theorem Holds.createFullCopy_of_pos (h : w.Holds) (garbage : ℕ → ℕ → UInt8)
    (hb : w.buffer i = some b) (hz : 0 < b.zeroSize) (hlt : b.stop - b.start + 1 < 2 ^ 32) :
    ∃ c m, createFullCopy garbage w.memory b = some (c, m) ∧ c.zeroSize = 0 ∧ c.stop ≤ b.stop + 1 ∧
      w.Added c m (w.bytes b) := by
  have hord := h.ordered i b hb
  obtain ⟨h1, h2, h3, h4⟩ := h.ordered i b hb
  have hlength := length_startBytes (w.memory.heap b.data) b
  have hlength' := length_endBytes (w.memory.heap b.data) b
  have hzeros := List.length_replicate (n := b.zeroSize) (a := (0 : UInt8))
  rw [zeroSize] at hz hzeros
  obtain ⟨b₀, m₀, hconstruct, hstop₀, hzero₀, hadded₀⟩ := h.construct_empty garbage
  obtain ⟨flag₁, b₁, m₁, hadd₁, hregion₁, hstop₁, hzero₁, -, hadded₁⟩ := hadded₀.prepend garbage
    (l := List.replicate (b.zeroAreaEnd - b.zeroAreaStart) 0) (by omega)
  obtain ⟨flag₂, b₂, m₂, hadd₂, hregion₂, hstop₂, hzero₂, hothers₂, hadded₂⟩ :=
    hadded₁.prepend garbage (l := startBytes (w.memory.heap b.data) b) (by omega)
  obtain ⟨flag₃, b₃, m₃, it, hadd₃, hprev, hregion₃, hstop₃, hzero₃, hothers₃, hadded₃⟩ :=
    hadded₂.append garbage (l := endBytes (w.memory.heap b.data) b) (by omega)
  have hstart : slice (m₂.heap b.data).data b.start (b.zeroAreaStart - b.start) =
      startBytes (w.memory.heap b.data) b := (hord.slices_of_copyData (hothers₂ i b hb)).1
  have hend : slice (m₃.heap b.data).data b.zeroAreaStart (b.stop - b.zeroAreaEnd) =
      endBytes (w.memory.heap b.data) b := (hord.slices_of_copyData (hothers₃ i b hb)).2
  have hwrite₂ := hregion₂.write (m := m₂) le_rfl
  have hwrite₃ := hregion₃.write (m := m₃) le_rfl
  rw [List.length_replicate] at hadd₁ hregion₁
  rw [hlength] at hadd₂
  rw [hlength'] at hadd₃ hprev
  have hwrite₁ := hregion₁.writeU8s (m := m₁) le_rfl 0
  have hcopy : createFullCopy garbage w.memory b = some (b₃, it.store m₃
      (b₃.internalEnd - (endBytes (w.memory.heap b.data) b).length)
      (endBytes (w.memory.heap b.data) b)) := by
    rw [createFullCopy, uint32Sub_of_le h1 (by omega), uint32Sub_of_le h2 (by omega),
      uint32Sub_of_le h3 h4]
    dsimp only
    rw [if_pos hz.ne', hconstruct]
    simp only [Option.bind_eq_bind]
    rw [hadd₁, Option.bind_some, hwrite₁, Option.bind_some, hadd₂, Option.bind_some, hstart, hwrite₂,
      Option.bind_some, hadd₃, Option.bind_some, hprev, Option.bind_some, hend, hwrite₃,
      Option.bind_some]
  refine ⟨b₃, _, hcopy, hzero₃.trans (hzero₂.trans (hzero₁.trans hzero₀)), by omega, ?_⟩
  have hbytes : startBytes (w.memory.heap b.data) b ++
      (List.replicate (b.zeroAreaEnd - b.zeroAreaStart) 0 ++ []) ++
      endBytes (w.memory.heap b.data) b = w.bytes b := by
    rw [bytes, hord.copyData_eq, List.append_nil]
    rfl
  rw [← hbytes]
  exact hadded₃

theorem destroy_sameBlock (m : BufferMemory) (b : Buffer) (q : ℕ) :
    SameBlock (m.heap q) ((b.destroy m).heap q) :=
  setCount_sameBlock (m.recommend b.maxZeroAreaStart) b.data _ q

/-- What a full copy is: the same window, or the bytes on a block of their own. -/
structure Copied (w : BufferWorld) (b c : Buffer) (m : BufferMemory) : Prop where
  zeroSize : c.zeroSize = 0
  stop_le : c.stop ≤ b.stop + 1
  holds : (w.addBuffer (c, m)).Holds
  bytes : c.copyData (m.heap c.data) = w.bytes b
  others : ∀ j o, w.buffer j = some o → o.copyData (m.heap o.data) = w.bytes o
  shares : ∀ j o, w.buffer j = some o → o.data = c.data →
    b.zeroSize = 0 ∧ (c, m) = b.copy w.memory

theorem Holds.createFullCopy (h : w.Holds) (garbage : ℕ → ℕ → UInt8) (hb : w.buffer i = some b)
    (hlt : b.stop - b.start + 1 < 2 ^ 32) :
    ∃ c m, Buffer.createFullCopy garbage w.memory b = some (c, m) ∧ w.Copied b c m := by
  have hord := h.ordered i b hb
  by_cases hz : b.zeroSize = 0
  · have hwithin : Buffer.Within { b with maxZeroAreaStart := b.zeroAreaStart } b :=
      ⟨rfl, ⟨hord.start_le, hord.zeroArea_le, hord.zeroAreaEnd_le, hord.stop_lt⟩, le_rfl, le_rfl,
        le_rfl⟩
    have hblock := setCount_sameBlock w.memory b.data ((w.memory.heap b.data).count + 1)
    refine ⟨{ b with maxZeroAreaStart := b.zeroAreaStart }, w.memory.acquire b.data, ?_, hz,
      Nat.le_add_right _ _, h.add_within hb hwithin,
      (hblock b.data).copyData_eq b, fun j o _ => (hblock o.data).copyData_eq o,
      fun _ _ _ _ => ⟨hz, rfl⟩⟩
    exact createFullCopy_of_zero hord hz
  · obtain ⟨c, m, hcopy, hzero, hstop, hadded⟩ :=
      h.createFullCopy_of_pos garbage hb (Nat.pos_of_ne_zero hz) hlt
    exact ⟨c, m, hcopy, hzero, hstop, hadded.holds, hadded.bytes, hadded.others,
      fun j o ho hdata => absurd hdata (hadded.apart j o ho)⟩

/-- `AddAtEnd (o)` on buffer `i` of the family does what it should. -/
def Appends (garbage : ℕ → ℕ → UInt8) (w : BufferWorld) (i : ℕ) (b o : Buffer) : Prop :=
  ∃ b' m', addAtEndBuffer garbage w.memory b o = some (b', m') ∧
    b'.copyData (m'.heap b'.data) = w.bytes b ++ w.bytes o ∧
    ∀ k c, k ≠ i → w.buffer k = some c → c.copyData (m'.heap c.data) = w.bytes c

/-- Where copies share their block and the first one is extended in place, so do the buffers. -/
theorem Copied.clashes {dst src : Buffer} {m₁ m₂ : BufferMemory} (hdst : w.Copied b dst m₁)
    (hsrc : (w.addBuffer (dst, m₁)).Copied o src m₂) (ho : w.buffer j = some o)
    (hdata : src.data = dst.data) (hpos : 0 < (w.memory.heap b.data).count)
    (hkeep : dst.KeepsAtEnd (m₂.heap dst.data) o.getSize) :
    Clashes (w.memory.heap b.data) b o := by
  obtain ⟨hzero', hcopy'⟩ := hsrc.shares _ dst (buffer_last w dst m₁) hdata.symm
  obtain ⟨hsrc', hm₂⟩ := Prod.mk.inj hcopy'
  have hodata : o.data = dst.data := by
    rw [← hdata, hsrc']
  obtain ⟨hzero, hcopy⟩ := hdst.shares j o ho hodata
  obtain ⟨hdst', hm₁⟩ := Prod.mk.inj hcopy
  have hbdata : dst.data = b.data := by
    rw [hdst']
  have hheap : m₂ = (w.memory.acquire b.data).acquire b.data := by
    rw [hm₂, hodata, hbdata]
    exact congrArg (BufferMemory.acquire · b.data) hm₁
  have hblock : SameBlock (w.memory.heap b.data) (m₂.heap b.data) := by
    rw [hheap]
    exact (setCount_sameBlock w.memory b.data _ _).trans (setCount_sameBlock _ b.data _ _)
  have hcount : (m₂.heap b.data).count > 1 := by
    rw [hheap, count_acquire, count_acquire, if_pos rfl]
    omega
  rw [hbdata, hdst'] at hkeep
  obtain ⟨hroom, hclean⟩ := hkeep
  refine ⟨hzero, hzero', (hodata.trans hbdata).symm, ?_, ?_⟩
  · rw [← hblock.size]
    exact hroom
  · rw [← hblock.dirtyEnd]
    exact not_lt.mp fun hlt => hclean ⟨hcount, hlt⟩

theorem Holds.appends_copies (h : w.Holds) (garbage : ℕ → ℕ → UInt8) (hb : w.buffer i = some b)
    (ho : w.buffer j = some o) (hfits : b.stop + o.getSize + 1 < 2 ^ 32)
    (hjoin : ¬JoinsZeroAreas (w.memory.heap b.data) b o)
    (hclash : ¬Clashes (w.memory.heap b.data) b o) : Appends garbage w i b o := by
  have hord := h.ordered j o ho
  have hlength := hord.getSize_eq
  obtain ⟨dst, m₁, hcopy₁, hdst⟩ := h.createFullCopy garbage hb (by omega)
  have hlast := buffer_last w dst m₁
  have ho₁ := (buffer_before (dst, m₁) ho).2
  obtain ⟨src, m₂, hcopy₂, hsrc⟩ := hdst.holds.createFullCopy garbage ho₁ (by omega)
  have hsrcLast := buffer_last (w.addBuffer (dst, m₁)) src m₂
  obtain ⟨hne, hdstLast⟩ := buffer_before (src, m₂) hlast
  have hbytes : (w.addBuffer (dst, m₁)).bytes o = w.bytes o := hdst.others j o ho
  have hsrcOrd := hsrc.holds.ordered _ src hsrcLast
  have hsize : (w.bytes o).length = o.getSize := by
    rw [bytes, hord.length_copyData, hord.getSize_eq]
  have hsrcSize : src.getSize = (w.bytes o).length := by
    rw [← hbytes, ← hsrc.bytes, hsrcOrd.length_copyData, hsrcOrd.getSize_eq]
  have hdstStop := hdst.stop_le
  obtain ⟨flag, dst', m₃, it, hadd, hprev, hdata, hcurrent, hzero, hshared, hext⟩ :=
    @Holds.append garbage _ _ _ (w.bytes o) hsrc.holds hdstLast (by omega) (fun _ => by omega)
      (fun _ => by omega)
  have happart : it.data ≠ src.data := by
    intro heq
    obtain ⟨hkeep, hsame⟩ := hshared _ src hne.symm hsrcLast (heq.symm.trans hdata)
    rw [hsize] at hkeep
    exact hclash (hdst.clashes hsrc ho hsame (h.count_pos hb) hkeep)
  have hread : (BufferIterator.ofBegin src).readFrom m₃ (src.stop - src.start) = w.bytes o := by
    have hsame := hext.others _ src hne.symm hsrcLast
    rw [BufferIterator.store_heap_of_ne happart.symm] at hsame
    have hall := BufferIterator.readFrom_atOffset hsrcOrd 0 (src.stop - src.start) (m := m₃)
    rw [List.drop_zero, hsame, List.take_of_length_le] at hall
    · exact hall.trans (hsrc.bytes.trans hbytes)
    · rw [bytes, hsrcOrd.length_copyData]
  have hplace : dst'.internalEnd - (w.bytes o).length = it.current := by
    rw [hcurrent, internalEnd, hzero, hdst.zeroSize, Nat.sub_zero]
  have hwrite : it.writeIterator m₃ (BufferIterator.ofBegin src) (BufferIterator.ofEnd src) =
      some (it.store m₃ (dst'.internalEnd - (w.bytes o).length) (w.bytes o)) := by
    have hle : src.start ≤ src.stop :=
      hsrcOrd.start_le.trans (hsrcOrd.zeroArea_le.trans hsrcOrd.zeroAreaEnd_le)
    have hall : src.stop - src.start ≤ (w.bytes o).length := by
      rw [← hsrcSize, hsrcOrd.getSize_eq]
    have heq := hext.region.writeIterator (m := m₃) (BufferIterator.ofBegin src)
      (BufferIterator.ofEnd src) rfl hle rfl rfl happart hall fun _ => hplace
    exact heq.trans (congrArg (fun l => some (it.store m₃ _ l)) hread)
  obtain ⟨-, hholds₃, hbytes₃, hothers₃⟩ := hext
  generalize it.store m₃ (dst'.internalEnd - (w.bytes o).length) (w.bytes o) = m₄ at *
  have hbefore {k : ℕ} {c : Buffer} (hc : w.buffer k = some c) : k ≠ w.buffers.length ∧
      ((w.addBuffer (dst, m₁)).addBuffer (src, m₂)).buffer k = some c :=
    ⟨(buffer_before (dst, m₁) hc).1, (buffer_before _ (buffer_before (dst, m₁) hc).2).2⟩
  have hb₃ : (((w.addBuffer (dst, m₁)).addBuffer (src, m₂)).setBuffer w.buffers.length
      (dst', m₄)).buffer i = some b := by
    rw [buffer_setBuffer hdstLast, if_neg (hbefore hb).1, (hbefore hb).2]
  have hdst₃ : (((w.addBuffer (dst, m₁)).addBuffer (src, m₂)).setBuffer w.buffers.length
      (dst', m₄)).buffer w.buffers.length = some dst' := by
    rw [buffer_setBuffer hdstLast, if_pos rfl]
  have hblock (q : ℕ) : SameBlock (m₄.heap q)
      ((dst'.destroy (src.destroy (b.assign m₄ dst').2)).heap q) :=
    ((hholds₃.assign hb₃ hdst₃).2 q).trans
      ((destroy_sameBlock _ src q).trans (destroy_sameBlock _ dst' q))
  refine ⟨dst', _, ?_, ((hblock dst'.data).copyData_eq dst').trans (hbytes₃.trans ?_),
    fun k c hk hc => ((hblock c.data).copyData_eq c).trans ?_⟩
  · have hadd' : Buffer.addAtEnd garbage m₂ dst (w.bytes o).length = some (flag, dst', m₃) := hadd
    have hcopy₂' : Buffer.createFullCopy garbage m₁ o = some (src, m₂) := hcopy₂
    rw [addAtEndBuffer, if_neg hjoin]
    simp only [Option.bind_eq_bind]
    rw [hcopy₁, Option.bind_some, hcopy₂', Option.bind_some, hsrcSize, hadd', Option.bind_some, hprev,
      Option.bind_some, hwrite, Option.bind_some]
    rfl
  · exact congrArg (· ++ w.bytes o) ((hsrc.others _ dst hlast).trans hdst.bytes)
  · obtain ⟨hne', hc₂⟩ := hbefore hc
    exact (hothers₃ k c hne' hc₂).trans ((hsrc.others k c (buffer_before _ hc).2).trans
      (hdst.others k c hc))

/-- The iterator at the first of the end bytes reads them. -/
theorem read_endBytes {m : BufferMemory} (h : o.Ordered) :
    ∃ src, (BufferIterator.ofEnd o).prev (o.stop - o.zeroAreaEnd) = some src ∧
      src.data = o.data ∧ src.zeroStart = o.zeroAreaStart ∧ src.zeroEnd = o.zeroAreaEnd ∧
      src.current = o.zeroAreaEnd ∧
      src.readFrom m (o.stop - o.zeroAreaEnd) = endBytes (m.heap o.data) o := by
  have hread := BufferIterator.readFrom_atOffset h (o.zeroAreaEnd - o.start) (o.stop - o.zeroAreaEnd)
    (m := m)
  have hfront : (slice (m.heap o.data).data o.start (o.zeroAreaStart - o.start) ++
      List.replicate o.zeroSize 0).length = o.zeroAreaEnd - o.start := by
    rw [List.length_append, length_slice, List.length_replicate, zeroSize]
    have := h.start_le
    have := h.zeroArea_le
    omega
  rw [h.copyData_eq, ← hfront, List.drop_left, hfront, List.take_of_length_le (by simp)] at hread
  refine ⟨BufferIterator.atOffset o (o.zeroAreaEnd - o.start), ?_, rfl, rfl, rfl, ?_, hread⟩
  · have hcurrent : o.stop - (o.stop - o.zeroAreaEnd) = o.start + (o.zeroAreaEnd - o.start) := by
      obtain ⟨h1, h2, h3, -⟩ := h
      omega
    have hle : (BufferIterator.ofEnd o).current ≥ o.stop - o.zeroAreaEnd := Nat.sub_le _ _
    rw [BufferIterator.prev, if_pos hle]
    dsimp only [BufferIterator.ofEnd]
    rw [hcurrent]
    rfl
  · show o.start + (o.zeroAreaEnd - o.start) = o.zeroAreaEnd
    have := h.start_le
    have := h.zeroArea_le
    omega

/-- A zero area that grows at the end of a buffer alone on its block. -/
theorem Holds.grow_moreZeros (h : w.Holds) (hb : w.buffer i = some b)
    (hone : (w.memory.heap b.data).count = 1) (hstop : b.stop = b.zeroAreaEnd) {z : ℕ}
    (hlt : b.stop + z < 2 ^ 32) :
    (w.setBuffer i (b.moreZeros z, w.memory.setDirtyEnd b.data (b.stop + z))).Holds ∧
    (b.moreZeros z).copyData ((w.memory.setDirtyEnd b.data (b.stop + z)).heap b.data) =
      w.bytes b ++ List.replicate z 0 := by
  have hsize := h.size i b hb
  have hord := h.ordered i b hb
  obtain ⟨h1, h2, h3, h4⟩ := h.ordered i b hb
  have hord₁ : (b.moreZeros z).Ordered := ⟨h1, by dsimp only [moreZeros]; omega, le_rfl, hlt⟩
  have hend : (b.moreZeros z).internalEnd = b.internalEnd := by
    simp only [internalEnd, zeroSize, moreZeros]
    omega
  have hzeros : (b.moreZeros z).zeroSize = b.zeroSize + z := by
    simp only [zeroSize, moreZeros]
    omega
  refine ⟨h.grow hb rfl hord₁ rfl rfl (h.dirtyStart i b hb) (hend.trans_le hsize)
    (fun j c hj hc hdata => absurd (h.alone hb hone hc hdata) hj)
    ⟨b.zeroSize + z, b.internalEnd, ?_, hzeros.le, hend.le,
      fun j c hj hc hdata => absurd (h.alone hb hone hc hdata) hj⟩, ?_⟩
  · simp only [internalEnd, zeroSize]
    omega
  · rw [BufferMemory.setDirtyEnd_heap, hord₁.copyData_of_stop rfl, hzeros, bytes,
      hord.copyData_of_stop hstop, List.append_assoc, List.replicate_append_replicate]
    rfl

/-- What the optimization does: the zeros follow the bytes of the first buffer, and the end bytes are
written at their virtual offset in the block. -/
theorem Holds.addAtEnd_joined (h : w.Holds) (garbage : ℕ → ℕ → UInt8) (hb : w.buffer i = some b)
    (ho : w.buffer j = some o) (hij : i ≠ j) (hfits : b.stop + o.getSize + 1 < 2 ^ 32)
    (hjoin : JoinsZeroAreas (w.memory.heap b.data) b o) :
    ∃ flag b' m' it, Buffer.addAtEnd garbage (w.memory.setDirtyEnd b.data (b.stop + o.zeroSize))
        (b.moreZeros o.zeroSize) (o.stop - o.zeroAreaEnd) = some (flag, b', m') ∧
      addAtEndBuffer garbage w.memory b o = some (b', BufferIterator.store m' it
        (b'.stop - (o.stop - o.zeroAreaEnd)) (endBytes (w.memory.heap o.data) o)) ∧
      it.data = b'.data ∧ b'.Ordered ∧ b'.zeroAreaEnd + (o.stop - o.zeroAreaEnd) ≤ b'.stop ∧
      0 < b'.zeroSize ∧
      b'.copyData (m'.heap b'.data) = w.bytes b ++ List.replicate o.zeroSize 0 ++
        slice (m'.heap b'.data).data (b'.internalEnd - (o.stop - o.zeroAreaEnd))
          (o.stop - o.zeroAreaEnd) ∧
      ∀ k c, k ≠ i → w.buffer k = some c →
        c.copyData (m'.heap c.data) = w.bytes c ∧ c.data ≠ b'.data := by
  obtain ⟨hcount, hstop, hdirty, hostart, hozero⟩ := hjoin
  have hord := h.ordered i b hb
  have hoOrd := h.ordered j o ho
  have hlength := hoOrd.getSize_eq
  obtain ⟨h1, h2, h3, h4⟩ := h.ordered i b hb
  obtain ⟨ho1, ho2, ho3, ho4⟩ := h.ordered j o ho
  have hz : uint32Sub o.zeroAreaEnd o.zeroAreaStart = o.zeroSize :=
    uint32Sub_of_le ho2 (ho3.trans_lt ho4)
  rw [hz] at hozero
  have hsize : o.zeroSize + (o.stop - o.zeroAreaEnd) = o.getSize := by
    rw [hlength, zeroSize]
    omega
  obtain ⟨h₁, hbytes₁⟩ := h.grow_moreZeros hb hcount hstop (z := o.zeroSize) (by omega)
  have hb₁ := (buffer_setBuffer hb (b.moreZeros o.zeroSize,
    w.memory.setDirtyEnd b.data (b.stop + o.zeroSize)) (j := i)).trans (if_pos rfl)
  obtain ⟨flag, b', m', hadd, hholds, hroom, hzero, hcopy, hothers⟩ :=
    @Holds.addAtEnd garbage _ _ (o.stop - o.zeroAreaEnd) _ h₁ hb₁ (by omega)
      (fun _ => by dsimp only [moreZeros]; omega) (fun _ => by dsimp only [moreZeros]; omega)
  have hpos : 0 < b'.zeroSize := by
    rw [hzero]
    simp only [zeroSize, moreZeros] at hozero ⊢
    omega
  have hb' := (buffer_setBuffer hb₁ (b', m') (j := i)).trans (if_pos rfl)
  have hord' := hholds.ordered i b' hb'
  have hbefore (k : ℕ) (c : Buffer) (hk : k ≠ i) (hc : w.buffer k = some c) :
      c.copyData (m'.heap c.data) = w.bytes c ∧ c.data ≠ b'.data := by
    have hne : c.data ≠ b.data := fun hdata => hk (h.alone hb hcount hc hdata)
    obtain ⟨hsame, happart⟩ := hothers k c hk (by rw [buffer_setBuffer hb, if_neg hk, hc])
    refine ⟨hsame.trans ?_, fun hdata => hne (happart hdata).2.1⟩
    exact congrArg (Buffer.copyData · c) (Function.update_of_ne hne _ _)
  obtain ⟨hosame, honame⟩ := hbefore j o hij.symm ho
  obtain ⟨it, hprev, hregion, hdata, hcurrent⟩ := BufferIterator.prev_ofEnd hord' hroom
  obtain ⟨src, hsrc, hsrcData, hsrcStart, hsrcEnd, hsrcCurrent, hread⟩ := read_endBytes (m := m') hoOrd
  have hlast : (BufferIterator.ofEnd o).current - src.current = o.stop - o.zeroAreaEnd :=
    congrArg (o.stop - ·) hsrcCurrent
  have hne : it.data ≠ src.data := by
    rw [hdata, hsrcData]
    exact honame.symm
  have hwrite := hregion.writeIterator_current (m := m') src (BufferIterator.ofEnd o) hsrcData
    (hsrcCurrent.trans_le ho3) hsrcStart hsrcEnd hne hlast.le
  rw [hlast, hread, (hoOrd.slices_of_copyData hosame).2, hcurrent] at hwrite
  refine ⟨flag, b', m', it, hadd, ?_, hdata, hord', hroom, hpos, ?_, hbefore⟩
  · have hend : uint32 (b.zeroAreaEnd + o.zeroSize) = b.stop + o.zeroSize := by
      rw [← hstop]
      exact uint32_of_lt (by omega)
    rw [addAtEndBuffer, if_pos ⟨hcount, hstop, hdirty, hostart, hz ▸ hozero⟩]
    dsimp only
    rw [hz, hend, uint32Sub_of_le ho3 ho4]
    simp only [Option.bind_eq_bind]
    refine (congrArg (Option.bind · _) hadd).trans ?_
    rw [Option.bind_some, hprev, Option.bind_some, hsrc, Option.bind_some, hwrite, Option.bind_some]
  · exact hcopy.trans (congrArg (· ++ _) hbytes₁)

/-- What the optimization does with a second buffer that has no end bytes. -/
theorem Holds.appends_zeros (h : w.Holds) (garbage : ℕ → ℕ → UInt8) (hb : w.buffer i = some b)
    (ho : w.buffer j = some o) (hij : i ≠ j) (hfits : b.stop + o.getSize + 1 < 2 ^ 32)
    (hjoin : JoinsZeroAreas (w.memory.heap b.data) b o) (hend : o.stop = o.zeroAreaEnd) :
    Appends garbage w i b o := by
  obtain ⟨flag, b', m', it, -, hadd, -, -, -, -, hcopy, hothers⟩ :=
    h.addAtEnd_joined garbage hb ho hij hfits hjoin
  have hord := h.ordered j o ho
  have hstart : o.zeroAreaStart - o.start = 0 := by
    rw [hjoin.2.2.2.1, Nat.sub_self]
  have hnone : endBytes (w.memory.heap o.data) o = [] := by
    rw [endBytes, hend, Nat.sub_self, slice_zero]
  rw [hnone, BufferIterator.store_nil] at hadd
  rw [hend, Nat.sub_self, slice_zero, List.append_nil] at hcopy
  refine ⟨b', m', hadd, ?_, fun k c hk hc => (hothers k c hk hc).1⟩
  rw [hcopy, bytes, bytes, hord.copyData_of_stop hend, hstart, slice_zero, List.nil_append]

/-- With end bytes, the first of the places they belong to is not written. -/
theorem Holds.not_appends_joined (h : w.Holds) (garbage : ℕ → ℕ → UInt8) (hb : w.buffer i = some b)
    (ho : w.buffer j = some o) (hij : i ≠ j) (hfits : b.stop + o.getSize + 1 < 2 ^ 32)
    (hjoin : JoinsZeroAreas (w.memory.heap b.data) b o) (hend : o.stop ≠ o.zeroAreaEnd) {x : UInt8}
    (hx : x ≠ (w.memory.heap o.data).data o.zeroAreaStart)
    (hheld : (w.memory.heap b.data).data b.internalEnd = x)
    (hgarbage : ∀ p k, garbage p k = x) : ¬Appends garbage w i b o := by
  rintro ⟨b'', m'', hadd'', hbytes, -⟩
  obtain ⟨flag, b', m', it, hadd, hjoined, hdata, hord', hroom, hpos, -, -⟩ :=
    h.addAtEnd_joined garbage hb ho hij hfits hjoin
  obtain ⟨rfl, rfl⟩ := Prod.mk.inj (Option.some.inj (hjoined.symm.trans hadd''))
  obtain ⟨hcount, hstop, -, -, -⟩ := hjoin
  have hoOrd := h.ordered j o ho
  have hlength := hoOrd.getSize_eq
  obtain ⟨ho1, ho2, ho3, ho4⟩ := h.ordered j o ho
  have hfits' : b.stop + o.zeroSize + (o.stop - o.zeroAreaEnd) < 2 ^ 32 := by
    rw [zeroSize]
    omega
  obtain ⟨h₁, -⟩ := h.grow_moreZeros hb hcount hstop (z := o.zeroSize) (by omega)
  have hb₁ := (buffer_setBuffer hb (b.moreZeros o.zeroSize,
    w.memory.setDirtyEnd b.data (b.stop + o.zeroSize)) (j := i)).trans (if_pos rfl)
  -- The place of the first end byte, before and after the end bytes are written.
  have hbyte : (m'.heap b'.data).data (b'.internalEnd - (o.stop - o.zeroAreaEnd)) = x := by
    refine byte_of_addAtEnd (h₁.ordered i _ hb₁) (h₁.count_pos hb₁) (h₁.le_dirtyEnd hb₁)
      (h₁.fresh i _ hb₁).ne hfits' ?_ (fun k => hgarbage _ k) hadd
    have hsame : (b.moreZeros o.zeroSize).internalEnd = b.internalEnd := by
      have := (h.ordered i b hb).zeroArea_le
      simp only [internalEnd, zeroSize, moreZeros]
      omega
    rw [hsame, ← hheld]
    exact congrFun (congrArg BufferData.data (w.memory.setDirtyEnd_heap b.data _)) _
  have hkept : ((BufferIterator.store m' it (b'.stop - (o.stop - o.zeroAreaEnd))
      (endBytes (w.memory.heap o.data) o)).heap b'.data).data
        (b'.internalEnd - (o.stop - o.zeroAreaEnd)) = x := by
    rw [← hbyte, ← hdata, BufferIterator.store, BufferMemory.setData]
    dsimp only
    rw [Function.update_self]
    refine overwrite_of_lt ?_
    rw [internalEnd]
    rw [zeroSize] at hpos ⊢
    omega
  have hlast := congrArg (List.drop (b'.stop - b'.start - (o.stop - o.zeroAreaEnd))) hbytes
  have hsizes : b'.stop - b'.start - (o.stop - o.zeroAreaEnd) =
      (w.bytes b).length + (o.stop - o.start - (o.stop - o.zeroAreaEnd)) := by
    have hall := congrArg List.length hbytes
    rw [hord'.length_copyData, List.length_append, bytes, bytes, hoOrd.length_copyData] at hall
    rw [hall, bytes]
    omega
  rw [hord'.drop_copyData hroom, hsizes, List.drop_length_add_append, bytes,
    hoOrd.drop_copyData (Nat.add_sub_cancel' ho3).le] at hlast
  have hplace : o.internalEnd - (o.stop - o.zeroAreaEnd) = o.zeroAreaStart := by
    rw [internalEnd, zeroSize]
    omega
  have hfirst := eq_of_slice_eq hlast (k := 0) (by omega)
  rw [Nat.add_zero, Nat.add_zero, hkept, hplace] at hfirst
  exact hx hfirst

/-- Both buffers are in the block that the copy is extended in, which `Write` refuses. -/
theorem Holds.not_appends_clash (h : w.Holds) (garbage : ℕ → ℕ → UInt8) (hb : w.buffer i = some b)
    (ho : w.buffer j = some o) (hij : i ≠ j)
    (hclash : Clashes (w.memory.heap b.data) b o) : ¬Appends garbage w i b o := by
  obtain ⟨hzero, hzero', hdata, hroom, hclean⟩ := hclash
  have hjoin : ¬JoinsZeroAreas (w.memory.heap b.data) b o := fun hjoin =>
    hij (h.alone hb hjoin.1 ho hdata.symm).symm
  have hblock : SameBlock (w.memory.heap b.data)
      (((w.memory.acquire b.data).acquire o.data).heap b.data) :=
    (setCount_sameBlock w.memory b.data _ _).trans (setCount_sameBlock _ o.data _ _)
  have hkeep : (b.copy w.memory).1.KeepsAtEnd
      (((w.memory.acquire b.data).acquire o.data).heap b.data) o.getSize := by
    refine ⟨?_, fun hdirty => hclean.not_gt ?_⟩
    · rw [hblock.size]
      exact hroom
    · rw [← hblock.dirtyEnd]
      exact hdirty.2
  rintro ⟨b', m', happend, -⟩
  rw [addAtEndBuffer, if_neg hjoin] at happend
  simp only [Option.bind_eq_bind] at happend
  rw [createFullCopy_of_zero (h.ordered i b hb) hzero, Option.bind_some,
    createFullCopy_of_zero (h.ordered j o ho) hzero', Option.bind_some] at happend
  obtain ⟨⟨flag, dst, m₃⟩, hadd, happend⟩ := Option.bind_eq_some_iff.mp happend
  obtain ⟨it, hprev, happend⟩ := Option.bind_eq_some_iff.mp happend
  obtain ⟨m₄, hwrite, -⟩ := Option.bind_eq_some_iff.mp happend
  have hit : it.data = b.data :=
    (BufferIterator.data_of_prev hprev).trans (data_of_addAtEnd (b := (b.copy w.memory).1) hkeep hadd)
  exact BufferIterator.apart_of_writeIterator hwrite (hit.trans hdata)

/-- Two families whose buffers are the same windows with the same bytes, on blocks with the same
bookkeeping. What no buffer shows may differ. -/
structure SameShown (w w' : BufferWorld) : Prop where
  buffers : w'.buffers = w.buffers
  nextData : w'.memory.nextData = w.memory.nextData
  count : ∀ p, (w'.memory.heap p).count = (w.memory.heap p).count
  area : ∀ p, SameArea (w.memory.heap p) (w'.memory.heap p)
  bytes : ∀ k c, w.buffer k = some c → w'.bytes c = w.bytes c

/-- `AddAtEnd (o)` does what it should, whatever the memory holds that no buffer shows. -/
def AppendsAlways (w : BufferWorld) (i : ℕ) (b o : Buffer) : Prop :=
  ∀ garbage w', w.SameShown w' → Appends garbage w' i b o

theorem SameShown.buffer (h : w.SameShown w') (k : ℕ) : w'.buffer k = w.buffer k :=
  congrArg (fun l => (l[k]? : Option (Option Buffer)).join) h.buffers

theorem SameShown.holds (h : w.SameShown w') (hw : w.Holds) : w'.Holds := by
  refine hw.narrow ?_ h.nextData h.area fun k c hc => ?_
  · rw [refs, h.buffers, funext h.count]
    exact hw.counted
  · rw [h.buffer] at hc
    exact ⟨k, c, hc, Buffer.Within.refl (hw.ordered k c hc)⟩

theorem SameShown.joinsZeroAreas (h : w.SameShown w') (b o : Buffer) :
    JoinsZeroAreas (w'.memory.heap b.data) b o ↔ JoinsZeroAreas (w.memory.heap b.data) b o := by
  rw [JoinsZeroAreas, JoinsZeroAreas, h.count, (h.area b.data).dirtyEnd]

theorem SameShown.clashes (h : w.SameShown w') (b o : Buffer) :
    Clashes (w'.memory.heap b.data) b o ↔ Clashes (w.memory.heap b.data) b o := by
  rw [Clashes, Clashes, (h.area b.data).size, (h.area b.data).dirtyEnd]

theorem SameShown.refl (w : BufferWorld) : w.SameShown w :=
  ⟨rfl, rfl, fun _ => rfl, fun _ => ⟨rfl, rfl, rfl⟩, fun _ _ _ => rfl⟩

/-- A byte behind a buffer that is alone on its block and stops with its zero area is not shown. -/
theorem Holds.sameShown_behind (h : w.Holds) (hb : w.buffer i = some b)
    (hone : (w.memory.heap b.data).count = 1) (hstop : b.stop = b.zeroAreaEnd) (x : UInt8) :
    w.SameShown ⟨w.memory.setData b.data { w.memory.heap b.data with
      data := overwrite (w.memory.heap b.data).data b.internalEnd [x] }, w.buffers⟩ := by
  have hself : (w.memory.setData b.data { w.memory.heap b.data with
      data := overwrite (w.memory.heap b.data).data b.internalEnd [x] }).heap b.data =
        { w.memory.heap b.data with
          data := overwrite (w.memory.heap b.data).data b.internalEnd [x] } :=
    Function.update_self _ _ _
  have hother {p : ℕ} (hp : p ≠ b.data) : (w.memory.setData b.data { w.memory.heap b.data with
      data := overwrite (w.memory.heap b.data).data b.internalEnd [x] }).heap p =
        w.memory.heap p := Function.update_of_ne hp _ _
  refine ⟨rfl, rfl, fun p => ?_, fun p => ?_, fun k c hc => ?_⟩
  · by_cases hp : p = b.data
    · rw [hp, hself]
    · rw [hother hp]
  · by_cases hp : p = b.data
    · rw [hp, hself]
      exact ⟨rfl, rfl, rfl⟩
    · rw [hother hp]
      exact ⟨rfl, rfl, rfl⟩
  · rw [bytes, bytes]
    by_cases hp : c.data = b.data
    · have hord := h.ordered i b hb
      have hk := h.alone hb hone hc hp
      rw [hk, hb] at hc
      obtain rfl := Option.some.inj hc
      have hbehind : b.start + (b.zeroAreaStart - b.start) ≤ b.internalEnd := by
        obtain ⟨h1, h2, h3, h4⟩ := hord
        rw [internalEnd, zeroSize]
        omega
      rw [hself, hord.copyData_of_stop hstop, hord.copyData_of_stop hstop,
        slice_overwrite_of_disjoint (Or.inl hbehind)]
    · rw [hother hp]

/-- Where the offsets fit, `AddAtEnd (o)` does what it should, if and only if the optimization is not
applied to a buffer with end bytes, and the copies are not extended in a block they share. -/
theorem Holds.appendsAlways_iff (h : w.Holds) (hb : w.buffer i = some b) (ho : w.buffer j = some o)
    (hij : i ≠ j) (hfits : b.stop + o.getSize + 1 < 2 ^ 32) :
    w.AppendsAlways i b o ↔
      ¬(JoinsZeroAreas (w.memory.heap b.data) b o ∧ o.stop ≠ o.zeroAreaEnd) ∧
        ¬Clashes (w.memory.heap b.data) b o := by
  refine ⟨fun hall => ⟨fun ⟨hjoin, hend⟩ => ?_, fun hclash => ?_⟩, ?_⟩
  · have : Nontrivial UInt8 := ⟨0, 1, by decide⟩
    obtain ⟨x, hx⟩ := exists_ne ((w.memory.heap o.data).data o.zeroAreaStart)
    have hshown := h.sameShown_behind hb hjoin.1 hjoin.2.1 x
    have happart : o.data ≠ b.data := fun hdata => hij (h.alone hb hjoin.1 ho hdata).symm
    refine (hshown.holds h).not_appends_joined (fun _ _ => x) hb ho hij hfits
      ((hshown.joinsZeroAreas b o).mpr hjoin) hend ?_ ?_ (fun _ _ => rfl) (hall _ _ hshown)
    · have hsame : (w.memory.setData b.data { w.memory.heap b.data with
          data := overwrite (w.memory.heap b.data).data b.internalEnd [x] }).heap o.data =
            w.memory.heap o.data := Function.update_of_ne happart _ _
      rw [hsame]
      exact hx
    · simp [BufferMemory.setData, overwrite]
  · exact h.not_appends_clash (fun _ _ => 0) hb ho hij hclash
      (hall _ w (SameShown.refl w))
  · rintro ⟨hjoined, hclash⟩ garbage w' hshown
    have hb' := (hshown.buffer i).trans hb
    have ho' := (hshown.buffer j).trans ho
    by_cases hjoin : JoinsZeroAreas (w'.memory.heap b.data) b o
    · refine (hshown.holds h).appends_zeros garbage hb' ho' hij hfits hjoin ?_
      by_contra hend
      exact hjoined ⟨(hshown.joinsZeroAreas b o).mp hjoin, hend⟩
    · exact (hshown.holds h).appends_copies garbage hb' ho' hfits hjoin
        fun hclash' => hclash ((hshown.clashes b o).mp hclash')

theorem Holds.construct_holds (h : w.Holds) (garbage : ℕ → ℕ → UInt8) {z : ℕ}
    (hz : min 1 w.memory.recommendedStart + z < 2 ^ 32) :
    (w.addBuffer (Buffer.construct garbage w.memory z)).Holds := by
  obtain ⟨b, m, heq, hholds, -⟩ := @Holds.construct garbage w h z hz
  rw [heq]
  exact hholds

/-- Two buffers of zeros. -/
def zeroBuffers : BufferWorld :=
  let w : BufferWorld := ⟨BufferMemory.empty, []⟩
  let w := w.addBuffer (construct (fun _ _ => 0) w.memory 10)
  w.addBuffer (construct (fun _ _ => 0) w.memory 4)

theorem zeroBuffers_holds : zeroBuffers.Holds := by
  have h := empty_holds.construct_holds (fun _ _ => 0) (z := 10) (by decide)
  exact h.construct_holds (fun _ _ => 0) (z := 4) (by decide)

theorem appendsAlways_zeroBuffers :
    zeroBuffers.AppendsAlways 0 ⟨0, 0, 0, 10, 0, 10⟩ ⟨1, 0, 0, 4, 0, 4⟩ :=
  (zeroBuffers_holds.appendsAlways_iff rfl rfl Nat.zero_ne_one (by decide)).mpr (by decide)

theorem appended_bytes_misplaced : ¬∀ (garbage : ℕ → ℕ → UInt8) (w : BufferWorld) (i j : ℕ)
    (b o : Buffer), w.Holds → w.buffer i = some b → w.buffer j = some o → i ≠ j →
      Appends garbage w i b o := by
  intro h
  have hrun : (run (BufferRun.step fun _ _ => 0) BufferRun.start
      [.construct 10, .construct 4, .addAtEnd 1 2 [.write 0 [1, 2]]]).map (fun r =>
        r.world.bind fun w => (w.buffer 0).bind fun b => (w.buffer 1).bind fun o =>
          (addAtEndBuffer (fun _ _ => 0) w.memory b o).map fun b' =>
            (b'.1.copyData (b'.2.heap b'.1.data), w.bytes b ++ w.bytes o)) =
      some (some ([0, 0, 0, 0, 0, 0, 0, 0, 0, 0, 0, 0, 0, 0, 0, 0],
        [0, 0, 0, 0, 0, 0, 0, 0, 0, 0, 0, 0, 0, 0, 1, 2])) := by
    decide +kernel
  have hallowed : Allowed (BufferRun.step fun _ _ => 0) BufferRun.Fits BufferRun.start
      [.construct 10, .construct 4, .addAtEnd 1 2 [.write 0 [1, 2]]] := by
    decide +kernel
  obtain ⟨r, hr, heq⟩ := Option.map_eq_some_iff.mp hrun
  obtain ⟨w, hw, hholds, -⟩ := (Always.of_invariant
    (fun _ _ _ hr hfits hs => hr.step hfits hs) BufferRun.start_holds hallowed).last hr
  rw [hw, Option.bind_some] at heq
  obtain ⟨b, hb, heq⟩ := Option.bind_eq_some_iff.mp heq
  obtain ⟨o, ho, heq⟩ := Option.bind_eq_some_iff.mp heq
  obtain ⟨b', m', hadd, hbytes, -⟩ := h (fun _ _ => 0) w 0 1 b o hholds hb ho Nat.zero_ne_one
  rw [hadd, Option.map_some, ← hbytes] at heq
  have hlost := (Prod.mk.inj (Option.some.inj heq)).1.symm.trans
    (Prod.mk.inj (Option.some.inj heq)).2
  revert hlost
  decide

end BufferWorld

end Ns3Noc
