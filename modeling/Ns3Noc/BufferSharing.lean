import Ns3Noc.BufferOffsets
import Ns3Noc.BufferRuns

/-!
# Sharing of blocks

The buffers of a block have no byte before its dirty area and none behind the place that the dirty
area ends at for the buffer with the largest zero area. An extension in place is behind that place
or before the dirty area.
-/
namespace Ns3Noc
open ByteSlices SharedBlocks

namespace BufferWorld
variable {w w' : BufferWorld} {i j n : ℕ} {b b' c : Buffer}

theorem buffer_setBuffer (hb : w.buffer i = some b) (r : Buffer × BufferMemory) :
    (w.setBuffer i r).buffer j = if j = i then some r.1 else w.buffer j :=
  join_set (some r.1) (lt_length_of_join hb)

theorem buffer_addBuffer (r : Buffer × BufferMemory) :
    (w.addBuffer r).buffer j = if j = w.buffers.length then some r.1 else w.buffer j :=
  join_append (some r.1)

/-- The block each buffer points at. -/
def refs (w : BufferWorld) : List (Option ℕ) := w.buffers.map (Option.map (·.data))

theorem refs_of_buffer (hb : w.buffer i = some b) : w.refs[i]? = some (some b.data) := by
  rw [refs, List.getElem?_map, getElem?_of_join hb]
  rfl

structure Holds (w : BufferWorld) : Prop where
  counted : Counted (fun p => (w.memory.heap p).count) w.refs
  fresh : ∀ i b, w.buffer i = some b → b.data < w.memory.nextData
  ordered : ∀ i b, w.buffer i = some b → b.Ordered
  dirtyStart : ∀ i b, w.buffer i = some b → (w.memory.heap b.data).dirtyStart ≤ b.start
  size : ∀ i b, w.buffer i = some b → b.internalEnd ≤ (w.memory.heap b.data).size
  dirtyEnd : ∀ p, ∃ z e, (w.memory.heap p).dirtyEnd = z + e ∧
    ∀ i b, w.buffer i = some b → b.data = p → b.zeroSize ≤ z ∧ b.internalEnd ≤ e

/-- Two blocks of one size with one dirty area. -/
structure SameArea (d d' : BufferData) : Prop where
  size : d'.size = d.size
  dirtyStart : d'.dirtyStart = d.dirtyStart
  dirtyEnd : d'.dirtyEnd = d.dirtyEnd

/-- Two blocks that differ at most in their reference counts. -/
structure SameBlock (d d' : BufferData) : Prop extends SameArea d d' where
  data : d'.data = d.data

theorem Holds.le_dirtyEnd (h : w.Holds) (hb : w.buffer i = some b) :
    b.stop ≤ (w.memory.heap b.data).dirtyEnd := by
  obtain ⟨z, e, heq, hall⟩ := h.dirtyEnd b.data
  obtain ⟨hz, he⟩ := hall i b hb rfl
  rw [Buffer.internalEnd] at he
  omega

theorem Holds.count_pos (h : w.Holds) (hb : w.buffer i = some b) :
    0 < (w.memory.heap b.data).count :=
  h.counted.pos (refs_of_buffer hb)

theorem Holds.checkInternalState (h : w.Holds) (hb : w.buffer i = some b) :
    b.CheckInternalState (w.memory.heap b.data) := by
  have hsize := h.size i b hb
  obtain ⟨h1, h2, h3, h4⟩ := h.ordered i b hb
  rw [Buffer.internalEnd, Buffer.zeroSize] at hsize
  exact ⟨h1, h2, h3, h.dirtyStart i b hb, h.le_dirtyEnd hb, hsize, by omega, by omega,
    h.count_pos hb⟩

theorem empty_holds : Holds ⟨BufferMemory.empty, []⟩ where
  counted := Counted.nil
  fresh i b hb := by cases hb
  ordered i b hb := by cases hb
  dirtyStart i b hb := by cases hb
  size i b hb := by cases hb
  dirtyEnd p := ⟨0, 0, rfl, fun i b hb => by cases hb⟩

theorem Holds.count_next (h : w.Holds) : (w.memory.heap w.memory.nextData).count = 0 := by
  refine (h.counted w.memory.nextData).trans (List.count_eq_zero.mpr (fun hmem => ?_))
  obtain ⟨o, ho, heq⟩ := List.mem_map.mp hmem
  obtain ⟨b, rfl, hdata⟩ := Option.map_eq_some_iff.mp heq
  obtain ⟨k, hk⟩ := List.mem_iff_getElem?.mp ho
  exact (h.fresh k b (congrArg Option.join hk)).ne hdata

/-- Windows that are no wider than old ones, on the same blocks. -/
theorem Holds.narrow (h : w.Holds)
    (hcounted : Counted (fun p => (w'.memory.heap p).count) w'.refs)
    (hnext : w'.memory.nextData = w.memory.nextData)
    (hheap : ∀ p, SameArea (w.memory.heap p) (w'.memory.heap p))
    (hw : ∀ j b', w'.buffer j = some b' → ∃ i b, w.buffer i = some b ∧ b'.Within b) :
    w'.Holds where
  counted := hcounted
  fresh j b' hb' := by
    obtain ⟨i, b, hb, hwithin⟩ := hw j b' hb'
    rw [hnext, hwithin.data]
    exact h.fresh i b hb
  ordered j b' hb' := by
    obtain ⟨i, b, hb, hwithin⟩ := hw j b' hb'
    exact hwithin.ordered
  dirtyStart j b' hb' := by
    obtain ⟨i, b, hb, hwithin⟩ := hw j b' hb'
    rw [(hheap _).dirtyStart, hwithin.data]
    exact (h.dirtyStart i b hb).trans hwithin.start
  size j b' hb' := by
    obtain ⟨i, b, hb, hwithin⟩ := hw j b' hb'
    rw [(hheap _).size, hwithin.data]
    exact hwithin.internalEnd.trans (h.size i b hb)
  dirtyEnd p := by
    obtain ⟨z, e, heq, hall⟩ := h.dirtyEnd p
    refine ⟨z, e, (hheap p).dirtyEnd.trans heq, fun j b' hb' hp => ?_⟩
    obtain ⟨i, b, hb, hwithin⟩ := hw j b' hb'
    obtain ⟨hz, he⟩ := hall i b hb (hwithin.data.symm.trans hp)
    exact ⟨hwithin.zeroSize.trans hz, hwithin.internalEnd.trans he⟩

/-- A new block with one buffer, and old windows otherwise. -/
theorem Holds.extend (h : w.Holds) (b' : Buffer)
    (hcounted : Counted (fun p => (w'.memory.heap p).count) w'.refs)
    (hnext : w'.memory.nextData = w.memory.nextData + 1)
    (hheap : ∀ p, p ≠ w.memory.nextData → SameArea (w.memory.heap p) (w'.memory.heap p))
    (hdata : b'.data = w.memory.nextData) (hord : b'.Ordered)
    (hstart : (w'.memory.heap w.memory.nextData).dirtyStart = b'.start)
    (hstop : (w'.memory.heap w.memory.nextData).dirtyEnd = b'.stop)
    (hsize : b'.internalEnd ≤ (w'.memory.heap w.memory.nextData).size)
    (hw : ∀ j c, w'.buffer j = some c → c = b' ∨ ∃ i, w.buffer i = some c) :
    w'.Holds := by
  have hold (i : ℕ) (c : Buffer) (hc : w.buffer i = some c) : c.data ≠ w.memory.nextData :=
    (h.fresh i c hc).ne
  refine ⟨hcounted, ?_, ?_, ?_, ?_, ?_⟩
  · intro j c hc
    rcases hw j c hc with rfl | ⟨i, hi⟩
    · omega
    · have := h.fresh i c hi
      omega
  · intro j c hc
    rcases hw j c hc with rfl | ⟨i, hi⟩
    · exact hord
    · exact h.ordered i c hi
  · intro j c hc
    rcases hw j c hc with rfl | ⟨i, hi⟩
    · rw [hdata, hstart]
    · rw [(hheap _ (hold i c hi)).dirtyStart]
      exact h.dirtyStart i c hi
  · intro j c hc
    rcases hw j c hc with rfl | ⟨i, hi⟩
    · rw [hdata]
      exact hsize
    · rw [(hheap _ (hold i c hi)).size]
      exact h.size i c hi
  · intro p
    by_cases hp : p = w.memory.nextData
    · subst hp
      have hzero : b'.zeroSize ≤ b'.stop := by
        have := hord.zeroAreaEnd_le
        rw [Buffer.zeroSize]
        omega
      refine ⟨b'.zeroSize, b'.internalEnd, ?_, fun j c hc hcp => ?_⟩
      · rw [hstop, Buffer.internalEnd, Nat.add_sub_cancel' hzero]
      · rcases hw j c hc with rfl | ⟨i, hi⟩
        · exact ⟨le_rfl, le_rfl⟩
        · exact absurd hcp (hold i c hi)
    · obtain ⟨z, e, heq, hall⟩ := h.dirtyEnd p
      refine ⟨z, e, (hheap p hp).dirtyEnd.trans heq, fun j c hc hcp => ?_⟩
      rcases hw j c hc with rfl | ⟨i, hi⟩
      · exact absurd (hcp.symm.trans hdata) hp
      · exact hall i c hi hcp

/-- A wider window in place. The other buffers of the block have nothing where it grows. -/
theorem Holds.grow (h : w.Holds) (hb : w.buffer i = some b) {d : BufferData}
    (hdata : b'.data = b.data) (hord : b'.Ordered)
    (hcount : d.count = (w.memory.heap b.data).count)
    (hsize : d.size = (w.memory.heap b.data).size)
    (hstart : d.dirtyStart ≤ b'.start) (hend : b'.internalEnd ≤ d.size)
    (hothers : ∀ j c, j ≠ i → w.buffer j = some c → c.data = b.data → d.dirtyStart ≤ c.start)
    (hdirty : ∃ z e, d.dirtyEnd = z + e ∧ b'.zeroSize ≤ z ∧ b'.internalEnd ≤ e ∧
      ∀ j c, j ≠ i → w.buffer j = some c → c.data = b.data → c.zeroSize ≤ z ∧ c.internalEnd ≤ e) :
    (w.setBuffer i (b', w.memory.setData b.data d)).Holds := by
  have hself : (Function.update w.memory.heap b.data d) b.data = d := Function.update_self _ _ _
  have hother {p : ℕ} (hp : p ≠ b.data) :
      (Function.update w.memory.heap b.data d) p = w.memory.heap p := Function.update_of_ne hp _ _
  have hcases (j : ℕ) (c : Buffer)
      (hc : (w.setBuffer i (b', w.memory.setData b.data d)).buffer j = some c) :
      c = b' ∨ j ≠ i ∧ w.buffer j = some c := by
    rw [buffer_setBuffer hb] at hc
    split at hc
    · exact Or.inl (Option.some.inj hc).symm
    · rename_i hne
      exact Or.inr ⟨hne, hc⟩
  refine ⟨?_, ?_, ?_, ?_, ?_, ?_⟩
  · have hrefs : (w.setBuffer i (b', w.memory.setData b.data d)).refs =
        w.refs.set i (some b.data) := by
      rw [refs, refs, setBuffer, List.map_set, Option.map_some, hdata]
    rw [hrefs]
    refine h.counted.set _ _ (refs_of_buffer hb) (fun p => ?_)
    dsimp only [setBuffer, BufferMemory.setData]
    by_cases hp : p = b.data
    · rw [hp, hself, hcount]
    · rw [hother hp]
  · intro j c hc
    show c.data < w.memory.nextData
    rcases hcases j c hc with rfl | ⟨-, hc⟩
    · rw [hdata]
      exact h.fresh i b hb
    · exact h.fresh j c hc
  · intro j c hc
    rcases hcases j c hc with rfl | ⟨-, hc⟩
    · exact hord
    · exact h.ordered j c hc
  · intro j c hc
    dsimp only [setBuffer, BufferMemory.setData]
    rcases hcases j c hc with rfl | ⟨hne, hc⟩
    · rw [hdata, hself]
      exact hstart
    · by_cases hp : c.data = b.data
      · rw [hp, hself]
        exact hothers j c hne hc hp
      · rw [hother hp]
        exact h.dirtyStart j c hc
  · intro j c hc
    dsimp only [setBuffer, BufferMemory.setData]
    rcases hcases j c hc with rfl | ⟨hne, hc⟩
    · rw [hdata, hself]
      exact hend
    · by_cases hp : c.data = b.data
      · rw [hp, hself, hsize, ← hp]
        exact h.size j c hc
      · rw [hother hp]
        exact h.size j c hc
  · intro p
    dsimp only [setBuffer, BufferMemory.setData]
    by_cases hp : p = b.data
    · subst hp
      obtain ⟨z, e, heq, hz, he, hall⟩ := hdirty
      refine ⟨z, e, by rw [hself, heq], fun j c hc hcp => ?_⟩
      rcases hcases j c hc with rfl | ⟨hne, hc⟩
      · exact ⟨hz, he⟩
      · exact hall j c hne hc hcp
    · obtain ⟨z, e, heq, hall⟩ := h.dirtyEnd p
      refine ⟨z, e, by rw [hother hp, heq], fun j c hc hcp => ?_⟩
      rcases hcases j c hc with rfl | ⟨hne, hc⟩
      · exact absurd (hcp.symm.trans hdata) hp
      · exact hall j c hc hcp

theorem Holds.alone (h : w.Holds) (hb : w.buffer i = some b)
    (hone : (w.memory.heap b.data).count = 1) (hc : w.buffer j = some c)
    (hdata : c.data = b.data) : j = i := by
  have hrefs := refs_of_buffer hc
  rw [hdata] at hrefs
  exact h.counted.unique hone hrefs (refs_of_buffer hb)

/-- A buffer that is alone on its block or starts with its dirty area starts before the others. -/
theorem Holds.start_le_others (h : w.Holds) (hb : w.buffer i = some b)
    (hclean : ¬((w.memory.heap b.data).count > 1 ∧
      b.start > (w.memory.heap b.data).dirtyStart)) (hne : j ≠ i)
    (hc : w.buffer j = some c) (hdata : c.data = b.data) : b.start ≤ c.start := by
  have hpos := h.count_pos hb
  by_cases hone : (w.memory.heap b.data).count = 1
  · exact absurd (h.alone hb hone hc hdata) hne
  · have hstart := h.dirtyStart j c hc
    rw [hdata] at hstart
    omega

/-- A buffer that is alone on its block or stops with its dirty area ends behind the others. -/
theorem Holds.others_le_end (h : w.Holds) (hb : w.buffer i = some b)
    (hclean : ¬((w.memory.heap b.data).count > 1 ∧
      b.stop < (w.memory.heap b.data).dirtyEnd)) (hne : j ≠ i)
    (hc : w.buffer j = some c) (hdata : c.data = b.data) :
    c.zeroSize ≤ b.zeroSize ∧ c.internalEnd ≤ b.internalEnd := by
  have hpos := h.count_pos hb
  by_cases hone : (w.memory.heap b.data).count = 1
  · exact absurd (h.alone hb hone hc hdata) hne
  · obtain ⟨z, e, heq, hall⟩ := h.dirtyEnd b.data
    obtain ⟨hz, he⟩ := hall i b hb rfl
    obtain ⟨hcz, hce⟩ := hall j c hc hdata
    have hzero : b.zeroSize ≤ b.stop := by
      have := (h.ordered i b hb).zeroAreaEnd_le
      rw [Buffer.zeroSize]
      omega
    simp only [Buffer.internalEnd] at he hce ⊢
    omega

end BufferWorld

theorem BufferMemory.setData_data {m : BufferMemory} {p : ℕ} {d : BufferData}
    (h : d.data = (m.heap p).data) (q : ℕ) : ((m.setData p d).heap q).data = (m.heap q).data := by
  rw [setData]
  dsimp only
  by_cases hq : q = p
  · rw [hq, Function.update_self, h]
  · rw [Function.update_of_ne hq]

/-- The memory in which a buffer has left block `p` for a new block. -/
def BufferMemory.moved (m : BufferMemory) (p : ℕ) (d : BufferData) : BufferMemory where
  heap := Function.update
    (Function.update m.heap p { m.heap p with count := (m.heap p).count - 1 }) m.nextData d
  nextData := m.nextData + 1
  recommendedStart := m.recommendedStart

theorem BufferMemory.moved_new (m : BufferMemory) (p : ℕ) (d : BufferData) :
    (m.moved p d).heap m.nextData = d := Function.update_self _ _ _

namespace Buffer
variable {garbage : ℕ → ℕ → UInt8} {m : BufferMemory} {b : Buffer} {n : ℕ}

/-- The block has room before the buffer, and nobody else has used it. -/
def KeepsAtStart (b : Buffer) (d : BufferData) (n : ℕ) : Prop :=
  b.start ≥ n ∧ ¬(d.count > 1 ∧ b.start > d.dirtyStart)

/-- The block has room behind the buffer, and nobody else has used it. -/
def KeepsAtEnd (b : Buffer) (d : BufferData) (n : ℕ) : Prop :=
  uint32 (b.getInternalEnd + n) ≤ d.size ∧ ¬(d.count > 1 ∧ b.stop < d.dirtyEnd)

instance (b : Buffer) (d : BufferData) (n : ℕ) : Decidable (b.KeepsAtStart d n) :=
  inferInstanceAs (Decidable (_ ∧ _))

instance (b : Buffer) (d : BufferData) (n : ℕ) : Decidable (b.KeepsAtEnd d n) :=
  inferInstanceAs (Decidable (_ ∧ _))

theorem uint32_add_uint32Sub {x y z : ℕ} (hz : y ≤ x) (hx : x < 2 ^ 32)
    (h : x - y + z < 2 ^ 32) (hlt : z < 2 ^ 32) : uint32 (x + uint32Sub z y) = x - y + z := by
  rw [uint32, uint32Sub]
  omega

/-- A new block with all its fields. -/
theorem move_setData (hne : b.data ≠ m.nextData) (a newSize dirtyStart dirtyEnd : ℕ) :
    (move garbage m b a newSize).setData m.nextData
        { (move garbage m b a newSize).heap m.nextData with
          dirtyStart := dirtyStart, dirtyEnd := dirtyEnd } =
      m.moved b.data ⟨1, if newSize = 0 then 1 else newSize, dirtyStart, dirtyEnd,
        overwrite (garbage m.nextData) a
          (slice (m.heap b.data).data b.start b.getInternalSize)⟩ := by
  simp only [move, create, BufferMemory.setData, BufferMemory.release, BufferMemory.moved,
    Function.update_self, Function.update_of_ne hne, Function.update_of_ne hne.symm]
  congr 1
  funext p
  by_cases hp : p = m.nextData
  · simp [hp]
  · by_cases hq : p = b.data
    · subst hq
      simp [hne]
    · simp [hp, hq]

/-- `AddAtStart`, in place or with a new block. -/
theorem addAtStart_cases (h : b.Ordered) (hpos : 0 < (m.heap b.data).count)
    (hstart : (m.heap b.data).dirtyStart ≤ b.start) (hne : b.data ≠ m.nextData)
    (hn : b.stop - b.start + n < 2 ^ 32) :
    addAtStart garbage m b n =
      if b.KeepsAtStart (m.heap b.data) n then
        some (decide (b.start - n > (m.heap b.data).dirtyStart),
          noteZeroArea { b with start := b.start - n },
          m.setData b.data { m.heap b.data with dirtyStart := b.start - n })
      else
        some (true, b.movedTo m.nextData n 0,
          m.moved b.data ⟨1, if b.internalEnd - b.start + n = 0 then 1 else
              b.internalEnd - b.start + n, 0, b.stop - b.start + n,
            overwrite (garbage m.nextData) n
              (slice (m.heap b.data).data b.start (b.internalEnd - b.start))⟩) := by
  rw [addAtStart]
  dsimp only
  by_cases hkeep : b.start ≥ n ∧
      ¬((m.heap b.data).count > 1 ∧ b.start > (m.heap b.data).dirtyStart)
  · have hkeep' : b.KeepsAtStart (m.heap b.data) n := hkeep
    rw [if_pos hkeep, if_pos hkeep', if_pos]
    obtain ⟨-, hclean⟩ := hkeep
    omega
  · have hkeep' : ¬b.KeepsAtStart (m.heap b.data) n := hkeep
    rw [if_neg hkeep, if_neg hkeep', move_setData hne, h.getInternalSize_eq]
    have hle : b.internalEnd - b.start ≤ b.stop - b.start := by
      rw [internalEnd]
      omega
    obtain ⟨h1, h2, h3, h4⟩ := h
    have hoff {x : ℕ} (hx : b.start ≤ x) (hx' : x ≤ b.stop) :
        uint32 (x + uint32Sub n b.start) = x - b.start + n :=
      uint32_add_uint32Sub hx (by omega) (by omega) (by omega)
    simp only [shift, noteZeroArea, movedTo, hoff le_rfl (by omega), hoff h1 (by omega),
      hoff (h1.trans h2) (by omega), hoff (h1.trans (h2.trans h3)) le_rfl, Nat.sub_self,
      Nat.zero_add, Nat.add_zero]
    rw [uint32Sub_of_le le_rfl (by omega), Nat.sub_self, uint32_of_lt (by omega)]

/-- `AddAtEnd`, in place or with a new block. -/
theorem addAtEnd_cases (h : b.Ordered) (hpos : 0 < (m.heap b.data).count)
    (hstop : b.stop ≤ (m.heap b.data).dirtyEnd) (hne : b.data ≠ m.nextData) (hn : n < 2 ^ 32)
    (hkept : b.KeepsAtEnd (m.heap b.data) n → b.stop + n < 2 ^ 32)
    (hmoved : ¬b.KeepsAtEnd (m.heap b.data) n → b.stop - b.start + n < 2 ^ 32) :
    addAtEnd garbage m b n =
      if b.KeepsAtEnd (m.heap b.data) n then
        some (false, noteZeroArea { b with stop := b.stop + n },
          m.setData b.data { m.heap b.data with dirtyEnd := b.stop + n })
      else
        some (true, b.movedTo m.nextData 0 n,
          m.moved b.data ⟨1, if b.internalEnd - b.start + n = 0 then 1 else
              b.internalEnd - b.start + n, 0, b.stop - b.start + n,
            overwrite (garbage m.nextData) 0
              (slice (m.heap b.data).data b.start (b.internalEnd - b.start))⟩) := by
  rw [addAtEnd]
  dsimp only
  by_cases hkeep : uint32 (b.getInternalEnd + n) ≤ (m.heap b.data).size ∧
      ¬((m.heap b.data).count > 1 ∧ b.stop < (m.heap b.data).dirtyEnd)
  · have hkeep' : b.KeepsAtEnd (m.heap b.data) n := hkeep
    rw [if_pos hkeep, if_pos hkeep', if_pos, uint32_of_lt (hkept hkeep')]
    · simp only [lt_irrefl, decide_false]
    · obtain ⟨-, hclean⟩ := hkeep
      omega
  · have hkeep' : ¬b.KeepsAtEnd (m.heap b.data) n := hkeep
    have hlt := hmoved hkeep'
    rw [if_neg hkeep, if_neg hkeep', move_setData hne, h.getInternalSize_eq]
    have hle : b.internalEnd - b.start ≤ b.stop - b.start := by
      rw [internalEnd]
      omega
    obtain ⟨h1, h2, h3, h4⟩ := h
    have hoff {x : ℕ} (hx : b.start ≤ x) (hx' : x ≤ b.stop) :
        uint32 (x + uint32Sub 0 b.start) = x - b.start :=
      uint32_add_uint32Sub hx (by omega) (by omega) (by omega)
    simp only [shift, noteZeroArea, movedTo, hoff le_rfl (by omega), hoff h1 (by omega),
      hoff (h1.trans h2) (by omega), hoff (h1.trans (h2.trans h3)) le_rfl, Nat.sub_self,
      Nat.add_zero]
    rw [uint32_of_lt hlt, uint32_of_lt (by omega)]

end Buffer

namespace BufferWorld
variable {garbage : ℕ → ℕ → UInt8} {w w' : BufferWorld} {i j n : ℕ} {b b' c : Buffer}

theorem SameBlock.copyData_eq {d d' : BufferData} (h : SameBlock d d') (b : Buffer) :
    b.copyData d' = b.copyData d := by
  rw [Buffer.copyData, Buffer.copyData, h.data]

/-- The blocks that are left when a buffer moves. -/
theorem moved_sameBlock (m : BufferMemory) (p : ℕ) (d : BufferData) {q : ℕ}
    (hq : q ≠ m.nextData) : SameBlock (m.heap q) ((m.moved p d).heap q) := by
  rw [BufferMemory.moved]
  dsimp only
  rw [Function.update_of_ne hq]
  by_cases hp : q = p
  · subst hp
    rw [Function.update_self]
    exact ⟨⟨rfl, rfl, rfl⟩, rfl⟩
  · rw [Function.update_of_ne hp]
    exact ⟨⟨rfl, rfl, rfl⟩, rfl⟩

/-- A buffer that moves to a new block. -/
theorem Holds.moved (h : w.Holds) (hb : w.buffer i = some b) {d : BufferData}
    (hdata : b'.data = w.memory.nextData) (hord : b'.Ordered) (hcount : d.count = 1)
    (hstart : d.dirtyStart = b'.start) (hstop : d.dirtyEnd = b'.stop)
    (hsize : b'.internalEnd ≤ d.size) :
    (w.setBuffer i (b', w.memory.moved b.data d)).Holds := by
  have hne : b.data ≠ w.memory.nextData := (h.fresh i b hb).ne
  have hnew : (w.memory.moved b.data d).heap w.memory.nextData = d := Function.update_self _ _ _
  refine h.extend b' ?_ rfl (fun p hp => (moved_sameBlock w.memory b.data d hp).toSameArea)
    hdata hord
    ?_ ?_ ?_ ?_
  · have hrefs : (w.setBuffer i (b', w.memory.moved b.data d)).refs =
        w.refs.set i (some w.memory.nextData) := by
      rw [refs, refs, setBuffer, List.map_set, Option.map_some, hdata]
    rw [hrefs]
    refine h.counted.set _ _ (refs_of_buffer hb) (fun p => ?_)
    have hpos := h.count_pos hb
    have hfree : (w.memory.heap w.memory.nextData).count = 0 := h.count_next
    dsimp only [setBuffer, BufferMemory.moved]
    simp only [Option.some.injEq]
    by_cases hp : p = w.memory.nextData
    · subst hp
      rw [Function.update_self, hcount, hfree, if_neg hne, if_pos rfl]
    · rw [Function.update_of_ne hp, if_neg (Ne.symm hp)]
      by_cases hq : p = b.data
      · subst hq
        rw [Function.update_self, if_pos rfl]
        dsimp only
        omega
      · rw [Function.update_of_ne hq, if_neg (Ne.symm hq)]
  · exact (congrArg BufferData.dirtyStart hnew).trans hstart
  · exact (congrArg BufferData.dirtyEnd hnew).trans hstop
  · exact hsize.trans_eq (congrArg BufferData.size hnew).symm
  · intro j c hc
    rw [buffer_setBuffer hb] at hc
    split at hc
    · exact Or.inl (Option.some.inj hc).symm
    · exact Or.inr ⟨j, hc⟩

/-- A move does not show in the other buffers, and none of them is in the new block. -/
theorem Holds.moved_others (h : w.Holds) {p : ℕ} (d : BufferData) (hc : w.buffer j = some c) :
    c.copyData ((w.memory.moved p d).heap c.data) = w.bytes c ∧ c.data ≠ w.memory.nextData :=
  ⟨(moved_sameBlock w.memory p d (h.fresh j c hc).ne).copyData_eq c, (h.fresh j c hc).ne⟩

/-- What `AddAtStart` does to the family: `n` bytes of the buffer's own before the old ones. -/
theorem Holds.addAtStart (h : w.Holds) (garbage : ℕ → ℕ → UInt8) (hb : w.buffer i = some b)
    (hn : b.stop - b.start + n < 2 ^ 32) :
    ∃ flag b' m', Buffer.addAtStart garbage w.memory b n = some (flag, b', m') ∧
      (w.setBuffer i (b', m')).Holds ∧ b'.start + n ≤ b'.zeroAreaStart ∧
      b'.copyData (m'.heap b'.data) =
        slice (m'.heap b'.data).data b'.start n ++ w.bytes b ∧
      ∀ j c, j ≠ i → w.buffer j = some c → c.copyData (m'.heap c.data) = w.bytes c ∧
        (c.data = b'.data → b.KeepsAtStart (w.memory.heap b.data) n ∧ c.data = b.data ∧
          b'.start + n ≤ c.start) := by
  have hord := h.ordered i b hb
  have hne : b.data ≠ w.memory.nextData := (h.fresh i b hb).ne
  have hstart := h.dirtyStart i b hb
  rw [Buffer.addAtStart_cases hord (h.count_pos hb) hstart hne hn]
  have hsize := h.size i b hb
  by_cases hkeep : b.KeepsAtStart (w.memory.heap b.data) n
  · rw [if_pos hkeep]
    have hkept := hkeep
    obtain ⟨hroom, hclean⟩ := hkeep
    have hleft : b.start - n + n = b.start := Nat.sub_add_cancel hroom
    have hord' : Buffer.Ordered { b with start := b.start - n } := by
      obtain ⟨h1, h2, h3, h4⟩ := hord
      exact ⟨by dsimp only; omega, h2, h3, h4⟩
    have hsame (p : ℕ) : ((w.memory.setData b.data { w.memory.heap b.data with
        dirtyStart := b.start - n }).heap p).data = (w.memory.heap p).data :=
      BufferMemory.setData_data (by rfl) p
    refine ⟨_, _, _, rfl, ?_, hleft.le.trans hord.start_le, ?_, ?_⟩
    · refine h.grow hb rfl (Buffer.Within.refl hord').noteZeroArea.ordered rfl rfl le_rfl hsize
        ?_ ?_
      · intro j c hne hc hdata
        exact (Nat.sub_le _ _).trans (h.start_le_others hb hclean hne hc hdata)
      · obtain ⟨z, e, heq, hall⟩ := h.dirtyEnd b.data
        exact ⟨z, e, heq, (hall i b hb rfl).1, (hall i b hb rfl).2,
          fun j c _ hc hdata => hall j c hc hdata⟩
    · rw [Buffer.copyData_noteZeroArea, hord.copyData_wider_start hroom, bytes]
      congr 1
      exact Buffer.copyData_of_data_eq (hsame b.data) b
    · intro j c hne hc
      refine ⟨Buffer.copyData_of_data_eq (hsame c.data) c, fun hdata => ⟨hkept, hdata, ?_⟩⟩
      exact hleft.le.trans (h.start_le_others hb hclean hne hc hdata)
  · rw [if_neg hkeep]
    have hlt : b.stop - b.start + n + 0 < 2 ^ 32 := hn
    have hend := hord.internalEnd_movedTo w.memory.nextData n 0
    refine ⟨_, _, _, rfl, ?_, ?_, ?_, ?_⟩
    · refine h.moved hb rfl (hord.movedTo _ hlt) rfl rfl rfl ?_
      rw [hend]
      dsimp only
      split <;> omega
    · show 0 + n ≤ b.zeroAreaStart - b.start + n
      omega
    · have hcopy := hord.copyData_movedTo (d := w.memory.heap b.data)
        ⟨1, if b.internalEnd - b.start + n = 0 then 1 else b.internalEnd - b.start + n, 0,
          b.stop - b.start + n, overwrite (garbage w.memory.nextData) n
            (slice (w.memory.heap b.data).data b.start (b.internalEnd - b.start))⟩
        w.memory.nextData hlt ⟨_, rfl⟩
      rw [slice_zero, List.append_nil] at hcopy
      show Buffer.copyData ((w.memory.moved b.data _).heap w.memory.nextData) _ =
        slice ((w.memory.moved b.data _).heap w.memory.nextData).data 0 n ++ _
      rw [BufferMemory.moved_new]
      exact hcopy
    · intro j c _ hc
      obtain ⟨hbytes, hnew⟩ := h.moved_others _ hc
      exact ⟨hbytes, fun hdata => absurd hdata hnew⟩

/-- What `AddAtEnd` does to the family: `n` bytes of the buffer's own behind the old ones. -/
theorem Holds.addAtEnd (h : w.Holds) (hb : w.buffer i = some b) (hn : n < 2 ^ 32)
    (hkept : b.KeepsAtEnd (w.memory.heap b.data) n → b.stop + n < 2 ^ 32)
    (hmoved : ¬b.KeepsAtEnd (w.memory.heap b.data) n → b.stop - b.start + n < 2 ^ 32) :
    ∃ flag b' m', Buffer.addAtEnd garbage w.memory b n = some (flag, b', m') ∧
      (w.setBuffer i (b', m')).Holds ∧ b'.zeroAreaEnd + n ≤ b'.stop ∧
      b'.zeroSize = b.zeroSize ∧
      b'.copyData (m'.heap b'.data) =
        w.bytes b ++ slice (m'.heap b'.data).data (b'.internalEnd - n) n ∧
      ∀ j c, j ≠ i → w.buffer j = some c → c.copyData (m'.heap c.data) = w.bytes c ∧
        (c.data = b'.data → b.KeepsAtEnd (w.memory.heap b.data) n ∧ c.data = b.data ∧
          c.internalEnd ≤ b'.internalEnd - n) := by
  have hord := h.ordered i b hb
  have hne : b.data ≠ w.memory.nextData := (h.fresh i b hb).ne
  have hsize := h.size i b hb
  rw [Buffer.addAtEnd_cases hord (h.count_pos hb) (h.le_dirtyEnd hb) hne hn hkept hmoved]
  have hzero : b.zeroSize ≤ b.stop := by
    have := hord.zeroAreaEnd_le
    rw [Buffer.zeroSize]
    omega
  by_cases hkeep : b.KeepsAtEnd (w.memory.heap b.data) n
  · have hlt := hkept hkeep
    rw [if_pos hkeep]
    have hkeep' := hkeep
    obtain ⟨hroom, hclean⟩ := hkeep
    have hle : b.internalEnd ≤ b.stop := Nat.sub_le _ _
    rw [hord.getInternalEnd_eq, uint32_of_lt (by omega)] at hroom
    have hord' : Buffer.Ordered { b with stop := b.stop + n } :=
      ⟨hord.start_le, hord.zeroArea_le, hord.zeroAreaEnd_le.trans (Nat.le_add_right _ _), hlt⟩
    have hend : Buffer.internalEnd { b with stop := b.stop + n } = b.internalEnd + n :=
      Nat.sub_add_comm hzero
    have hsame (p : ℕ) : ((w.memory.setData b.data { w.memory.heap b.data with
        dirtyEnd := b.stop + n }).heap p).data = (w.memory.heap p).data :=
      BufferMemory.setData_data (by rfl) p
    refine ⟨_, _, _, rfl, ?_, Nat.add_le_add_right hord.zeroAreaEnd_le n, rfl, ?_, ?_⟩
    · refine h.grow hb rfl (Buffer.Within.refl hord').noteZeroArea.ordered rfl rfl
        (h.dirtyStart i b hb) (hend.trans_le hroom) ?_ ?_
      · intro j c _ hc hdata
        have hstart := h.dirtyStart j c hc
        rw [hdata] at hstart
        exact hstart
      · refine ⟨b.zeroSize, b.internalEnd + n, ?_, le_rfl, hend.le, fun j c hne hc hdata => ?_⟩
        · rw [Buffer.internalEnd]
          dsimp only
          omega
        · obtain ⟨hz, he⟩ := h.others_le_end hb hclean hne hc hdata
          exact ⟨hz, he.trans (Nat.le_add_right _ _)⟩
    · have hstop : Buffer.internalEnd (Buffer.noteZeroArea { b with stop := b.stop + n }) - n =
          b.internalEnd := by
        show Buffer.internalEnd { b with stop := b.stop + n } - n = _
        rw [hend, Nat.add_sub_cancel]
      rw [hstop, Buffer.copyData_noteZeroArea, hord.copyData_wider_end hlt, bytes]
      congr 1
      exact Buffer.copyData_of_data_eq (hsame b.data) b
    · intro j c hne hc
      refine ⟨Buffer.copyData_of_data_eq (hsame c.data) c, fun hdata => ⟨hkeep', hdata, ?_⟩⟩
      show c.internalEnd ≤ Buffer.internalEnd { b with stop := b.stop + n } - n
      rw [hend, Nat.add_sub_cancel]
      exact (h.others_le_end hb hclean hne hc hdata).2
  · have hlt : b.stop - b.start + 0 + n < 2 ^ 32 := hmoved hkeep
    rw [if_neg hkeep]
    have hend := hord.internalEnd_movedTo w.memory.nextData 0 n
    refine ⟨_, _, _, rfl, ?_, ?_, ?_, ?_, ?_⟩
    · refine h.moved hb rfl (hord.movedTo _ hlt) rfl rfl rfl ?_
      rw [hend]
      dsimp only
      split <;> omega
    · have := hord.zeroAreaEnd_le
      simp only [Buffer.movedTo]
      omega
    · have := hord.start_le
      simp only [Buffer.zeroSize, Buffer.movedTo]
      omega
    · have hcopy := hord.copyData_movedTo (d := w.memory.heap b.data)
        ⟨1, if b.internalEnd - b.start + n = 0 then 1 else b.internalEnd - b.start + n, 0,
          b.stop - b.start + n, overwrite (garbage w.memory.nextData) 0
            (slice (w.memory.heap b.data).data b.start (b.internalEnd - b.start))⟩
        w.memory.nextData hlt ⟨_, rfl⟩
      rw [slice_zero, List.nil_append] at hcopy
      rw [hend, Nat.add_sub_cancel]
      show Buffer.copyData ((w.memory.moved b.data _).heap w.memory.nextData) _ = _ ++
        slice ((w.memory.moved b.data _).heap w.memory.nextData).data _ n
      rw [BufferMemory.moved_new]
      exact hcopy
    · intro j c _ hc
      obtain ⟨hbytes, hnew⟩ := h.moved_others _ hc
      exact ⟨hbytes, fun hdata => absurd hdata hnew⟩

end BufferWorld

end Ns3Noc
