import Mathlib.Order.Nat
import Ns3Noc.Buffer

/-!
# Offsets of a buffer

A buffer whose offsets are in order denotes the bytes before its zero area, the zeros and the bytes
after it. Removing drops and takes of these, and gives a part of the window on the block.
-/
namespace Ns3Noc
open ByteSlices

theorem uint32_of_lt {x : ℕ} (h : x < 2 ^ 32) : uint32 x = x := Nat.mod_eq_of_lt h

theorem uint32Sub_of_le {x y : ℕ} (h : y ≤ x) (hx : x < 2 ^ 32) : uint32Sub x y = x - y := by
  rw [uint32Sub]
  omega

namespace Buffer

/-- The offsets are in order, in 32 bits. -/
structure Ordered (b : Buffer) : Prop where
  start_le : b.start ≤ b.zeroAreaStart
  zeroArea_le : b.zeroAreaStart ≤ b.zeroAreaEnd
  zeroAreaEnd_le : b.zeroAreaEnd ≤ b.stop
  stop_lt : b.stop < 2 ^ 32

def zeroSize (b : Buffer) : ℕ := b.zeroAreaEnd - b.zeroAreaStart

/-- Where the bytes of the buffer end in its block. -/
def internalEnd (b : Buffer) : ℕ := b.stop - b.zeroSize

variable {b b' c : Buffer} {d d' : BufferData} {n : ℕ}

theorem Ordered.getSize_eq (h : b.Ordered) : b.getSize = b.stop - b.start :=
  uint32Sub_of_le (h.start_le.trans (h.zeroArea_le.trans h.zeroAreaEnd_le)) h.stop_lt

theorem Ordered.getInternalEnd_eq (h : b.Ordered) : b.getInternalEnd = b.internalEnd := by
  obtain ⟨h1, h2, h3, h4⟩ := h
  rw [getInternalEnd, uint32Sub_of_le h2 (by omega), uint32Sub_of_le (by omega) h4]
  rfl

theorem Ordered.getInternalSize_eq (h : b.Ordered) :
    b.getInternalSize = b.internalEnd - b.start := by
  obtain ⟨h1, h2, h3, h4⟩ := h
  rw [getInternalSize, uint32Sub_of_le h1 (by omega), internalEnd, zeroSize, uint32, uint32Sub]
  omega

/-- The bytes of a buffer as slices of its block. -/
theorem Ordered.copyData_eq (h : b.Ordered) (d : BufferData) :
    b.copyData d = slice d.data b.start (b.zeroAreaStart - b.start) ++
      List.replicate b.zeroSize 0 ++ slice d.data b.zeroAreaStart (b.stop - b.zeroAreaEnd) := by
  obtain ⟨h1, h2, h3, h4⟩ := h
  rw [copyData, uint32Sub_of_le h1 (by omega), uint32Sub_of_le h2 (by omega),
    uint32Sub_of_le h3 h4, zeroSize]

theorem Ordered.length_copyData (h : b.Ordered) (d : BufferData) :
    (b.copyData d).length = b.stop - b.start := by
  rw [h.copyData_eq]
  obtain ⟨h1, h2, h3, h4⟩ := h
  simp only [List.length_append, length_slice, List.length_replicate, zeroSize]
  omega

/-- The bytes depend on nothing but the part of the block that the buffer looks at. -/
theorem Ordered.copyData_congr (h : b.Ordered)
    (hd : ∀ k, b.start ≤ k → k < b.internalEnd → d.data k = d'.data k) :
    b.copyData d = b.copyData d' := by
  rw [h.copyData_eq, h.copyData_eq]
  obtain ⟨h1, h2, h3, h4⟩ := h
  rw [internalEnd, zeroSize] at hd
  congr 1
  · congr 1
    exact slice_congr (fun k hk => hd _ (by omega) (by omega))
  · exact slice_congr (fun k hk => hd _ (by omega) (by omega))

theorem copyData_of_data_eq (h : d.data = d'.data) (b : Buffer) : b.copyData d = b.copyData d' := by
  rw [copyData, copyData, h]

/-- A wider window before the zero area. -/
theorem Ordered.copyData_wider_start (h : b.Ordered) (hn : n ≤ b.start) (d : BufferData) :
    copyData d { b with start := b.start - n } =
      slice d.data (b.start - n) n ++ b.copyData d := by
  have hord : Ordered { b with start := b.start - n } :=
    ⟨(Nat.sub_le _ _).trans h.start_le, h.zeroArea_le, h.zeroAreaEnd_le, h.stop_lt⟩
  have hsplit : b.zeroAreaStart - (b.start - n) = n + (b.zeroAreaStart - b.start) := by
    have := h.start_le
    omega
  rw [hord.copyData_eq, h.copyData_eq]
  dsimp only
  rw [hsplit, slice_add, Nat.sub_add_cancel hn, List.append_assoc, List.append_assoc,
    List.append_assoc]
  rfl

/-- A wider window behind the zero area. -/
theorem Ordered.copyData_wider_end (h : b.Ordered) (hn : b.stop + n < 2 ^ 32) (d : BufferData) :
    copyData d { b with stop := b.stop + n } =
      b.copyData d ++ slice d.data b.internalEnd n := by
  have hord : Ordered { b with stop := b.stop + n } :=
    ⟨h.start_le, h.zeroArea_le, h.zeroAreaEnd_le.trans (Nat.le_add_right _ _), hn⟩
  have hsplit : b.stop + n - b.zeroAreaEnd = b.stop - b.zeroAreaEnd + n :=
    Nat.sub_add_comm h.zeroAreaEnd_le
  have hend : b.zeroAreaStart + (b.stop - b.zeroAreaEnd) = b.internalEnd := by
    obtain ⟨h1, h2, h3, h4⟩ := h
    rw [internalEnd, zeroSize]
    omega
  rw [hord.copyData_eq, h.copyData_eq]
  dsimp only
  rw [hsplit, slice_add, hend, ← List.append_assoc]
  rfl

/-- The buffer at the start of a new block, with `pre` bytes before its own and `post` behind. -/
def movedTo (b : Buffer) (p pre post : ℕ) : Buffer where
  data := p
  maxZeroAreaStart := max b.maxZeroAreaStart (b.zeroAreaStart - b.start + pre)
  zeroAreaStart := b.zeroAreaStart - b.start + pre
  zeroAreaEnd := b.zeroAreaEnd - b.start + pre
  start := 0
  stop := b.stop - b.start + pre + post

theorem Ordered.movedTo (h : b.Ordered) (p : ℕ) {pre post : ℕ}
    (hlt : b.stop - b.start + pre + post < 2 ^ 32) : (b.movedTo p pre post).Ordered := by
  obtain ⟨h1, h2, h3, h4⟩ := h
  refine ⟨Nat.zero_le _, ?_, ?_, hlt⟩
  · exact Nat.add_le_add_right (Nat.sub_le_sub_right h2 _) _
  · exact (Nat.add_le_add_right (Nat.sub_le_sub_right h3 _) _).trans (Nat.le_add_right _ _)

theorem Ordered.internalEnd_movedTo (h : b.Ordered) (p pre post : ℕ) :
    (b.movedTo p pre post).internalEnd = b.internalEnd - b.start + pre + post := by
  obtain ⟨h1, h2, h3, h4⟩ := h
  simp only [internalEnd, zeroSize, Buffer.movedTo]
  omega

/-- The bytes after the move: the old ones between those that are new. -/
theorem Ordered.copyData_movedTo (h : b.Ordered) (d' : BufferData) (p : ℕ) {pre post : ℕ}
    (hlt : b.stop - b.start + pre + post < 2 ^ 32)
    (hd : ∃ f, d'.data = overwrite f pre (slice d.data b.start (b.internalEnd - b.start))) :
    (b.movedTo p pre post).copyData d' =
      slice d'.data 0 pre ++ b.copyData d ++
        slice d'.data (b.internalEnd - b.start + pre) post := by
  obtain ⟨f, hf⟩ := hd
  have hlength : b.internalEnd - b.start = b.zeroAreaStart - b.start + (b.stop - b.zeroAreaEnd) := by
    obtain ⟨h1, h2, h3, h4⟩ := h
    rw [internalEnd, zeroSize]
    omega
  have hhead : slice d'.data (0 + pre) (b.zeroAreaStart - b.start) =
      slice d.data b.start (b.zeroAreaStart - b.start) := by
    have hpart := slice_memcpy_part f d.data pre b.start (o := 0)
      (k := b.zeroAreaStart - b.start) (n := b.internalEnd - b.start) (by omega)
    rwa [← hf, Nat.add_zero, Nat.add_zero, ← Nat.zero_add pre] at hpart
  have htail : slice d'.data (b.zeroAreaStart - b.start + pre) (b.stop - b.zeroAreaEnd) =
      slice d.data b.zeroAreaStart (b.stop - b.zeroAreaEnd) := by
    have hpart := slice_memcpy_part f d.data pre b.start (o := b.zeroAreaStart - b.start)
      (k := b.stop - b.zeroAreaEnd) (n := b.internalEnd - b.start) (by omega)
    rwa [← hf, Nat.add_comm pre, Nat.add_sub_cancel' h.start_le] at hpart
  have hzero : (b.movedTo p pre post).zeroSize = b.zeroSize := by
    have := h.start_le
    simp only [zeroSize, Buffer.movedTo]
    omega
  have hstop : (b.movedTo p pre post).stop - (b.movedTo p pre post).zeroAreaEnd =
      b.stop - b.zeroAreaEnd + post := by
    obtain ⟨h1, h2, h3, h4⟩ := h
    simp only [Buffer.movedTo]
    omega
  have hend : b.zeroAreaStart - b.start + pre + (b.stop - b.zeroAreaEnd) =
      b.internalEnd - b.start + pre := by omega
  rw [(h.movedTo p hlt).copyData_eq, h.copyData_eq, hzero, hstop, ← hhead, ← htail, ← hend]
  show slice d'.data 0 (b.zeroAreaStart - b.start + pre) ++ _ ++
    slice d'.data (b.zeroAreaStart - b.start + pre) _ = _
  rw [Nat.add_comm _ pre, slice_add, slice_add]
  simp only [List.append_assoc]

/-- A window on the same block that is no wider at either end. -/
structure Within (b' b : Buffer) : Prop where
  data : b'.data = b.data
  ordered : b'.Ordered
  start : b.start ≤ b'.start
  zeroSize : b'.zeroSize ≤ b.zeroSize
  internalEnd : b'.internalEnd ≤ b.internalEnd

theorem Within.refl (h : b.Ordered) : b.Within b := ⟨rfl, h, le_rfl, le_rfl, le_rfl⟩

theorem Within.trans (h : c.Within b') (h' : b'.Within b) : c.Within b :=
  ⟨h.data.trans h'.data, h.ordered, h'.start.trans h.start, h.zeroSize.trans h'.zeroSize,
    h.internalEnd.trans h'.internalEnd⟩

theorem copyData_noteZeroArea (b : Buffer) (d : BufferData) :
    b.noteZeroArea.copyData d = b.copyData d := rfl

theorem Within.noteZeroArea (h : b'.Within b) : b'.noteZeroArea.Within b :=
  ⟨h.data, ⟨h.ordered.start_le, h.ordered.zeroArea_le, h.ordered.zeroAreaEnd_le,
    h.ordered.stop_lt⟩, h.start, h.zeroSize, h.internalEnd⟩

/-- Three areas of the same lengths. Where an area is empty, its address does not matter. -/
theorem areas_congr {f : ℕ → UInt8} {a a' m m' z z' p p' t t' : ℕ} (hm : m = m')
    (ha : m = 0 ∨ a = a') (hz : z = z') (ht : t = t') (hp : t = 0 ∨ p = p') :
    slice f a m ++ List.replicate z 0 ++ slice f p t =
      slice f a' m' ++ List.replicate z' 0 ++ slice f p' t' := by
  subst hm hz ht
  congr 1
  · congr 1
    rcases ha with rfl | rfl
    · rfl
    · rfl
  · rcases hp with rfl | rfl
    · rfl
    · rfl

theorem removeAtStart_spec (h : b.Ordered) (hn : b.start + n < 2 ^ 32) (d : BufferData) :
    (b.removeAtStart n).Within b ∧
      (b.removeAtStart n).copyData d = (b.copyData d).drop n := by
  have hdrop : (b.copyData d).drop n =
      slice d.data (b.start + n) (b.zeroAreaStart - b.start - n) ++
        List.replicate (b.zeroSize - (n - (b.zeroAreaStart - b.start))) 0 ++
        slice d.data (b.zeroAreaStart + (n - (b.zeroAreaStart - b.start + b.zeroSize)))
          (b.stop - b.zeroAreaEnd - (n - (b.zeroAreaStart - b.start + b.zeroSize))) := by
    rw [h.copyData_eq d, List.drop_append, List.drop_append, drop_slice, drop_slice,
      List.drop_replicate]
    simp only [length_slice, List.length_append, List.length_replicate]
  -- what a window with these offsets has to satisfy
  have hkey (b' : Buffer) (hw : b'.Within b)
      (hm : b'.zeroAreaStart - b'.start = b.zeroAreaStart - b.start - n)
      (ha : b'.zeroAreaStart - b'.start = 0 ∨ b'.start = b.start + n)
      (hz : b'.zeroSize = b.zeroSize - (n - (b.zeroAreaStart - b.start)))
      (ht : b'.stop - b'.zeroAreaEnd =
        b.stop - b.zeroAreaEnd - (n - (b.zeroAreaStart - b.start + b.zeroSize)))
      (hp : b'.stop - b'.zeroAreaEnd = 0 ∨ b'.zeroAreaStart =
        b.zeroAreaStart + (n - (b.zeroAreaStart - b.start + b.zeroSize))) :
      b'.noteZeroArea.Within b ∧ b'.noteZeroArea.copyData d = (b.copyData d).drop n := by
    refine ⟨hw.noteZeroArea, ?_⟩
    rw [hdrop, copyData_noteZeroArea, hw.ordered.copyData_eq]
    exact areas_congr hm ha hz ht hp
  obtain ⟨h1, h2, h3, h4⟩ := h
  rw [removeAtStart, uint32_of_lt hn, uint32Sub_of_le h2 (by omega)]
  dsimp only
  simp only [zeroSize] at hkey
  split
  · rename_i hhead
    refine hkey _ ⟨rfl, ⟨hhead, h2, h3, h4⟩, ?_, ?_, ?_⟩ ?_ ?_ ?_ ?_ ?_ <;>
      simp only [internalEnd, zeroSize, or_true] <;> omega
  · split
    · rename_i hzero
      have hdelta : uint32Sub (b.start + n) b.zeroAreaStart = b.start + n - b.zeroAreaStart :=
        uint32Sub_of_le (by omega) hn
      rw [hdelta, uint32Sub_of_le (by omega) (by omega), uint32Sub_of_le (by omega) h4]
      refine hkey _ ⟨rfl, ⟨?_, ?_, ?_, ?_⟩, ?_, ?_, ?_⟩ ?_ ?_ ?_ ?_ ?_ <;>
        simp only [internalEnd, zeroSize] <;> omega
    · split
      · rw [uint32Sub_of_le (by omega) (by omega), uint32Sub_of_le (by omega) h4]
        refine hkey _ ⟨rfl, ⟨?_, ?_, ?_, ?_⟩, ?_, ?_, ?_⟩ ?_ ?_ ?_ ?_ ?_ <;>
          simp only [internalEnd, zeroSize] <;> omega
      · rw [uint32Sub_of_le (by omega) h4]
        refine hkey _ ⟨rfl, ⟨?_, ?_, ?_, ?_⟩, ?_, ?_, ?_⟩ ?_ ?_ ?_ ?_ ?_ <;>
          simp only [internalEnd, zeroSize] <;> omega

theorem removeAtEnd_spec (h : b.Ordered) (n : ℕ) (d : BufferData) :
    (b.removeAtEnd n).Within b ∧
      (b.removeAtEnd n).copyData d = (b.copyData d).take (b.stop - b.start - n) := by
  have htake : (b.copyData d).take (b.stop - b.start - n) =
      slice d.data b.start (min (b.stop - b.start - n) (b.zeroAreaStart - b.start)) ++
        List.replicate (min (b.stop - b.start - n - (b.zeroAreaStart - b.start)) b.zeroSize) 0 ++
        slice d.data b.zeroAreaStart
          (min (b.stop - b.start - n - (b.zeroAreaStart - b.start + b.zeroSize))
            (b.stop - b.zeroAreaEnd)) := by
    rw [h.copyData_eq d, List.take_append, List.take_append, take_slice, take_slice,
      List.take_replicate]
    simp only [length_slice, List.length_append, List.length_replicate]
  have hkey (b' : Buffer) (hw : b'.Within b)
      (hm : b'.zeroAreaStart - b'.start =
        min (b.stop - b.start - n) (b.zeroAreaStart - b.start))
      (ha : b'.start = b.start)
      (hz : b'.zeroSize = min (b.stop - b.start - n - (b.zeroAreaStart - b.start)) b.zeroSize)
      (ht : b'.stop - b'.zeroAreaEnd =
        min (b.stop - b.start - n - (b.zeroAreaStart - b.start + b.zeroSize))
          (b.stop - b.zeroAreaEnd))
      (hp : b'.stop - b'.zeroAreaEnd = 0 ∨ b'.zeroAreaStart = b.zeroAreaStart) :
      b'.noteZeroArea.Within b ∧
        b'.noteZeroArea.copyData d = (b.copyData d).take (b.stop - b.start - n) := by
    refine ⟨hw.noteZeroArea, ?_⟩
    rw [htake, copyData_noteZeroArea, hw.ordered.copyData_eq]
    exact areas_congr hm (Or.inr ha) hz ht hp
  obtain ⟨h1, h2, h3, h4⟩ := h
  have hsize : uint32Sub b.stop b.start = b.stop - b.start := uint32Sub_of_le (by omega) h4
  rw [removeAtEnd, hsize, uint32Sub_of_le (by omega) h4]
  simp only [zeroSize] at hkey
  split
  · refine hkey _ ⟨rfl, ⟨?_, ?_, ?_, ?_⟩, ?_, ?_, ?_⟩ ?_ ?_ ?_ ?_ ?_ <;>
      simp only [internalEnd, zeroSize, or_true] <;> omega
  · split
    · refine hkey _ ⟨rfl, ⟨?_, ?_, ?_, ?_⟩, ?_, ?_, ?_⟩ ?_ ?_ ?_ ?_ ?_ <;>
        simp only [internalEnd, zeroSize, or_true] <;> omega
    · split
      · refine hkey _ ⟨rfl, ⟨?_, ?_, ?_, ?_⟩, ?_, ?_, ?_⟩ ?_ ?_ ?_ ?_ ?_ <;>
          simp only [internalEnd, zeroSize] <;> omega
      · refine hkey _ ⟨rfl, ⟨?_, ?_, ?_, ?_⟩, ?_, ?_, ?_⟩ ?_ ?_ ?_ ?_ ?_ <;>
          simp only [internalEnd, zeroSize] <;> omega

end Buffer

end Ns3Noc
