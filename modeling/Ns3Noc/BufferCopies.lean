import Mathlib
import Ns3Noc.BufferOffsets

/-!
# Copies of the bytes of a buffer

`CopyData` goes through the three areas of a buffer until it has copied the requested number of
bytes. It returns how much it took off that number, and it takes off the bytes of an area only when
it goes on to the next one.
-/
namespace Ns3Noc.Buffer
open ByteSlices

/-- `g_zeroes.size` -/
def zeroesSize : ℕ := 1000

/-- The loop of the copy from `g_zeroes`, with the address behind the copied bytes. -/
def copyZeroes (memory : ℕ → UInt8) (buffer left : ℕ) : (ℕ → UInt8) × ℕ :=
  if left > 0 then
    let toWrite := min left zeroesSize
    copyZeroes (overwrite memory buffer (List.replicate toWrite 0)) (buffer + toWrite)
      (left - toWrite)
  else (memory, buffer)
termination_by left
decreasing_by
  rw [zeroesSize]
  omega

/-- `CopyData` to address `buffer` of a memory, with the number that it returns. -/
def copyDataTo (d : BufferData) (b : Buffer) (memory : ℕ → UInt8) (buffer originalSize : ℕ) :
    (ℕ → UInt8) × ℕ :=
  let size := originalSize
  if size > 0 then
    let tmpsize := min (uint32Sub b.zeroAreaStart b.start) size
    let memory := overwrite memory buffer (slice d.data b.start tmpsize)
    let buffer := buffer + tmpsize
    if size > tmpsize then
      let size := uint32Sub size (uint32Sub b.zeroAreaStart b.start)
      let tmpsize := min (uint32Sub b.zeroAreaEnd b.zeroAreaStart) size
      let (memory, buffer) := copyZeroes memory buffer tmpsize
      if size > tmpsize then
        let size := uint32Sub size tmpsize
        let tmpsize := min (uint32Sub b.stop b.zeroAreaEnd) size
        (overwrite memory buffer (slice d.data b.zeroAreaStart tmpsize),
          uint32Sub originalSize size)
      else (memory, uint32Sub originalSize size)
    else (memory, uint32Sub originalSize size)
  else (memory, uint32Sub originalSize size)

/-- The same loop on a stream. -/
def streamZeroes (os : List UInt8) (left : ℕ) : List UInt8 :=
  if left > 0 then
    let toWrite := min left zeroesSize
    streamZeroes (os ++ List.replicate toWrite 0) (left - toWrite)
  else os
termination_by left
decreasing_by
  rw [zeroesSize]
  omega

/-- `CopyData` to a stream. -/
def copyDataStream (d : BufferData) (b : Buffer) (os : List UInt8) (size : ℕ) : List UInt8 :=
  if size > 0 then
    let tmpsize := min (uint32Sub b.zeroAreaStart b.start) size
    let os := os ++ slice d.data b.start tmpsize
    if size > tmpsize then
      let size := uint32Sub size (uint32Sub b.zeroAreaStart b.start)
      let tmpsize := min (uint32Sub b.zeroAreaEnd b.zeroAreaStart) size
      let os := streamZeroes os tmpsize
      if size > tmpsize then
        let size := uint32Sub size tmpsize
        let tmpsize := min (uint32Sub b.stop b.zeroAreaEnd) size
        os ++ slice d.data b.zeroAreaStart tmpsize
      else os
    else os
  else os

theorem copyZeroes_eq (memory : ℕ → UInt8) (buffer left : ℕ) :
    copyZeroes memory buffer left = (overwrite memory buffer (List.replicate left 0),
      buffer + left) := by
  induction left using Nat.strong_induction_on generalizing memory buffer with
  | h left ih =>
    rw [copyZeroes]
    split
    · rename_i hpos
      have hle : min left zeroesSize ≤ left := Nat.min_le_left _ _
      have hlt : left - min left zeroesSize < left := by
        rw [zeroesSize]
        omega
      have hover := overwrite_append memory buffer (List.replicate (min left zeroesSize) (0 : UInt8))
        (List.replicate (left - min left zeroesSize) 0)
      rw [List.length_replicate, List.replicate_append_replicate, Nat.add_sub_cancel' hle] at hover
      dsimp only
      rw [ih _ hlt, hover, Nat.add_assoc, Nat.add_sub_cancel' hle]
    · rename_i hpos
      obtain rfl : left = 0 := by omega
      simp

theorem streamZeroes_eq (os : List UInt8) (left : ℕ) :
    streamZeroes os left = os ++ List.replicate left 0 := by
  induction left using Nat.strong_induction_on generalizing os with
  | h left ih =>
    rw [streamZeroes]
    split
    · rename_i hpos
      have hle : min left zeroesSize ≤ left := Nat.min_le_left _ _
      have hlt : left - min left zeroesSize < left := by
        rw [zeroesSize]
        omega
      dsimp only
      rw [ih _ hlt, List.append_assoc, List.replicate_append_replicate, Nat.add_sub_cancel' hle]
    · rename_i hpos
      obtain rfl : left = 0 := by omega
      simp

variable {b : Buffer} {n : ℕ}

/-- The first bytes of a buffer, area by area. -/
theorem Ordered.take_copyData (h : b.Ordered) (d : BufferData) (n : ℕ) :
    (b.copyData d).take n =
      slice d.data b.start (min n (b.zeroAreaStart - b.start)) ++
        List.replicate (min (n - (b.zeroAreaStart - b.start)) b.zeroSize) 0 ++
        slice d.data b.zeroAreaStart
          (min (n - (b.zeroAreaStart - b.start + b.zeroSize)) (b.stop - b.zeroAreaEnd)) := by
  rw [h.copyData_eq d, List.take_append, List.take_append, take_slice, take_slice,
    List.take_replicate]
  simp only [length_slice, List.length_append, List.length_replicate]

/-- What `CopyData` takes off the requested number. -/
def takenOff (b : Buffer) (n : ℕ) : ℕ :=
  if n ≤ b.zeroAreaStart - b.start then 0
  else if n ≤ b.zeroAreaEnd - b.start then b.zeroAreaStart - b.start
  else b.zeroAreaEnd - b.start

theorem Ordered.copyDataTo_eq (h : b.Ordered) (hn : n < 2 ^ 32) (d : BufferData)
    (memory : ℕ → UInt8) (buffer : ℕ) :
    b.copyDataTo d memory buffer n =
      (overwrite memory buffer ((b.copyData d).take n), b.takenOff n) := by
  rw [h.take_copyData]
  obtain ⟨h1, h2, h3, h4⟩ := h
  have hzero : b.zeroAreaEnd - b.start =
      b.zeroAreaStart - b.start + (b.zeroAreaEnd - b.zeroAreaStart) := by omega
  rw [copyDataTo, takenOff, zeroSize, uint32Sub_of_le h1 (by omega),
    uint32Sub_of_le h2 (by omega), uint32Sub_of_le h3 h4, hzero]
  have hsum : b.zeroAreaStart - b.start + (b.zeroAreaEnd - b.zeroAreaStart) < 2 ^ 32 := by omega
  generalize b.zeroAreaStart - b.start = l at *
  generalize b.zeroAreaEnd - b.zeroAreaStart = z at *
  generalize b.stop - b.zeroAreaEnd = t
  have hover (k : ℕ) := overwrite_append memory buffer (slice d.data b.start l)
    (List.replicate k 0)
  simp only [length_slice] at hover
  by_cases hpos : n > 0
  · rw [if_pos hpos]
    dsimp only
    by_cases hhead : n ≤ l
    · rw [Nat.min_eq_right hhead, if_neg (lt_irrefl n), if_pos hhead, Nat.min_eq_left hhead,
        Nat.sub_eq_zero_of_le hhead, Nat.sub_eq_zero_of_le (hhead.trans (Nat.le_add_right l z)),
        Nat.zero_min, Nat.zero_min, uint32Sub_of_le le_rfl hn, Nat.sub_self]
      simp
    · have hhead' : l ≤ n := (not_le.mp hhead).le
      rw [Nat.min_eq_left hhead', if_pos (not_le.mp hhead), if_neg hhead, Nat.min_eq_right hhead',
        uint32Sub_of_le hhead' hn, copyZeroes_eq]
      dsimp only
      rw [hover]
      by_cases hmid : n ≤ l + z
      · have hz : n - l ≤ z := by omega
        rw [Nat.min_eq_right hz, if_neg (lt_irrefl _), if_pos hmid, Nat.sub_eq_zero_of_le hmid,
          Nat.zero_min, Nat.min_eq_left hz, slice_zero, List.append_nil,
          uint32Sub_of_le (Nat.sub_le n l) hn, Nat.sub_sub_self hhead']
      · have hz : z ≤ n - l := by omega
        have hall := overwrite_append memory buffer (slice d.data b.start l ++ List.replicate z 0)
          (slice d.data b.zeroAreaStart (min (n - (l + z)) t))
        rw [List.length_append, length_slice, List.length_replicate, ← Nat.add_assoc] at hall
        rw [Nat.min_eq_left hz, if_pos (by omega), if_neg hmid, Nat.min_eq_right hz,
          uint32Sub_of_le hz (by omega), Nat.sub_sub, Nat.min_comm t, hall,
          uint32Sub_of_le (Nat.sub_le n _) hn, Nat.sub_sub_self (by omega)]
  · obtain rfl : n = 0 := by omega
    simp [uint32Sub]

theorem Ordered.copyDataStream_eq (h : b.Ordered) (hn : n < 2 ^ 32) (d : BufferData)
    (os : List UInt8) : b.copyDataStream d os n = os ++ (b.copyData d).take n := by
  rw [h.take_copyData]
  obtain ⟨h1, h2, h3, h4⟩ := h
  rw [copyDataStream, zeroSize, uint32Sub_of_le h1 (by omega),
    uint32Sub_of_le h2 (by omega), uint32Sub_of_le h3 h4]
  generalize b.zeroAreaStart - b.start = l
  generalize b.zeroAreaEnd - b.zeroAreaStart = z
  generalize b.stop - b.zeroAreaEnd = t
  by_cases hpos : n > 0
  · rw [if_pos hpos]
    dsimp only
    by_cases hhead : n ≤ l
    · rw [Nat.min_eq_right hhead, if_neg (lt_irrefl n), Nat.min_eq_left hhead,
        Nat.sub_eq_zero_of_le hhead, Nat.sub_eq_zero_of_le (hhead.trans (Nat.le_add_right l z)),
        Nat.zero_min, Nat.zero_min]
      simp
    · have hhead' : l ≤ n := (not_le.mp hhead).le
      rw [Nat.min_eq_left hhead', if_pos (not_le.mp hhead), Nat.min_eq_right hhead',
        uint32Sub_of_le hhead' hn, streamZeroes_eq]
      by_cases hmid : n ≤ l + z
      · have hz : n - l ≤ z := by omega
        rw [Nat.min_eq_right hz, if_neg (lt_irrefl _), Nat.sub_eq_zero_of_le hmid,
          Nat.zero_min, Nat.min_eq_left hz, slice_zero, List.append_nil, List.append_assoc]
      · have hz : z ≤ n - l := by omega
        rw [Nat.min_eq_left hz, if_pos (by omega), Nat.min_eq_right hz,
          uint32Sub_of_le hz (by omega), Nat.sub_sub, Nat.min_comm t]
        simp only [List.append_assoc]
  · obtain rfl : n = 0 := by omega
    simp

/-- What the two `CopyData` promise for `n` bytes. -/
structure CopiesData (d : BufferData) (b : Buffer) (n : ℕ) : Prop where
  memory : ∀ memory buffer, (b.copyDataTo d memory buffer n).1 =
    overwrite memory buffer ((b.copyData d).take n)
  returned : ∀ memory buffer, (b.copyDataTo d memory buffer n).2 = min n b.getSize
  stream : ∀ os, b.copyDataStream d os n = os ++ (b.copyData d).take n

/-- The bytes are always right. The number of them is right where nothing is requested, and where
more than all is requested of a buffer that ends with its zero area. -/
theorem copiesData_iff {d : BufferData} (h : b.Ordered) (hn : n < 2 ^ 32) :
    CopiesData d b n ↔ n = 0 ∨ b.stop = b.zeroAreaEnd ∧ b.getSize < n := by
  have hcount : b.takenOff n = min n b.getSize ↔
      n = 0 ∨ b.stop = b.zeroAreaEnd ∧ b.getSize < n := by
    rw [h.getSize_eq, takenOff]
    obtain ⟨h1, h2, h3, h4⟩ := h
    split
    · omega
    · split <;> omega
  rw [← hcount]
  constructor
  · intro hcopies
    have hreturned := hcopies.returned (fun _ => 0) 0
    rwa [h.copyDataTo_eq hn] at hreturned
  · intro htaken
    exact ⟨fun memory buffer => by rw [h.copyDataTo_eq hn],
      fun memory buffer => by rw [h.copyDataTo_eq hn, htaken],
      h.copyDataStream_eq hn d⟩

/-- Nine bytes of two bytes and three zeros. -/
theorem copiesData_nine : CopiesData ⟨1, 2, 0, 5, fun k => if k = 0 then 7 else 9⟩
    ⟨0, 2, 2, 5, 0, 5⟩ 9 :=
  (copiesData_iff ⟨by decide, by decide, by decide, by decide⟩ (by decide)).mpr
    (Or.inr ⟨rfl, by decide⟩)

/-- All of four bytes before an empty zero area: they are copied, and the number is zero. -/
theorem not_copiesData : ¬∀ (d : BufferData) (b : Buffer) (n : ℕ), b.CheckInternalState d →
    b.Ordered → n < 2 ^ 32 → CopiesData d b n := by
  intro h
  have hcopies := h ⟨1, 4, 0, 4, fun _ => 1⟩ ⟨0, 4, 4, 4, 0, 4⟩ 4
    ⟨by decide, by decide, by decide, by decide, by decide, by decide, by decide, by decide,
      by decide⟩
    ⟨by decide, by decide, by decide, by decide⟩ (by decide)
  have hreturned := hcopies.returned (fun _ => 0) 0
  have hzero : (copyDataTo ⟨1, 4, 0, 4, fun _ => 1⟩ ⟨0, 4, 4, 4, 0, 4⟩ (fun _ => 0) 0 4).2 = 0 := rfl
  rw [hzero] at hreturned
  exact absurd hreturned (by decide)

end Ns3Noc.Buffer
