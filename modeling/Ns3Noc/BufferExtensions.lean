import Mathlib
import Ns3Noc.BufferRefinement

/-!
# Extensions that are written at once

Bytes that are added at one end of a buffer and then written through an iterator. The buffer
denotes its old bytes with the new ones, and no other buffer changes.
-/
namespace Ns3Noc
open ByteSlices SharedBlocks

theorem ByteSlices.overlay_front {α : Type*} {l l' : List α} (h : l'.length = l.length)
    (s : List α) : overlay (l ++ s) 0 l' = l' ++ s := by
  rw [overlay, List.take_zero, List.nil_append, Nat.zero_add, h, List.drop_left]

theorem ByteSlices.overlay_back {α : Type*} {l l' : List α} (h : l'.length = l.length)
    (s : List α) : overlay (s ++ l) s.length l' = s ++ l' := by
  rw [overlay, List.take_left, h, ← List.length_append, List.drop_length, List.append_nil]

namespace Buffer
variable {garbage : ℕ → ℕ → UInt8} {m m' : BufferMemory} {b b' : Buffer} {n : ℕ} {flag : Bool}

/-- `AddAtStart` moves the end of the buffer by no more than the bytes it adds. -/
theorem shape_of_addAtStart (h : b.Ordered) (hpos : 0 < (m.heap b.data).count)
    (hstart : (m.heap b.data).dirtyStart ≤ b.start) (hne : b.data ≠ m.nextData)
    (hn : b.stop - b.start + n < 2 ^ 32)
    (hadd : addAtStart garbage m b n = some (flag, b', m')) :
    b'.stop ≤ b.stop + n ∧ b'.zeroSize = b.zeroSize := by
  have h1 := h.start_le
  rw [addAtStart_cases h hpos hstart hne hn] at hadd
  split at hadd
  · obtain ⟨-, hb, -⟩ := Prod.mk.inj (Option.some.inj hadd) |>.imp_right Prod.mk.inj
    rw [← hb]
    exact ⟨Nat.le_add_right _ _, rfl⟩
  · obtain ⟨-, hb, -⟩ := Prod.mk.inj (Option.some.inj hadd) |>.imp_right Prod.mk.inj
    rw [← hb]
    simp only [zeroSize, movedTo]
    omega

/-- The new block of a constructed buffer. -/
theorem construct_eq (garbage : ℕ → ℕ → UInt8) (m : BufferMemory) (z : ℕ) :
    ∃ m', construct garbage m z = (⟨m.nextData, min 1 m.recommendedStart, min 1 m.recommendedStart,
        uint32 (min 1 m.recommendedStart + z), min 1 m.recommendedStart,
        uint32 (min 1 m.recommendedStart + z)⟩, m') ∧
      m'.heap m.nextData = ⟨1, 1, min 1 m.recommendedStart,
        uint32 (min 1 m.recommendedStart + z), garbage m.nextData⟩ ∧
      ∀ p, p ≠ m.nextData → m'.heap p = m.heap p := by
  refine ⟨(construct garbage m z).2, ?_, ?_, fun p hp => ?_⟩
  · simp [construct, create, BufferMemory.setData]
  · simp [construct, create, BufferMemory.setData]
  · simp [construct, create, BufferMemory.setData, hp]

def startBytes (d : BufferData) (b : Buffer) : List UInt8 :=
  slice d.data b.start (b.zeroAreaStart - b.start)

def endBytes (d : BufferData) (b : Buffer) : List UInt8 :=
  slice d.data b.zeroAreaStart (b.stop - b.zeroAreaEnd)

theorem length_startBytes (d : BufferData) (b : Buffer) :
    (startBytes d b).length = b.zeroAreaStart - b.start := length_slice _ _ _

theorem length_endBytes (d : BufferData) (b : Buffer) :
    (endBytes d b).length = b.stop - b.zeroAreaEnd := length_slice _ _ _

end Buffer

namespace BufferWorld
variable {garbage : ℕ → ℕ → UInt8} {w : BufferWorld} {i n : ℕ} {b : Buffer} {l : List UInt8}

/-- The new bytes are written from address `a` on through an iterator of the buffer `b'`. -/
structure Extended (w : BufferWorld) (i : ℕ) (b' : Buffer) (m' : BufferMemory) (it : BufferIterator)
    (a : ℕ) (l s : List UInt8) : Prop where
  region : it.Region l.length a
  holds : (w.setBuffer i (b', it.store m' a l)).Holds
  bytes : b'.copyData ((it.store m' a l).heap b'.data) = s
  others : ∀ j c, j ≠ i → w.buffer j = some c →
    c.copyData ((it.store m' a l).heap c.data) = w.bytes c

theorem Extended.of_owns {b' : Buffer} {m' : BufferMemory} {it : BufferIterator} {a o : ℕ}
    {s : List UInt8} (hb : w.buffer i = some b) (h : (w.setBuffer i (b', m')).Holds)
    (hregion : it.Region l.length a) (hdata : it.data = b'.data)
    (ho : (w.setBuffer i (b', m')).Owns i b' l.length a o)
    (hbytes : overlay (b'.copyData (m'.heap b'.data)) o l = s)
    (hothers : ∀ j c, j ≠ i → w.buffer j = some c → c.copyData (m'.heap c.data) = w.bytes c) :
    w.Extended i b' m' it a l s := by
  obtain ⟨hholds, hown, hrest⟩ := h.store (k := 0) ho hdata (by rw [Nat.zero_add])
  refine ⟨hregion, hholds, hown.trans hbytes, fun j c hj hc => ?_⟩
  have hbuffer : (w.setBuffer i (b', m')).buffer j = some c := by
    rw [buffer_setBuffer hb, if_neg hj, hc]
  exact (hrest j c hj hbuffer).trans (hothers j c hj hc)

/-- Bytes before a buffer. -/
theorem Holds.prepend (h : w.Holds) (garbage : ℕ → ℕ → UInt8) (hb : w.buffer i = some b)
    (hn : b.stop - b.start + l.length < 2 ^ 32) :
    ∃ flag b' m', Buffer.addAtStart garbage w.memory b l.length = some (flag, b', m') ∧
      b'.stop ≤ b.stop + l.length ∧ b'.zeroSize = b.zeroSize ∧
      (∀ j c, j ≠ i → w.buffer j = some c → c.data = b'.data → c.data = b.data) ∧
      w.Extended i b' m' (BufferIterator.ofBegin b') b'.start l (l ++ w.bytes b) := by
  obtain ⟨flag, b', m', hadd, hholds, hroom, hcopy, hothers⟩ := h.addAtStart garbage hb hn
  have hb' : (w.setBuffer i (b', m')).buffer i = some b' := by
    rw [buffer_setBuffer hb, if_pos rfl]
  have hord := hholds.ordered i b' hb'
  have hregion : (BufferIterator.ofBegin b').Region l.length b'.start := by
    obtain ⟨h1, h2, h3, h4⟩ := hord
    exact ⟨le_rfl, by dsimp only [BufferIterator.ofBegin]; omega, h4, h2, Or.inl ⟨hroom, rfl⟩⟩
  obtain ⟨hstop, hzero⟩ := Buffer.shape_of_addAtStart (h.ordered i b hb) (h.count_pos hb)
    (h.dirtyStart i b hb) (h.fresh i b hb).ne hn hadd
  refine ⟨flag, b', m', hadd, hstop, hzero,
    fun j c hj hc hdata => ((hothers j c hj hc).2 hdata).2.1, ?_⟩
  refine Extended.of_owns (o := 0) hb hholds hregion rfl ⟨fun d k x hk => ?_,
    fun j c hj hc hdata => ?_⟩ ?_ (fun j c hj hc => (hothers j c hj hc).1)
  · rw [Nat.zero_add]
    exact hord.copyData_overwrite_start d (by omega)
  · rw [buffer_setBuffer hb, if_neg hj] at hc
    exact Or.inr ((hothers j c hj hc).2 hdata).2.2
  · rw [hcopy, overlay_front (by rw [length_slice])]

/-- Bytes behind a buffer. -/
theorem Holds.append (h : w.Holds) (hb : w.buffer i = some b) (hl : l.length < 2 ^ 32)
    (hkept : b.KeepsAtEnd (w.memory.heap b.data) l.length → b.stop + l.length < 2 ^ 32)
    (hmoved : ¬b.KeepsAtEnd (w.memory.heap b.data) l.length →
      b.stop - b.start + l.length < 2 ^ 32) :
    ∃ flag b' m' it, Buffer.addAtEnd garbage w.memory b l.length = some (flag, b', m') ∧
      (BufferIterator.ofEnd b').prev l.length = some it ∧ it.data = b'.data ∧
      it.current = b'.stop - l.length ∧ b'.zeroSize = b.zeroSize ∧
      (∀ j c, j ≠ i → w.buffer j = some c → c.data = b'.data →
        b.KeepsAtEnd (w.memory.heap b.data) l.length ∧ c.data = b.data) ∧
      w.Extended i b' m' it (b'.internalEnd - l.length) l (w.bytes b ++ l) := by
  obtain ⟨flag, b', m', hadd, hholds, hroom, hzero, hcopy, hothers⟩ :=
    h.addAtEnd hb hl hkept hmoved
  have hb' : (w.setBuffer i (b', m')).buffer i = some b' := by
    rw [buffer_setBuffer hb, if_pos rfl]
  have hord := hholds.ordered i b' hb'
  obtain ⟨it, hprev, hregion, hdata, hcurrent⟩ := BufferIterator.prev_ofEnd hord hroom
  have hlength : (w.bytes b).length = b'.stop - l.length - b'.start := by
    have hlen := congrArg List.length hcopy
    rw [hord.length_copyData, List.length_append, length_slice] at hlen
    omega
  refine ⟨flag, b', m', it, hadd, hprev, hdata, hcurrent, hzero,
    fun j c hj hc hd => ⟨((hothers j c hj hc).2 hd).1, ((hothers j c hj hc).2 hd).2.1⟩, ?_⟩
  refine Extended.of_owns (o := (w.bytes b).length) hb hholds hregion hdata
    ⟨fun d k x hk => ?_, fun j c hj hc hd => ?_⟩ ?_ (fun j c hj hc => (hothers j c hj hc).1)
  · have hover := hord.copyData_overwrite_end d x
      (o := b'.stop - l.length - b'.zeroAreaEnd + k) (by omega)
    have hplace : b'.zeroAreaStart + (b'.stop - l.length - b'.zeroAreaEnd + k) =
        b'.internalEnd - l.length + k := by
      rw [Buffer.internalEnd, Buffer.zeroSize]
      obtain ⟨h1, h2, h3, h4⟩ := hord
      omega
    have hposition : b'.zeroAreaEnd - b'.start + (b'.stop - l.length - b'.zeroAreaEnd + k) =
        (w.bytes b).length + k := by
      obtain ⟨h1, h2, h3, h4⟩ := hord
      omega
    rwa [hplace, hposition] at hover
  · rw [buffer_setBuffer hb, if_neg hj] at hc
    exact Or.inl ((hothers j c hj hc).2 hd).2.2
  · rw [hcopy, overlay_back (by rw [length_slice])]

end BufferWorld

end Ns3Noc
