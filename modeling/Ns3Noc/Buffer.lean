import Ns3Noc.ByteSlices
import Ns3Noc.SharedBlocks

/-!
# Buffer

A buffer is a window on a block of bytes with a virtual zero area in it: offsets from `start` to
`stop` (`m_end`), of which those from `zeroAreaStart` to `zeroAreaEnd` have no byte in the block.
Blocks are shared by copies. All offsets are 32 bit values. A call gives `none` where an assertion
fails. There is no free list (`noBUFFER_FREE_LIST`), and what a new block holds is a parameter.
-/
namespace Ns3Noc
open ByteSlices

def uint32 (x : ℕ) : ℕ := x % 2 ^ 32

/-- Subtraction of 32 bit values. -/
def uint32Sub (x y : ℕ) : ℕ := (x + 2 ^ 32 - y) % 2 ^ 32

/-- `Buffer::Data` -/
structure BufferData where
  count : ℕ
  size : ℕ
  dirtyStart : ℕ
  dirtyEnd : ℕ
  data : ℕ → UInt8

structure Buffer where
  data : ℕ
  maxZeroAreaStart : ℕ
  zeroAreaStart : ℕ
  zeroAreaEnd : ℕ
  start : ℕ
  stop : ℕ
  deriving DecidableEq, Repr

/-- The blocks by their addresses, the next address, and `g_recommendedStart`. -/
structure BufferMemory where
  heap : ℕ → BufferData
  nextData : ℕ
  recommendedStart : ℕ

namespace BufferMemory

def empty : BufferMemory := ⟨fun _ => ⟨0, 0, 0, 0, fun _ => 0⟩, 0, 0⟩

def setData (m : BufferMemory) (p : ℕ) (d : BufferData) : BufferMemory :=
  { m with heap := Function.update m.heap p d }

/-- `m_data->m_count++` -/
def acquire (m : BufferMemory) (p : ℕ) : BufferMemory :=
  m.setData p { m.heap p with count := (m.heap p).count + 1 }

/-- `m_data->m_count--` -/
def release (m : BufferMemory) (p : ℕ) : BufferMemory :=
  m.setData p { m.heap p with count := (m.heap p).count - 1 }

def recommend (m : BufferMemory) (start : ℕ) : BufferMemory :=
  { m with recommendedStart := max m.recommendedStart start }

end BufferMemory

namespace Buffer

variable (garbage : ℕ → ℕ → UInt8)

/-- The new block is at the address that was the next one. -/
def create (m : BufferMemory) (size : ℕ) : BufferMemory :=
  { m.setData m.nextData ⟨1, if size = 0 then 1 else size, 0, 0, garbage m.nextData⟩ with
    nextData := m.nextData + 1 }

/-- The constructor, with `Initialize`. -/
def construct (m : BufferMemory) (zeroSize : ℕ) : Buffer × BufferMemory :=
  let data := m.nextData
  let m := create garbage m 0
  let start := min (m.heap data).size m.recommendedStart
  let zeroAreaEnd := uint32 (start + zeroSize)
  let m := m.setData data { m.heap data with dirtyStart := start, dirtyEnd := zeroAreaEnd }
  (⟨data, start, start, zeroAreaEnd, start, zeroAreaEnd⟩, m)

/-- The copy constructor. -/
def copy (m : BufferMemory) (o : Buffer) : Buffer × BufferMemory :=
  ({ o with maxZeroAreaStart := o.zeroAreaStart }, m.acquire o.data)

/-- `operator =` -/
def assign (m : BufferMemory) (b o : Buffer) : Buffer × BufferMemory :=
  let m := if b.data ≠ o.data then (m.release b.data).acquire o.data else m
  (o, m.recommend b.maxZeroAreaStart)

/-- The destructor. -/
def destroy (m : BufferMemory) (b : Buffer) : BufferMemory :=
  (m.recommend b.maxZeroAreaStart).release b.data

def getSize (b : Buffer) : ℕ := uint32Sub b.stop b.start

def getInternalSize (b : Buffer) : ℕ :=
  uint32Sub (uint32 (uint32Sub b.zeroAreaStart b.start + b.stop)) b.zeroAreaEnd

def getInternalEnd (b : Buffer) : ℕ :=
  uint32Sub b.stop (uint32Sub b.zeroAreaEnd b.zeroAreaStart)

/-- `m_maxZeroAreaStart = std::max (m_maxZeroAreaStart, m_zeroAreaStart)` -/
def noteZeroArea (b : Buffer) : Buffer :=
  { b with maxZeroAreaStart := max b.maxZeroAreaStart b.zeroAreaStart }

/-- All offsets moved by a difference of 32 bit values. -/
def shift (b : Buffer) (delta : ℕ) : Buffer :=
  { b with
    start := uint32 (b.start + delta)
    zeroAreaStart := uint32 (b.zeroAreaStart + delta)
    zeroAreaEnd := uint32 (b.zeroAreaEnd + delta)
    stop := uint32 (b.stop + delta) }

/-- A new block with the bytes of the buffer from address `a` on, in place of the old block. -/
def move (m : BufferMemory) (b : Buffer) (a newSize : ℕ) : BufferMemory :=
  let bytes := slice (m.heap b.data).data b.start b.getInternalSize
  let data := m.nextData
  let m := create garbage m newSize
  (m.setData data { m.heap data with data := overwrite (m.heap data).data a bytes }).release b.data

def addAtStart (m : BufferMemory) (b : Buffer) (start : ℕ) :
    Option (Bool × Buffer × BufferMemory) :=
  let d := m.heap b.data
  let isDirty := d.count > 1 ∧ b.start > d.dirtyStart
  if b.start ≥ start ∧ ¬isDirty then
    if d.count = 1 ∨ b.start = d.dirtyStart then
      let b := { b with start := b.start - start }
      some (b.start > d.dirtyStart, b.noteZeroArea,
        m.setData b.data { d with dirtyStart := b.start })
    else none
  else
    let newSize := uint32 (b.getInternalSize + start)
    let data := m.nextData
    let m := move garbage m b start newSize
    let b := { b.shift (uint32Sub start b.start) with data := data }
    let b := { b with start := uint32Sub b.start start }
    some (true, b.noteZeroArea,
      m.setData data { m.heap data with dirtyStart := b.start, dirtyEnd := b.stop })

def addAtEnd (m : BufferMemory) (b : Buffer) (size : ℕ) :
    Option (Bool × Buffer × BufferMemory) :=
  let d := m.heap b.data
  let isDirty := d.count > 1 ∧ b.stop < d.dirtyEnd
  if uint32 (b.getInternalEnd + size) ≤ d.size ∧ ¬isDirty then
    if d.count = 1 ∨ b.stop = d.dirtyEnd then
      let b := { b with stop := uint32 (b.stop + size) }
      let d := { d with dirtyEnd := b.stop }
      some (b.stop < d.dirtyEnd, b.noteZeroArea, m.setData b.data d)
    else none
  else
    let newSize := uint32 (b.getInternalSize + size)
    let data := m.nextData
    let m := move garbage m b 0 newSize
    let b := { b.shift (uint32Sub 0 b.start) with data := data }
    let b := { b with stop := uint32 (b.stop + size) }
    some (true, b.noteZeroArea,
      m.setData data { m.heap data with dirtyStart := b.start, dirtyEnd := b.stop })

def removeAtStart (b : Buffer) (start : ℕ) : Buffer :=
  let newStart := uint32 (b.start + start)
  let zeroSize := uint32Sub b.zeroAreaEnd b.zeroAreaStart
  noteZeroArea (
    if newStart ≤ b.zeroAreaStart then { b with start := newStart }
    else if newStart ≤ b.zeroAreaEnd then
      let delta := uint32Sub newStart b.zeroAreaStart
      { b with
        start := b.zeroAreaStart
        zeroAreaEnd := uint32Sub b.zeroAreaEnd delta
        stop := uint32Sub b.stop delta }
    else if newStart ≤ b.stop then
      let start := uint32Sub newStart zeroSize
      { b with
        start := start
        stop := uint32Sub b.stop zeroSize
        zeroAreaStart := start
        zeroAreaEnd := start }
    else
      let stop := uint32Sub b.stop zeroSize
      { b with start := stop, stop := stop, zeroAreaStart := stop, zeroAreaEnd := stop })

def removeAtEnd (b : Buffer) (size : ℕ) : Buffer :=
  let newEnd := uint32Sub b.stop (min size (uint32Sub b.stop b.start))
  noteZeroArea (
    if newEnd > b.zeroAreaEnd then { b with stop := newEnd }
    else if newEnd > b.zeroAreaStart then { b with stop := newEnd, zeroAreaEnd := newEnd }
    else if newEnd > b.start then
      { b with stop := newEnd, zeroAreaEnd := newEnd, zeroAreaStart := newEnd }
    else { b with stop := b.start, zeroAreaEnd := b.start, zeroAreaStart := b.start })

/-- The temporary is the buffer that is returned. -/
def createFragment (m : BufferMemory) (b : Buffer) (start length : ℕ) : Buffer × BufferMemory :=
  let (tmp, m) := copy m b
  ((tmp.removeAtStart start).removeAtEnd (uint32Sub b.getSize (uint32 (start + length))), m)

/-- The condition that `CheckInternalState` computes. -/
structure CheckInternalState (b : Buffer) (d : BufferData) : Prop where
  start_le : b.start ≤ b.zeroAreaStart
  zeroArea_le : b.zeroAreaStart ≤ b.zeroAreaEnd
  zeroAreaEnd_le : b.zeroAreaEnd ≤ b.stop
  dirtyStart_le : d.dirtyStart ≤ b.start
  le_dirtyEnd : b.stop ≤ d.dirtyEnd
  internalEnd_le : b.stop - (b.zeroAreaEnd - b.zeroAreaStart) ≤ d.size
  start_le_size : b.start ≤ d.size
  zeroAreaStart_le_size : b.zeroAreaStart ≤ d.size
  count_pos : d.count > 0

/-- What `CopyData` copies: the bytes before the zero area, its zeros and the bytes after it. -/
def copyData (d : BufferData) (b : Buffer) : List UInt8 :=
  slice d.data b.start (uint32Sub b.zeroAreaStart b.start) ++
    List.replicate (uint32Sub b.zeroAreaEnd b.zeroAreaStart) 0 ++
    slice d.data b.zeroAreaStart (uint32Sub b.stop b.zeroAreaEnd)

end Buffer

/-- `Buffer::Iterator` -/
structure BufferIterator where
  zeroStart : ℕ
  zeroEnd : ℕ
  dataStart : ℕ
  dataEnd : ℕ
  current : ℕ
  data : ℕ

namespace BufferIterator

/-- `Begin` -/
def ofBegin (b : Buffer) : BufferIterator :=
  ⟨b.zeroAreaStart, b.zeroAreaEnd, b.start, b.stop, b.start, b.data⟩

/-- `End` -/
def ofEnd (b : Buffer) : BufferIterator :=
  ⟨b.zeroAreaStart, b.zeroAreaEnd, b.start, b.stop, b.stop, b.data⟩

def next (it : BufferIterator) (delta : ℕ) : Option BufferIterator :=
  if uint32 (it.current + delta) ≤ it.dataEnd then
    some { it with current := uint32 (it.current + delta) }
  else none

def prev (it : BufferIterator) (delta : ℕ) : Option BufferIterator :=
  if it.current ≥ delta then some { it with current := it.current - delta } else none

def check (it : BufferIterator) (i : ℕ) : Bool :=
  i ≥ it.dataStart ∧ ¬(i ≥ it.zeroStart ∧ i < it.zeroEnd) ∧ i ≤ it.dataEnd

def checkNoZero (it : BufferIterator) (first last : ℕ) : Bool :=
  (List.range' first (last - first)).all it.check

/-- `memcpy` to address `a` of the block of the iterator. -/
def store (m : BufferMemory) (it : BufferIterator) (a : ℕ) (bytes : List UInt8) : BufferMemory :=
  m.setData it.data { m.heap it.data with data := overwrite (m.heap it.data).data a bytes }

def writeU8 (m : BufferMemory) (it : BufferIterator) (data : UInt8) : Option BufferMemory :=
  if it.check it.current then
    if it.current < it.zeroStart then some (it.store m it.current [data])
    else some (it.store m (uint32Sub it.current (uint32Sub it.zeroEnd it.zeroStart)) [data])
  else none

/-- `WriteU8` with a length. -/
def writeU8s (m : BufferMemory) (it : BufferIterator) (data : UInt8) (len : ℕ) :
    Option BufferMemory :=
  if it.checkNoZero it.current (uint32 (it.current + len)) then
    if it.current ≤ it.zeroStart then some (it.store m it.current (List.replicate len data))
    else some (it.store m (uint32Sub it.current (uint32Sub it.zeroEnd it.zeroStart))
      (List.replicate len data))
  else none

/-- `Write` from memory. The assertion is called with the size in place of the last offset. -/
def write (m : BufferMemory) (it : BufferIterator) (bytes : List UInt8) : Option BufferMemory :=
  if it.checkNoZero it.current bytes.length then
    if it.current ≤ it.zeroStart then some (it.store m it.current bytes)
    else some (it.store m (uint32Sub it.current (uint32Sub it.zeroEnd it.zeroStart)) bytes)
  else none

/-- The bytes that `Write` copies from another buffer, area by area. -/
def readFrom (m : BufferMemory) (it : BufferIterator) (size : ℕ) : List UInt8 :=
  let data := (m.heap it.data).data
  let n₁ := if it.current ≤ it.zeroStart then min size (it.zeroStart - it.current) else 0
  let current := it.current + n₁
  let n₂ := if current ≤ it.zeroEnd then min (size - n₁) (it.zeroEnd - current) else 0
  let current' := current + n₂
  let n₃ := min (size - n₁ - n₂) (it.dataEnd - current')
  slice data it.current n₁ ++ List.replicate n₂ 0 ++
    slice data (current' - (it.zeroEnd - it.zeroStart)) n₃

/-- `Write` from the iterator `first` to the iterator `last` of another buffer. -/
def writeIterator (m : BufferMemory) (it first last : BufferIterator) : Option BufferMemory :=
  if first.data = last.data ∧ first.current ≤ last.current ∧ first.zeroStart = last.zeroStart ∧
      first.zeroEnd = last.zeroEnd ∧ it.data ≠ first.data ∧
      it.checkNoZero it.current (uint32 (it.current + (last.current - first.current))) then
    some (it.store m it.current (first.readFrom m (last.current - first.current)))
  else none

end BufferIterator

end Ns3Noc
