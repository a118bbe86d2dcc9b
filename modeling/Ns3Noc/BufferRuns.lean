import Ns3Noc.Buffer
import Ns3Noc.PartialRuns

/-!
# Families of buffers

Operations on a family of buffers, in any order: each on one buffer of the family or with a new
one. Beside the family runs a family of byte strings, changed by the same prepends, appends, drops
and takes. What the memory holds in added bytes that are not written is taken from the buffer.
-/
namespace Ns3Noc
open ByteSlices PartialRuns

/-- One write through an iterator, at an offset into the bytes that were just added. -/
inductive BufferWrite where
  | writeU8 (offset : ℕ) (data : UInt8)
  | writeU8s (offset : ℕ) (data : UInt8) (len : ℕ)
  | write (offset : ℕ) (bytes : List UInt8)
  | writeIterator (offset source first last : ℕ)
  deriving DecidableEq

inductive BufferOp where
  | construct (zeroSize : ℕ)
  | copy (i : ℕ)
  | assign (i j : ℕ)
  | createFragment (i start length : ℕ)
  | destroy (i : ℕ)
  | addAtStart (i size : ℕ) (writes : List BufferWrite)
  | addAtEnd (i size : ℕ) (writes : List BufferWrite)
  | removeAtStart (i size : ℕ)
  | removeAtEnd (i size : ℕ)
  deriving DecidableEq

/-- The buffers by their numbers. A buffer that was destroyed leaves its number behind. -/
structure BufferWorld where
  memory : BufferMemory
  buffers : List (Option Buffer)

namespace BufferWorld

def buffer (w : BufferWorld) (i : ℕ) : Option Buffer := w.buffers[i]?.join

/-- A buffer with the bytes it denotes. -/
def bytes (w : BufferWorld) (b : Buffer) : List UInt8 := b.copyData (w.memory.heap b.data)

def setBuffer (w : BufferWorld) (i : ℕ) (r : Buffer × BufferMemory) : BufferWorld :=
  ⟨r.2, w.buffers.set i (some r.1)⟩

def addBuffer (w : BufferWorld) (r : Buffer × BufferMemory) : BufferWorld :=
  ⟨r.2, w.buffers ++ [some r.1]⟩

/-- The write through the iterator `it`, which is at the first of the added bytes. -/
def write (w : BufferWorld) (it : BufferIterator) : BufferWrite → Option BufferWorld
  | .writeU8 offset data => do
    let m ← (← it.next offset).writeU8 w.memory data
    some { w with memory := m }
  | .writeU8s offset data len => do
    let m ← (← it.next offset).writeU8s w.memory data len
    some { w with memory := m }
  | .write offset bytes => do
    let m ← (← it.next offset).write w.memory bytes
    some { w with memory := m }
  | .writeIterator offset source first last => do
    let b ← w.buffer source
    let m ← (← it.next offset).writeIterator w.memory (← (BufferIterator.ofBegin b).next first)
      (← (BufferIterator.ofBegin b).next last)
    some { w with memory := m }

def writeAll (w : BufferWorld) (it : BufferIterator) : List BufferWrite → Option BufferWorld
  | [] => some w
  | x :: writes => (w.write it x).bind (fun w => w.writeAll it writes)

variable (garbage : ℕ → ℕ → UInt8)

/-- One operation, with the added bytes before they are written. -/
def exec (w : BufferWorld) : BufferOp → Option (List UInt8 × BufferWorld)
  | .construct zeroSize =>
    some ([], w.addBuffer (Buffer.construct garbage w.memory zeroSize))
  | .copy i => do
    let b ← w.buffer i
    some ([], w.addBuffer (b.copy w.memory))
  | .assign i j => do
    let b ← w.buffer i
    let o ← w.buffer j
    some ([], w.setBuffer i (b.assign w.memory o))
  | .createFragment i start length => do
    let b ← w.buffer i
    some ([], w.addBuffer (b.createFragment w.memory start length))
  | .destroy i => do
    let b ← w.buffer i
    some ([], ⟨b.destroy w.memory, w.buffers.set i none⟩)
  | .addAtStart i size writes => do
    let (_, b, m) ← (← w.buffer i).addAtStart garbage w.memory size
    let w := w.setBuffer i (b, m)
    some ((w.bytes b).take size, ← w.writeAll (BufferIterator.ofBegin b) writes)
  | .addAtEnd i size writes => do
    let (_, b, m) ← (← w.buffer i).addAtEnd garbage w.memory size
    let w := w.setBuffer i (b, m)
    some ((w.bytes b).drop (b.getSize - size),
      ← w.writeAll (← (BufferIterator.ofEnd b).prev size) writes)
  | .removeAtStart i size => do
    let b ← w.buffer i
    some ([], w.setBuffer i (b.removeAtStart size, w.memory))
  | .removeAtEnd i size => do
    let b ← w.buffer i
    some ([], w.setBuffer i (b.removeAtEnd size, w.memory))

end BufferWorld

/-- The byte strings by the numbers of the buffers. -/
abbrev ByteStrings : Type := List (Option (List UInt8))

namespace BufferWrite

def offset : BufferWrite → ℕ
  | writeU8 offset _ => offset
  | writeU8s offset _ _ => offset
  | write offset _ => offset
  | writeIterator offset _ _ _ => offset

/-- The bytes that are written. -/
def bytes (strings : ByteStrings) : BufferWrite → List UInt8
  | writeU8 _ data => [data]
  | writeU8s _ data len => List.replicate len data
  | write _ bytes => bytes
  | writeIterator _ source first last =>
    ((strings[source]?.join.getD []).drop first).take (last - first)

/-- The write stays in the added bytes, and the iterators of a source are in it. -/
def Legal (strings : ByteStrings) (size : ℕ) (x : BufferWrite) : Prop :=
  x.offset + (x.bytes strings).length ≤ size ∧
    match x with
    | writeIterator _ source first last =>
      strings[source]?.join.any (fun s => first ≤ last ∧ last ≤ s.length) = true
    | _ => True

instance (strings : ByteStrings) (size : ℕ) (x : BufferWrite) :
    Decidable (x.Legal strings size) := by
  cases x <;> unfold Legal <;> infer_instance

/-- The writes on the byte string, from position `o` on. -/
def applyAll (strings : ByteStrings) (writes : List BufferWrite) (o : ℕ) (s : List UInt8) :
    List UInt8 :=
  writes.foldl (fun s x => overlay s (o + x.offset) (x.bytes strings)) s

end BufferWrite

namespace BufferOp

/-- What the operation does to the byte strings. -/
def apply (added : List UInt8) (strings : ByteStrings) : BufferOp → ByteStrings
  | construct zeroSize => strings ++ [some (List.replicate zeroSize 0)]
  | copy i => strings ++ [strings[i]?.join]
  | assign i j => strings.set i strings[j]?.join
  | createFragment i start length =>
    strings ++ [strings[i]?.join.map (fun s => (s.drop start).take length)]
  | destroy i => strings.set i none
  | addAtStart i _ writes =>
    strings.set i (strings[i]?.join.map
      (fun s => BufferWrite.applyAll strings writes 0 (added ++ s)))
  | addAtEnd i _ writes =>
    strings.set i (strings[i]?.join.map
      (fun s => BufferWrite.applyAll strings writes s.length (s ++ added)))
  | removeAtStart i size => strings.set i (strings[i]?.join.map (fun s => s.drop size))
  | removeAtEnd i size =>
    strings.set i (strings[i]?.join.map (fun s => s.take (s.length - size)))

/-- The operation is one of 32 bit values on buffers of the family, and its writes stay in the
bytes that it adds and read from other buffers. -/
def Legal (strings : ByteStrings) : BufferOp → Prop
  | construct zeroSize => zeroSize < 2 ^ 32
  | copy i => (strings[i]?.join).isSome
  | assign i j => (strings[i]?.join).isSome ∧ (strings[j]?.join).isSome
  | createFragment i start length =>
    (strings[i]?.join).isSome ∧ start < 2 ^ 32 ∧ length < 2 ^ 32
  | destroy i => (strings[i]?.join).isSome
  | addAtStart i size writes =>
    (strings[i]?.join).isSome ∧ size < 2 ^ 32 ∧ ∀ x ∈ writes, x.Legal (strings.set i none) size
  | addAtEnd i size writes =>
    (strings[i]?.join).isSome ∧ size < 2 ^ 32 ∧ ∀ x ∈ writes, x.Legal (strings.set i none) size
  | removeAtStart i size => (strings[i]?.join).isSome ∧ size < 2 ^ 32
  | removeAtEnd i size => (strings[i]?.join).isSome ∧ size < 2 ^ 32

instance (strings : ByteStrings) (op : BufferOp) : Decidable (op.Legal strings) := by
  cases op <;> unfold Legal <;> infer_instance

end BufferOp

/-- A family of buffers and the byte strings after the same operations. -/
structure BufferRun where
  world : Option BufferWorld
  strings : ByteStrings

namespace BufferRun

def start : BufferRun := ⟨some ⟨BufferMemory.empty, []⟩, []⟩

/-- One legal operation on both. A failed assertion stays visible in the run. -/
def step (garbage : ℕ → ℕ → UInt8) (r : BufferRun) (op : BufferOp) : Option BufferRun :=
  if op.Legal r.strings then
    let result := r.world.bind (fun w => w.exec garbage op)
    some ⟨result.map Prod.snd, op.apply ((result.map Prod.fst).getD []) r.strings⟩
  else none

/-- No assertion has failed, the buffers denote the byte strings, and every buffer is in the state
that `CheckInternalState` asks for. -/
def Refines (r : BufferRun) : Prop :=
  ∃ w, r.world = some w ∧ w.buffers.length = r.strings.length ∧
    (∀ i, (w.buffer i).map w.bytes = r.strings[i]?.join) ∧
    ∀ i b, w.buffer i = some b → b.CheckInternalState (w.memory.heap b.data)

end BufferRun

end Ns3Noc
