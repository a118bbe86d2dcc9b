import Ns3Noc.BufferWrites

/-!
# Steps of a family of buffers

Every operation keeps the sharing invariant and does to the bytes of its buffer what it does to the
byte string of the same number. The bytes of the other buffers stay.
-/
namespace Ns3Noc
open ByteSlices SharedBlocks PartialRuns

namespace Buffer
variable {b : Buffer} {start length : ℕ}

/-- A fragment is a part of the buffer, with the bytes that a drop and a take give. -/
theorem createFragment_spec (h : b.Ordered) (m : BufferMemory) (hstart : b.start + start < 2 ^ 32)
    (hlength : start + length ≤ b.getSize ∨ b.getSize ≤ start) (d : BufferData) :
    (b.createFragment m start length).1.Within b ∧
      (b.createFragment m start length).1.copyData d =
        ((b.copyData d).drop start).take length := by
  have htmp : Within { b with maxZeroAreaStart := b.zeroAreaStart } b :=
    ⟨rfl, ⟨h.start_le, h.zeroArea_le, h.zeroAreaEnd_le, h.stop_lt⟩, le_rfl, le_rfl, le_rfl⟩
  obtain ⟨hhead, hdrop⟩ := removeAtStart_spec htmp.ordered hstart d
  obtain ⟨hend, htake⟩ := removeAtEnd_spec hhead.ordered
    (uint32Sub b.getSize (uint32 (start + length))) d
  refine ⟨(hend.trans hhead).trans htmp, htake.trans ?_⟩
  have hsame : copyData d { b with maxZeroAreaStart := b.zeroAreaStart } = b.copyData d := rfl
  have hlen := congrArg List.length hdrop
  rw [hhead.ordered.length_copyData, List.length_drop, hsame, h.length_copyData] at hlen
  rw [hdrop, hsame, hlen]
  rw [h.getSize_eq] at hlength ⊢
  rcases hlength with hle | hge
  · have hlt := h.stop_lt
    rw [uint32_of_lt (hle.trans_lt (by omega)), uint32Sub_of_le hle (by omega)]
    congr 1
    omega
  · rw [List.drop_eq_nil_of_le (by rw [h.length_copyData]; exact hge), List.take_nil, List.take_nil]

end Buffer

namespace BufferWorld
variable {garbage : ℕ → ℕ → UInt8} {w w' : BufferWorld} {i j n : ℕ} {b b' : Buffer}
  {strings : ByteStrings} {writes : List BufferWrite}

/-- The buffers denote the byte strings. -/
structure Shows (w : BufferWorld) (strings : ByteStrings) : Prop where
  length : w.buffers.length = strings.length
  bytes : ∀ i, (w.buffer i).map w.bytes = strings[i]?.join

theorem Shows.bytes_of_buffer (h : w.Shows strings) (hb : w.buffer i = some b) :
    strings[i]?.join = some (w.bytes b) := by
  rw [← h.bytes i, hb, Option.map_some]

theorem Shows.buffer (h : w.Shows strings) (hi : (strings[i]?.join).isSome) :
    ∃ b, w.buffer i = some b := by
  rw [← h.bytes i, Option.isSome_map, Option.isSome_iff_exists] at hi
  exact hi

theorem Shows.lt_length (h : w.Shows strings) (hb : w.buffer i = some b) : i < strings.length :=
  lt_length_of_join (h.bytes_of_buffer hb)

/-- The bytes of one buffer change. -/
theorem Shows.set (h : w.Shows strings) (hb : w.buffer i = some b) {o : Option Buffer}
    {m : BufferMemory} {s : Option (List UInt8)}
    (hown : o.map (BufferWorld.bytes ⟨m, w.buffers.set i o⟩) = s)
    (hothers : ∀ j c, j ≠ i → w.buffer j = some c → c.copyData (m.heap c.data) = w.bytes c) :
    Shows ⟨m, w.buffers.set i o⟩ (strings.set i s) where
  length := by rw [List.length_set, List.length_set, h.length]
  bytes j := by
    have hbuffer : BufferWorld.buffer ⟨m, w.buffers.set i o⟩ j = if j = i then o else w.buffer j :=
      join_set o (lt_length_of_join hb)
    rw [hbuffer, join_set s (h.lt_length hb)]
    by_cases hj : j = i
    · rw [if_pos hj, if_pos hj, hown]
    · rw [if_neg hj, if_neg hj, ← h.bytes j]
      exact Option.map_congr (fun c hc => hothers j c hj hc)

/-- Another buffer comes. -/
theorem Shows.append (h : w.Shows strings) {m : BufferMemory} {s : List UInt8}
    (hown : b.copyData (m.heap b.data) = s)
    (hothers : ∀ j c, w.buffer j = some c → c.copyData (m.heap c.data) = w.bytes c) :
    Shows (w.addBuffer (b, m)) (strings ++ [some s]) where
  length := by
    rw [addBuffer, List.length_append, List.length_append, h.length]
    rfl
  bytes j := by
    rw [buffer_addBuffer, join_append (some s), h.length]
    by_cases hj : j = strings.length
    · rw [if_pos hj, if_pos hj, ← hown]
      rfl
    · rw [if_neg hj, if_neg hj, ← h.bytes j]
      exact Option.map_congr (fun c hc => hothers j c hc)

/-- A buffer takes the place of one that it is a part of. -/
theorem Holds.set_within (h : w.Holds) (hb : w.buffer i = some b) (hw : b'.Within b) :
    (w.setBuffer i (b', w.memory)).Holds := by
  have hrefs : (w.setBuffer i (b', w.memory)).refs = w.refs.set i (some b.data) := by
    rw [refs, refs, setBuffer, List.map_set, Option.map_some, hw.data]
  refine h.narrow ?_ rfl (fun p => ⟨rfl, rfl, rfl⟩) (fun j c hc => ?_)
  · rw [hrefs]
    exact h.counted.set _ _ (refs_of_buffer hb) (fun p => rfl)
  · rw [buffer_setBuffer hb] at hc
    split at hc
    · cases hc
      exact ⟨i, b, hb, hw⟩
    · exact ⟨j, c, hc, Buffer.Within.refl (h.ordered j c hc)⟩

theorem count_setData (m : BufferMemory) (p : ℕ) (d : BufferData) (q : ℕ) :
    ((m.setData p d).heap q).count = if p = q then d.count else (m.heap q).count := by
  rw [BufferMemory.setData]
  dsimp only
  by_cases hq : p = q
  · subst hq
    rw [Function.update_self, if_pos rfl]
  · rw [Function.update_of_ne (Ne.symm hq), if_neg hq]

/-- Nothing of a block changes but its count. -/
theorem setCount_sameBlock (m : BufferMemory) (p k q : ℕ) :
    SameBlock (m.heap q) ((m.setData p { m.heap p with count := k }).heap q) := by
  rw [BufferMemory.setData]
  dsimp only
  by_cases hq : q = p
  · subst hq
    rw [Function.update_self]
    exact ⟨⟨rfl, rfl, rfl⟩, rfl⟩
  · rw [Function.update_of_ne hq]
    exact ⟨⟨rfl, rfl, rfl⟩, rfl⟩

theorem count_acquire (m : BufferMemory) (p q : ℕ) :
    ((m.acquire p).heap q).count = (m.heap q).count + if p = q then 1 else 0 := by
  rw [BufferMemory.acquire, count_setData]
  by_cases hq : p = q
  · rw [if_pos hq, if_pos hq, hq]
  · rw [if_neg hq, if_neg hq, Nat.add_zero]

theorem count_release (m : BufferMemory) (p q : ℕ) :
    ((m.release p).heap q).count = (m.heap q).count - if p = q then 1 else 0 := by
  rw [BufferMemory.release, count_setData]
  by_cases hq : p = q
  · rw [if_pos hq, if_pos hq, hq]
  · rw [if_neg hq, if_neg hq, Nat.sub_zero]

theorem SameBlock.trans {d d' d'' : BufferData} (h : SameBlock d d') (h' : SameBlock d' d'') :
    SameBlock d d'' :=
  ⟨⟨h'.size.trans h.size, h'.dirtyStart.trans h.dirtyStart, h'.dirtyEnd.trans h.dirtyEnd⟩,
    h'.data.trans h.data⟩

/-- A part of a buffer comes as another buffer. -/
theorem Holds.add_within (h : w.Holds) (hb : w.buffer i = some b) (hw : b'.Within b) :
    (w.addBuffer (b', w.memory.acquire b.data)).Holds := by
  have hrefs : (w.addBuffer (b', w.memory.acquire b.data)).refs = w.refs ++ [some b.data] := by
    rw [refs, refs, addBuffer, List.map_append, List.map_singleton, Option.map_some, hw.data]
  refine h.narrow ?_ rfl (fun p => (setCount_sameBlock w.memory b.data _ p).toSameArea)
    (fun j c hc => ?_)
  · rw [hrefs]
    refine h.counted.append (fun p => ?_)
    simp only [addBuffer, count_acquire, Option.some_inj]
  · rw [buffer_addBuffer] at hc
    split at hc
    · cases hc
      exact ⟨i, b, hb, hw⟩
    · exact ⟨j, c, hc, Buffer.Within.refl (h.ordered j c hc)⟩

/-- A buffer goes. -/
theorem Holds.destroy (h : w.Holds) (hb : w.buffer i = some b) :
    Holds ⟨b.destroy w.memory, w.buffers.set i none⟩ := by
  have hrefs : refs ⟨b.destroy w.memory, w.buffers.set i none⟩ = w.refs.set i none := by
    rw [refs, refs, List.map_set, Option.map_none]
  refine h.narrow ?_ rfl (fun p => (setCount_sameBlock (w.memory.recommend _) b.data _ p).toSameArea)
    (fun j c hc => ?_)
  · rw [hrefs]
    refine h.counted.set _ _ (refs_of_buffer hb) (fun p => ?_)
    have hpos := h.count_pos hb
    have hcount : ((b.destroy w.memory).heap p).count =
        (w.memory.heap p).count - if b.data = p then 1 else 0 :=
      count_release _ b.data p
    dsimp only
    rw [hcount]
    simp only [Option.some_inj, reduceCtorEq, ↓reduceIte, Nat.add_zero]
    by_cases hp : b.data = p
    · subst hp
      rw [if_pos rfl]
      omega
    · rw [if_neg hp, Nat.sub_zero, Nat.add_zero]
  · have hbuffer : buffer ⟨b.destroy w.memory, w.buffers.set i none⟩ j =
        if j = i then none else w.buffer j := join_set none (lt_length_of_join hb)
    rw [hbuffer] at hc
    split at hc
    · cases hc
    · exact ⟨j, c, hc, Buffer.Within.refl (h.ordered j c hc)⟩

/-- A buffer becomes a copy of another one. -/
theorem Holds.assign (h : w.Holds) (hb : w.buffer i = some b) (hc : w.buffer j = some b') :
    (w.setBuffer i (b.assign w.memory b')).Holds ∧
      ∀ q, SameBlock (w.memory.heap q) ((b.assign w.memory b').2.heap q) := by
  have hrefs : (w.setBuffer i (b.assign w.memory b')).refs = w.refs.set i (some b'.data) := by
    rw [refs, refs, setBuffer, List.map_set]
    rfl
  have hblock (q : ℕ) : SameBlock (w.memory.heap q) ((b.assign w.memory b').2.heap q) := by
    show SameBlock _ ((if b.data ≠ b'.data then (w.memory.release b.data).acquire b'.data
      else w.memory).heap q)
    split
    · exact (setCount_sameBlock w.memory b.data _ q).trans (setCount_sameBlock _ b'.data _ q)
    · exact ⟨⟨rfl, rfl, rfl⟩, rfl⟩
  have hcount (q : ℕ) : ((b.assign w.memory b').2.heap q).count =
      ((if b.data ≠ b'.data then (w.memory.release b.data).acquire b'.data
        else w.memory).heap q).count := rfl
  refine ⟨h.narrow ?_ ?_ (fun q => (hblock q).toSameArea) (fun k c hk => ?_), hblock⟩
  · rw [hrefs]
    refine h.counted.set _ _ (refs_of_buffer hb) (fun p => ?_)
    have hpos := h.count_pos hb
    show ((b.assign w.memory b').2.heap p).count + _ = _
    rw [hcount]
    simp only [Option.some_inj]
    split
    · rw [count_acquire, count_release]
      by_cases hp : b.data = p
      · subst hp
        rw [if_pos rfl]
        omega
      · rw [if_neg hp, Nat.sub_zero, Nat.add_zero]
    · rename_i heq
      rw [not_not.mp heq]
  · show (if b.data ≠ b'.data then (w.memory.release b.data).acquire b'.data
      else w.memory).nextData = _
    split <;> rfl
  · rw [buffer_setBuffer hb] at hk
    split at hk
    · cases hk
      exact ⟨j, b', hc, Buffer.Within.refl (h.ordered j b' hc)⟩
    · exact ⟨k, c, hk, Buffer.Within.refl (h.ordered k c hk)⟩

/-- A new buffer of zeros. -/
theorem Holds.construct (h : w.Holds) {zeroSize : ℕ}
    (hz : min 1 w.memory.recommendedStart + zeroSize < 2 ^ 32) :
    ∃ b m, Buffer.construct garbage w.memory zeroSize = (b, m) ∧ (w.addBuffer (b, m)).Holds ∧
      b.copyData (m.heap b.data) = List.replicate zeroSize 0 ∧
      ∀ j c, w.buffer j = some c → c.copyData (m.heap c.data) = w.bytes c := by
  set start := min 1 w.memory.recommendedStart with hstart
  let b : Buffer := ⟨w.memory.nextData, start, start, start + zeroSize, start, start + zeroSize⟩
  let d : BufferData := ⟨1, 1, start, start + zeroSize, garbage w.memory.nextData⟩
  let m : BufferMemory := ⟨Function.update w.memory.heap w.memory.nextData d,
    w.memory.nextData + 1, w.memory.recommendedStart⟩
  have heq : Buffer.construct garbage w.memory zeroSize = (b, m) := by
    simp only [Buffer.construct, Buffer.create, BufferMemory.setData, Function.update_self,
      ↓reduceIte, Function.update_idem, ← hstart, uint32_of_lt hz, b, m, d]
  have hord : b.Ordered := ⟨le_rfl, Nat.le_add_right _ _, le_rfl, hz⟩
  have hself : m.heap w.memory.nextData = d := Function.update_self _ _ _
  have hother {p : ℕ} (hp : p ≠ w.memory.nextData) : m.heap p = w.memory.heap p :=
    Function.update_of_ne hp _ _
  have hrefs : (w.addBuffer (b, m)).refs = w.refs ++ [some w.memory.nextData] := by
    rw [refs, refs, addBuffer, List.map_append]
    rfl
  refine ⟨b, m, heq, ?_, ?_, fun j c hc => ?_⟩
  · refine h.extend b ?_ rfl (fun p hp => ?_) rfl hord
      (congrArg BufferData.dirtyStart hself) (congrArg BufferData.dirtyEnd hself) ?_
      (fun j c hc => ?_)
    · rw [hrefs]
      refine h.counted.append (fun p => ?_)
      show (m.heap p).count = (w.memory.heap p).count + _
      simp only [Option.some_inj]
      by_cases hp : w.memory.nextData = p
      · rw [if_pos hp, ← hp, hself, h.count_next]
      · rw [if_neg hp, hother (Ne.symm hp), Nat.add_zero]
    · show SameArea _ (m.heap p)
      rw [hother hp]
      exact ⟨rfl, rfl, rfl⟩
    · show b.internalEnd ≤ (m.heap w.memory.nextData).size
      rw [hself, Buffer.internalEnd, Buffer.zeroSize]
      show start + zeroSize - (start + zeroSize - start) ≤ 1
      omega
    · rw [buffer_addBuffer] at hc
      split at hc
      · exact Or.inl (Option.some.inj hc).symm
      · exact Or.inr ⟨j, hc⟩
  · rw [hord.copyData_eq, Buffer.zeroSize]
    show slice _ start (start - start) ++ List.replicate (start + zeroSize - start) 0 ++
      slice _ start (start + zeroSize - (start + zeroSize)) = _
    rw [Nat.sub_self, Nat.sub_self, slice_zero, List.nil_append, List.append_nil,
      Nat.add_sub_cancel_left]
  · rw [hother (h.fresh j c hc).ne]
    rfl

end BufferWorld

end Ns3Noc
