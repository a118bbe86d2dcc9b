import Ns3Noc.BufferFamilies

/-!
# Buffers refine byte strings

A family of buffers denotes the byte strings that the same prepends, appends, drops and takes give,
as long as offsets stay in 32 bits, fragments stay in their buffers, and bytes from another buffer
are written before a zero area only or where there is none.
-/
namespace Ns3Noc
open ByteSlices SharedBlocks PartialRuns

namespace BufferWrite

/-- A source that is apart stays so when buffer `i` has changed, which is no source. -/
theorem SourceApart.setBuffer {w : BufferWorld} {strings : ByteStrings} {i n : ℕ} {b b' : Buffer}
    {m : BufferMemory} {x : BufferWrite} (hb : w.buffer i = some b) (hi : i < strings.length)
    (hlegal : x.Legal (strings.set i none) n)
    (hnew : ∀ j c, j ≠ i → w.buffer j = some c → c.data = b'.data →
      x.SourceApart w b ∧ c.data = b.data) :
    x.SourceApart (w.setBuffer i (b', m)) b' := by
  cases x with
  | writeIterator offset source first last =>
    have hne : source ≠ i := by
      rintro rfl
      have hsource := hlegal.2
      dsimp only at hsource
      rw [join_set none hi, if_pos rfl] at hsource
      cases hsource
    rw [SourceApart, BufferWorld.buffer_setBuffer hb, if_neg hne]
    cases hc : w.buffer source with
    | none => rfl
    | some c =>
      rw [Option.all_some, decide_eq_true_eq]
      intro hdata
      obtain ⟨hapart, hsame⟩ := hnew source c hne hc hdata
      rw [SourceApart, hc, Option.all_some, decide_eq_true_eq] at hapart
      exact hapart hsame
  | _ => exact True.intro

end BufferWrite

/-- The iterator at the first of the bytes added behind the zero area. -/
theorem BufferIterator.prev_ofEnd {b : Buffer} {n : ℕ} (h : b.Ordered)
    (hroom : b.zeroAreaEnd + n ≤ b.stop) :
    ∃ it, (ofEnd b).prev n = some it ∧ it.Region n (b.internalEnd - n) ∧ it.data = b.data ∧
      it.current = b.stop - n := by
  refine ⟨{ ofEnd b with current := b.stop - n }, ?_, ?_, rfl, rfl⟩
  · rw [prev, if_pos]
    · rfl
    · show n ≤ b.stop
      omega
  · rw [Buffer.internalEnd, Buffer.zeroSize]
    obtain ⟨h1, h2, h3, h4⟩ := h
    constructor <;> dsimp only [BufferIterator.ofEnd] <;> omega

namespace BufferOp

/-- The operation stays clear of overflow, of assertions, and of what goes wrong in fragments that
reach behind the end and in copies behind a zero area. -/
def Fits (w : BufferWorld) : BufferOp → Prop
  | construct zeroSize => min 1 w.memory.recommendedStart + zeroSize < 2 ^ 32
  | createFragment i start length => ∀ b ∈ w.buffer i,
    b.start + start < 2 ^ 32 ∧ (start + length ≤ b.getSize ∨ b.getSize ≤ start)
  | addAtStart i size writes => ∀ b ∈ w.buffer i, b.getSize + size < 2 ^ 32 ∧
    (b.KeepsAtStart (w.memory.heap b.data) size → ∀ x ∈ writes, x.SourceApart w b)
  | addAtEnd i size writes => ∀ b ∈ w.buffer i,
    (b.KeepsAtEnd (w.memory.heap b.data) size →
      b.stop + size < 2 ^ 32 ∧ ∀ x ∈ writes, x.SourceApart w b) ∧
    (¬b.KeepsAtEnd (w.memory.heap b.data) size → b.getSize + size < 2 ^ 32) ∧
    (b.zeroAreaEnd ≤ b.zeroAreaStart ∨ ∀ x ∈ writes, x.FromMemory)
  | removeAtStart i size => ∀ b ∈ w.buffer i, b.start + size < 2 ^ 32
  | _ => True

instance (w : BufferWorld) (op : BufferOp) : Decidable (op.Fits w) :=
  match op with
  | construct zeroSize =>
    inferInstanceAs (Decidable (min 1 w.memory.recommendedStart + zeroSize < 2 ^ 32))
  | createFragment i start length => inferInstanceAs (Decidable (∀ b ∈ w.buffer i,
      b.start + start < 2 ^ 32 ∧ (start + length ≤ b.getSize ∨ b.getSize ≤ start)))
  | addAtStart i size writes => inferInstanceAs (Decidable (∀ b ∈ w.buffer i,
      b.getSize + size < 2 ^ 32 ∧
        (b.KeepsAtStart (w.memory.heap b.data) size → ∀ x ∈ writes, x.SourceApart w b)))
  | addAtEnd i size writes => inferInstanceAs (Decidable (∀ b ∈ w.buffer i,
      (b.KeepsAtEnd (w.memory.heap b.data) size →
        b.stop + size < 2 ^ 32 ∧ ∀ x ∈ writes, x.SourceApart w b) ∧
      (¬b.KeepsAtEnd (w.memory.heap b.data) size → b.getSize + size < 2 ^ 32) ∧
      (b.zeroAreaEnd ≤ b.zeroAreaStart ∨ ∀ x ∈ writes, x.FromMemory)))
  | removeAtStart i size =>
    inferInstanceAs (Decidable (∀ b ∈ w.buffer i, b.start + size < 2 ^ 32))
  | copy _ | assign _ _ | destroy _ | removeAtEnd _ _ => .isTrue True.intro

end BufferOp

namespace BufferWorld
variable {garbage : ℕ → ℕ → UInt8} {w w' : BufferWorld} {i j n a o : ℕ} {b b' : Buffer}
  {strings : ByteStrings} {writes : List BufferWrite} {it : BufferIterator}

/-- Writes into the bytes that were added to buffer `i`. -/
theorem Holds.write_added {m : BufferMemory} (hs : w.Shows strings) (hb : w.buffer i = some b)
    (h : (w.setBuffer i (b', m)).Holds) (hregion : it.Region n a) (hdata : it.data = b'.data)
    (ho : (w.setBuffer i (b', m)).Owns i b' n a o)
    (hothers : ∀ j c, j ≠ i → w.buffer j = some c → c.copyData (m.heap c.data) = w.bytes c)
    (hlegal : ∀ x ∈ writes, x.Legal (strings.set i none) n)
    (hsource : ∀ x ∈ writes, x.SourceApart (w.setBuffer i (b', m)) b')
    (hcurrent : ∀ x ∈ writes, ¬x.FromMemory → a = it.current) :
    ∃ w', (w.setBuffer i (b', m)).writeAll it writes = some w' ∧ w'.Holds ∧
      w'.Shows (strings.set i
        (some (BufferWrite.applyAll strings writes o (b'.copyData (m.heap b'.data))))) := by
  have hbuffer {j : ℕ} (hj : j ≠ i) : (w.setBuffer i (b', m)).buffer j = w.buffer j := by
    rw [buffer_setBuffer hb, if_neg hj]
  have hstrings (j : ℕ) (hj : j ≠ i) :
      ((w.setBuffer i (b', m)).buffer j).map (w.setBuffer i (b', m)).bytes = strings[j]?.join := by
    rw [hbuffer hj, ← hs.bytes j]
    exact Option.map_congr (fun c hc => hothers j c hj hc)
  obtain ⟨m', hwrites, hholds, hown, hrest⟩ := h.writeAll hregion hdata ho hstrings
    (hs.lt_length hb) hlegal hsource hcurrent
  refine ⟨_, hwrites, hholds, hs.set hb (congrArg some hown) (fun j c hj hc => ?_)⟩
  exact (hrest j c hj ((hbuffer hj).trans hc)).trans (hothers j c hj hc)

theorem Holds.exec_addAtStart (h : w.Holds) (hs : w.Shows strings)
    (hlegal : (BufferOp.addAtStart i n writes).Legal strings)
    (hfits : (BufferOp.addAtStart i n writes).Fits w) :
    ∃ added w', w.exec garbage (.addAtStart i n writes) = some (added, w') ∧ w'.Holds ∧
      w'.Shows ((BufferOp.addAtStart i n writes).apply added strings) := by
  obtain ⟨hi, hn, hwrites⟩ := hlegal
  obtain ⟨b, hb⟩ := hs.buffer hi
  obtain ⟨hsize, hsource⟩ := hfits b hb
  rw [(h.ordered i b hb).getSize_eq] at hsize
  obtain ⟨flag, b', m, hadd, hholds, hroom, hcopy, hothers⟩ :=
    h.addAtStart garbage hb hsize
  have hb' : (w.setBuffer i (b', m)).buffer i = some b' := by
    rw [buffer_setBuffer hb, if_pos rfl]
  have hord := hholds.ordered i b' hb'
  have hregion : (BufferIterator.ofBegin b').Region n b'.start := by
    obtain ⟨h1, h2, h3, h4⟩ := hord
    exact ⟨le_rfl, by dsimp only [BufferIterator.ofBegin]; omega, h4, h2, Or.inl ⟨hroom, rfl⟩⟩
  have howns : (w.setBuffer i (b', m)).Owns i b' n b'.start 0 := by
    refine ⟨fun d k l hk => ?_, fun j c hj hc hdata => ?_⟩
    · rw [Nat.zero_add]
      exact hord.copyData_overwrite_start d (by omega)
    · rw [buffer_setBuffer hb, if_neg hj] at hc
      exact Or.inr ((hothers j c hj hc).2 hdata).2.2
  obtain ⟨w', hall, hholds', hshows⟩ := Holds.write_added hs hb hholds hregion rfl howns
    (fun j c hj hc => (hothers j c hj hc).1) hwrites
    (fun x hx => BufferWrite.SourceApart.setBuffer hb (hs.lt_length hb) (hwrites x hx)
      (fun j c hj hc hdata => by
        obtain ⟨hkeep, hsame, -⟩ := (hothers j c hj hc).2 hdata
        exact ⟨hsource hkeep x hx, hsame⟩))
    (fun _ _ _ => rfl)
  have htake : ((w.setBuffer i (b', m)).bytes b').take n = slice (m.heap b'.data).data b'.start n := by
    show (b'.copyData (m.heap b'.data)).take n = _
    rw [hcopy, List.take_left' (length_slice _ _ _)]
  refine ⟨slice (m.heap b'.data).data b'.start n, w', ?_, hholds', ?_⟩
  · simp only [exec, hb, Option.bind_eq_bind, Option.bind_some, hadd, hall, htake]
  · rw [BufferOp.apply, hs.bytes_of_buffer hb, Option.map_some, ← hcopy]
    exact hshows

theorem exec_addAtEnd_of {flag : Bool} {m : BufferMemory} (hb : w.buffer i = some b)
    (hadd : Buffer.addAtEnd garbage w.memory b n = some (flag, b', m))
    (hprev : (BufferIterator.ofEnd b').prev n = some it)
    (hall : (w.setBuffer i (b', m)).writeAll it writes = some w') :
    w.exec garbage (.addAtEnd i n writes) =
      some (((w.setBuffer i (b', m)).bytes b').drop (b'.getSize - n), w') := by
  rw [exec, hb, Option.bind_eq_bind, Option.bind_some, hadd, Option.bind_eq_bind, Option.bind_some]
  dsimp only
  rw [hprev, Option.bind_eq_bind, Option.bind_some, hall, Option.bind_eq_bind, Option.bind_some]

theorem Holds.exec_addAtEnd (h : w.Holds) (hs : w.Shows strings)
    (hlegal : (BufferOp.addAtEnd i n writes).Legal strings)
    (hfits : (BufferOp.addAtEnd i n writes).Fits w) :
    ∃ added w', w.exec garbage (.addAtEnd i n writes) = some (added, w') ∧ w'.Holds ∧
      w'.Shows ((BufferOp.addAtEnd i n writes).apply added strings) := by
  obtain ⟨hi, hn, hwrites⟩ := hlegal
  obtain ⟨b, hb⟩ := hs.buffer hi
  obtain ⟨hkept, hmoved, hzero⟩ := hfits b hb
  rw [(h.ordered i b hb).getSize_eq] at hmoved
  obtain ⟨flag, b', m, hadd, hholds, hroom, hzeroSize, hcopy, hothers⟩ :=
    h.addAtEnd hb hn (fun hkeep => (hkept hkeep).1) hmoved
  have hb' : (w.setBuffer i (b', m)).buffer i = some b' := by
    rw [buffer_setBuffer hb, if_pos rfl]
  have hord := hholds.ordered i b' hb'
  have hstop : b'.stop - n ≤ b'.stop := Nat.sub_le _ _
  obtain ⟨it, hprev, hregion, hdata, hcurrent⟩ := BufferIterator.prev_ofEnd hord hroom
  have hlength : (w.bytes b).length = b'.stop - n - b'.start := by
    have hlen := congrArg List.length hcopy
    rw [hord.length_copyData, List.length_append, length_slice] at hlen
    omega
  have howns : (w.setBuffer i (b', m)).Owns i b' n (b'.internalEnd - n) (w.bytes b).length := by
    refine ⟨fun d k l hk => ?_, fun j c hj hc hdata => ?_⟩
    · have hover := hord.copyData_overwrite_end d l (o := b'.stop - n - b'.zeroAreaEnd + k)
        (by omega)
      have hplace : b'.zeroAreaStart + (b'.stop - n - b'.zeroAreaEnd + k) =
          b'.internalEnd - n + k := by
        rw [Buffer.internalEnd, Buffer.zeroSize]
        obtain ⟨h1, h2, h3, h4⟩ := hord
        omega
      have hposition : b'.zeroAreaEnd - b'.start + (b'.stop - n - b'.zeroAreaEnd + k) =
          (w.bytes b).length + k := by
        obtain ⟨h1, h2, h3, h4⟩ := hord
        omega
      rwa [hplace, hposition] at hover
    · rw [buffer_setBuffer hb, if_neg hj] at hc
      exact Or.inl ((hothers j c hj hc).2 hdata).2.2
  obtain ⟨w', hall, hholds', hshows⟩ := Holds.write_added hs hb hholds hregion hdata howns
    (fun j c hj hc => (hothers j c hj hc).1) hwrites
    (fun x hx => BufferWrite.SourceApart.setBuffer hb (hs.lt_length hb) (hwrites x hx)
      (fun j c hj hc hdata => by
        obtain ⟨hkeep, hsame, -⟩ := (hothers j c hj hc).2 hdata
        exact ⟨(hkept hkeep).2 x hx, hsame⟩))
    (fun x hx hsource => by
      rcases hzero with hzero | hmemory
      · rw [hcurrent, Buffer.internalEnd, hzeroSize, Buffer.zeroSize,
          Nat.sub_eq_zero_of_le hzero, Nat.sub_zero]
      · exact absurd (hmemory x hx) hsource)
  have hdrop : ((w.setBuffer i (b', m)).bytes b').drop (b'.getSize - n) =
      slice (m.heap b'.data).data (b'.internalEnd - n) n := by
    show (b'.copyData (m.heap b'.data)).drop _ = _
    rw [hcopy, List.drop_left']
    rw [hlength, hord.getSize_eq]
    omega
  refine ⟨slice (m.heap b'.data).data (b'.internalEnd - n) n, w', ?_, hholds', ?_⟩
  · rw [exec_addAtEnd_of hb hadd hprev hall, hdrop]
  · rw [BufferOp.apply, hs.bytes_of_buffer hb, Option.map_some, ← hcopy]
    exact hshows

/-- A buffer gets narrower. -/
theorem Holds.setBuffer_within (h : w.Holds) (hs : w.Shows strings) (hb : w.buffer i = some b)
    (hw : b'.Within b) {s : List UInt8} (hcopy : b'.copyData (w.memory.heap b.data) = s) :
    (w.setBuffer i (b', w.memory)).Holds ∧
      (w.setBuffer i (b', w.memory)).Shows (strings.set i (some s)) := by
  refine ⟨h.set_within hb hw, hs.set hb (congrArg some ?_) (fun _ _ _ _ => rfl)⟩
  show b'.copyData (w.memory.heap b'.data) = s
  rw [hw.data, hcopy]

/-- A part of a buffer comes. -/
theorem Holds.addBuffer_within (h : w.Holds) (hs : w.Shows strings) (b' : Buffer) (hb : w.buffer i = some b)
    (hw : b'.Within b) {s : List UInt8} (hcopy : b'.copyData (w.memory.heap b.data) = s) :
    (w.addBuffer (b', w.memory.acquire b.data)).Holds ∧
      (w.addBuffer (b', w.memory.acquire b.data)).Shows (strings ++ [some s]) := by
  have hblock (q : ℕ) := setCount_sameBlock w.memory b.data ((w.memory.heap b.data).count + 1) q
  refine ⟨h.add_within hb hw, hs.append ?_ (fun j c _ => (hblock c.data).copyData_eq c)⟩
  rw [hw.data, ← hcopy]
  exact (hblock b.data).copyData_eq b'

/-- Every legal operation that fits succeeds on the buffers as on the byte strings. -/
theorem Holds.exec (h : w.Holds) (hs : w.Shows strings) {op : BufferOp} (hlegal : op.Legal strings)
    (hfits : op.Fits w) :
    ∃ added w', w.exec garbage op = some (added, w') ∧ w'.Holds ∧
      w'.Shows (op.apply added strings) := by
  cases op with
  | construct zeroSize =>
    obtain ⟨b, m, heq, hholds, hcopy, hothers⟩ := h.construct hfits
    refine ⟨[], w.addBuffer (b, m), ?_, hholds, hs.append hcopy hothers⟩
    rw [BufferWorld.exec, heq]
  | copy i =>
    obtain ⟨b, hb⟩ := hs.buffer hlegal
    have hord := h.ordered i b hb
    obtain ⟨hholds, hshows⟩ := h.addBuffer_within hs { b with
      maxZeroAreaStart := b.zeroAreaStart } hb (s := w.bytes b)
      ⟨rfl, ⟨hord.start_le, hord.zeroArea_le, hord.zeroAreaEnd_le, hord.stop_lt⟩, le_rfl, le_rfl,
        le_rfl⟩ rfl
    refine ⟨[], _, ?_, hholds, ?_⟩
    · rw [BufferWorld.exec, hb]
      rfl
    · rw [BufferOp.apply, hs.bytes_of_buffer hb]
      exact hshows
  | assign i j =>
    obtain ⟨b, hb⟩ := hs.buffer hlegal.1
    obtain ⟨c, hc⟩ := hs.buffer hlegal.2
    obtain ⟨hholds, hblock⟩ := h.assign hb hc
    refine ⟨[], _, ?_, hholds, ?_⟩
    · rw [BufferWorld.exec, hb, hc]
      rfl
    · rw [BufferOp.apply, hs.bytes_of_buffer hc]
      exact hs.set hb (congrArg some ((hblock c.data).copyData_eq c))
        (fun k o _ _ => (hblock o.data).copyData_eq o)
  | createFragment i start length =>
    obtain ⟨b, hb⟩ := hs.buffer hlegal.1
    obtain ⟨hstart, hlength⟩ := hfits b hb
    obtain ⟨hw, hcopy⟩ := Buffer.createFragment_spec (h.ordered i b hb) w.memory hstart hlength
      (w.memory.heap b.data)
    obtain ⟨hholds, hshows⟩ := h.addBuffer_within hs _ hb hw hcopy
    refine ⟨[], _, ?_, hholds, ?_⟩
    · rw [BufferWorld.exec, hb]
      rfl
    · rw [BufferOp.apply, hs.bytes_of_buffer hb]
      exact hshows
  | destroy i =>
    obtain ⟨b, hb⟩ := hs.buffer hlegal
    refine ⟨[], _, ?_, h.destroy hb, ?_⟩
    · rw [BufferWorld.exec, hb]
      rfl
    · exact hs.set hb rfl (fun j c _ _ =>
        (setCount_sameBlock (w.memory.recommend b.maxZeroAreaStart) b.data _ c.data).copyData_eq c)
  | addAtStart i size writes => exact h.exec_addAtStart hs hlegal hfits
  | addAtEnd i size writes => exact h.exec_addAtEnd hs hlegal hfits
  | removeAtStart i size =>
    obtain ⟨b, hb⟩ := hs.buffer hlegal.1
    obtain ⟨hw, hcopy⟩ := Buffer.removeAtStart_spec (h.ordered i b hb) (hfits b hb)
      (w.memory.heap b.data)
    obtain ⟨hholds, hshows⟩ := h.setBuffer_within hs hb hw hcopy
    refine ⟨[], _, ?_, hholds, ?_⟩
    · rw [BufferWorld.exec, hb]
      rfl
    · rw [BufferOp.apply, hs.bytes_of_buffer hb]
      exact hshows
  | removeAtEnd i size =>
    obtain ⟨b, hb⟩ := hs.buffer hlegal.1
    obtain ⟨hw, hcopy⟩ := Buffer.removeAtEnd_spec (h.ordered i b hb) size (w.memory.heap b.data)
    rw [← (h.ordered i b hb).length_copyData (w.memory.heap b.data)] at hcopy
    obtain ⟨hholds, hshows⟩ := h.setBuffer_within hs hb hw hcopy
    refine ⟨[], _, ?_, hholds, ?_⟩
    · rw [BufferWorld.exec, hb]
      rfl
    · rw [BufferOp.apply, hs.bytes_of_buffer hb]
      exact hshows

end BufferWorld

namespace BufferRun

/-- The operation fits the buffers that the run has come to. -/
def Fits (r : BufferRun) (op : BufferOp) : Prop := ∀ w ∈ r.world, op.Fits w

instance (r : BufferRun) (op : BufferOp) : Decidable (r.Fits op) := by
  unfold Fits
  infer_instance

/-- The buffers of the run hold together and denote the byte strings of the run. -/
def Holds (r : BufferRun) : Prop := ∃ w, r.world = some w ∧ w.Holds ∧ w.Shows r.strings

theorem Holds.simulates {r : BufferRun} (h : r.Holds) : r.Refines := by
  obtain ⟨w, hw, hholds, hshows⟩ := h
  exact ⟨w, hw, hshows.length, hshows.bytes, fun i b hb => hholds.checkInternalState hb⟩

theorem start_holds : start.Holds := ⟨_, rfl, BufferWorld.empty_holds, ⟨rfl, fun _ => rfl⟩⟩

theorem Holds.step {garbage : ℕ → ℕ → UInt8} {r r' : BufferRun} {op : BufferOp} (h : r.Holds)
    (hfits : r.Fits op) (hr : r.step garbage op = some r') : r'.Holds := by
  obtain ⟨w, hw, hholds, hshows⟩ := h
  rw [BufferRun.step] at hr
  split at hr
  · rename_i hlegal
    obtain ⟨added, w', hexec, hholds', hshows'⟩ := hholds.exec hshows hlegal (hfits w hw)
    have hresult : r.world.bind (fun w => w.exec garbage op) = some (added, w') := by
      rw [hw, Option.bind_some, hexec]
    dsimp only at hr
    rw [hresult] at hr
    cases hr
    exact ⟨w', rfl, hholds', hshows'⟩
  · cases hr

/-- In every run of operations that fit, every buffer is the byte string that the prepends, appends,
drops and takes give, in a state that passes `CheckInternalState`. -/
theorem refines_of_fits (garbage : ℕ → ℕ → UInt8) (ops : List BufferOp)
    (h : Allowed (step garbage) Fits start ops) : Always (step garbage) Refines start ops :=
  (Always.of_invariant (fun _ _ _ hr hfits hs => hr.step hfits hs) start_holds h).mono
    (fun _ hr => hr.simulates)

theorem refines_shared : Always (step fun _ _ => 0) Refines start
    [.construct 10, .copy 0, .addAtStart 0 2 [.write 0 [1, 2]], .addAtEnd 1 3 [.writeU8s 1 7 2],
      .createFragment 1 8 4, .assign 0 2, .removeAtStart 0 3, .destroy 1] :=
  refines_of_fits _ _ (by decide +kernel)

/-- The bytes of another buffer that are written behind a zero area go to the wrong place. -/
theorem copied_bytes_misplaced : ¬∀ (garbage : ℕ → ℕ → UInt8) (ops : List BufferOp),
    Always (step garbage) Refines start ops := by
  intro h
  have hrun : (run (step fun _ _ => 0) start
      [.construct 10, .construct 0, .addAtEnd 1 4 [.write 0 [1, 2, 3, 4]],
        .addAtEnd 0 4 [.writeIterator 0 1 0 4]]).map (fun r =>
          (r.world.bind (fun w => (w.buffer 0).map w.bytes), r.strings[0]?.join)) =
      some (some [0, 0, 0, 0, 0, 0, 0, 0, 0, 0, 0, 0, 0, 0],
        some [0, 0, 0, 0, 0, 0, 0, 0, 0, 0, 1, 2, 3, 4]) := by
    decide +kernel
  obtain ⟨r, hr, heq⟩ := Option.map_eq_some_iff.mp hrun
  obtain ⟨w, hw, -, hbytes, -⟩ := (h _ _).last hr
  rw [hw, Option.bind_some, hbytes 0] at heq
  have hlost := (Prod.mk.inj heq).1.symm.trans (Prod.mk.inj heq).2
  revert hlost
  decide

end BufferRun

end Ns3Noc
