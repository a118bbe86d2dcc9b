import Ns3Noc.BufferSharing

/-!
# Writes into added bytes

An iterator at the first of the added bytes writes them at one place of the block, whichever side
of the zero area they are on. Nobody else looks at that place.
-/
namespace Ns3Noc
open ByteSlices SharedBlocks

namespace Buffer
variable {b : Buffer} {o : ℕ} {bytes : List UInt8}

theorem Ordered.copyData_overwrite_start (h : b.Ordered) (d : BufferData)
    (ho : o + bytes.length ≤ b.zeroAreaStart - b.start) :
    b.copyData { d with data := overwrite d.data (b.start + o) bytes } =
      overlay (b.copyData d) o bytes := by
  have h1 := h.start_le
  rw [h.copyData_eq, h.copyData_eq]
  dsimp only
  rw [slice_overwrite _ ho, slice_overwrite_of_disjoint (Or.inr (by omega)),
    overlay_append_left (by simp; omega), overlay_append_left (by simpa using ho)]

theorem Ordered.copyData_overwrite_end (h : b.Ordered) (d : BufferData) (bytes : List UInt8)
    (ho : o + bytes.length ≤ b.stop - b.zeroAreaEnd) :
    b.copyData { d with data := overwrite d.data (b.zeroAreaStart + o) bytes } =
      overlay (b.copyData d) (b.zeroAreaEnd - b.start + o) bytes := by
  have h1 := h.start_le
  have h2 := h.zeroArea_le
  have hlength : (slice d.data b.start (b.zeroAreaStart - b.start) ++
      List.replicate b.zeroSize 0).length = b.zeroAreaEnd - b.start := by
    rw [List.length_append, length_slice, List.length_replicate, zeroSize]
    omega
  rw [h.copyData_eq, h.copyData_eq]
  dsimp only
  rw [slice_overwrite _ ho, slice_overwrite_of_disjoint (Or.inl (by omega)), ← hlength,
    overlay_append_right]

end Buffer

namespace BufferIterator
variable {it : BufferIterator} {m : BufferMemory} {n a o : ℕ} {bytes : List UInt8}

/-- The next `n` bytes of the iterator are in the block from address `a` on. -/
structure Region (it : BufferIterator) (n a : ℕ) : Prop where
  dataStart : it.dataStart ≤ it.current
  dataEnd : it.current + n ≤ it.dataEnd
  lt : it.dataEnd < 2 ^ 32
  zero : it.zeroStart ≤ it.zeroEnd
  side : it.current + n ≤ it.zeroStart ∧ a = it.current ∨
    it.zeroEnd ≤ it.current ∧ a = it.current - (it.zeroEnd - it.zeroStart)

theorem Region.next (h : it.Region n a) (ho : o ≤ n) :
    it.next o = some { it with current := it.current + o } ∧
      Region { it with current := it.current + o } (n - o) (a + o) := by
  obtain ⟨h1, h2, h3, h4, h5⟩ := h
  have hlt : uint32 (it.current + o) = it.current + o := uint32_of_lt (by omega)
  refine ⟨by rw [BufferIterator.next, hlt, if_pos (by omega)], ?_⟩
  exact ⟨by dsimp only; omega, by dsimp only; omega, h3, h4, by dsimp only; omega⟩

theorem Region.check (h : it.Region n a) {i : ℕ} (hi : it.current ≤ i) (hi' : i < it.current + n) :
    it.check i = true := by
  obtain ⟨h1, h2, h3, h4, h5⟩ := h
  rw [BufferIterator.check, decide_eq_true_eq]
  omega

theorem Region.checkNoZero (h : it.Region n a) {last : ℕ} (hlast : last ≤ it.current + n) :
    it.checkNoZero it.current last = true := by
  rw [BufferIterator.checkNoZero, List.all_eq_true]
  intro i hi
  obtain ⟨h1, h2⟩ := List.mem_range'_1.mp hi
  exact h.check h1 (by omega)

/-- The address behind the zero area. -/
theorem Region.address (h : it.Region n a) (hside : ¬it.current + n ≤ it.zeroStart) :
    uint32Sub it.current (uint32Sub it.zeroEnd it.zeroStart) = a := by
  obtain ⟨h1, h2, h3, h4, h5⟩ := h
  rw [uint32Sub_of_le h4 (by omega), uint32Sub_of_le (by omega) (by omega)]
  omega

theorem Region.writeU8 (h : it.Region n a) (hn : 0 < n) (data : UInt8) :
    it.writeU8 m data = some (it.store m a [data]) := by
  rw [BufferIterator.writeU8, if_pos (h.check le_rfl (by omega))]
  split
  · rename_i hlt
    have ha : it.current = a := by
      obtain ⟨h1, h2, h3, h4, h5⟩ := h
      omega
    rw [ha]
  · rw [h.address (by omega)]

theorem Region.current_eq (h : it.Region n a) (hle : it.current ≤ it.zeroStart) :
    it.current = a := by
  obtain ⟨h1, h2, h3, h4, h5⟩ := h
  omega

theorem Region.writeU8s (h : it.Region n a) {len : ℕ} (hlen : len ≤ n) (data : UInt8) :
    it.writeU8s m data len = some (it.store m a (List.replicate len data)) := by
  have hlt := h.lt
  have hend := h.dataEnd
  rw [BufferIterator.writeU8s, uint32_of_lt (by omega), if_pos (h.checkNoZero (by omega))]
  split
  · rename_i hle
    rw [h.current_eq hle]
  · rw [h.address (by omega)]

theorem Region.write (h : it.Region n a) (hlen : bytes.length ≤ n) :
    it.write m bytes = some (it.store m a bytes) := by
  rw [BufferIterator.write, if_pos (h.checkNoZero (by omega))]
  split
  · rename_i hle
    rw [h.current_eq hle]
  · rw [h.address (by omega)]

theorem store_nil (m : BufferMemory) (it : BufferIterator) (a : ℕ) : it.store m a [] = m := by
  simp [store, BufferMemory.setData]

/-- `Write` from another buffer goes to the virtual offset of the iterator. -/
theorem Region.writeIterator_current (h : it.Region n a) (first last : BufferIterator)
    (hdata : first.data = last.data) (hle : first.current ≤ last.current)
    (hstart : first.zeroStart = last.zeroStart) (hend : first.zeroEnd = last.zeroEnd)
    (hne : it.data ≠ first.data) (hlen : last.current - first.current ≤ n) :
    it.writeIterator m first last =
      some (it.store m it.current (first.readFrom m (last.current - first.current))) := by
  have hlt : it.current + (last.current - first.current) < 2 ^ 32 := by
    obtain ⟨h1, h2, h3, h4, h5⟩ := h
    omega
  have hcheck : it.checkNoZero it.current
      (uint32 (it.current + (last.current - first.current))) = true := by
    rw [uint32_of_lt hlt]
    exact h.checkNoZero (by omega)
  rw [BufferIterator.writeIterator, if_pos ⟨hdata, hle, hstart, hend, hne, hcheck⟩]

theorem Region.writeIterator (h : it.Region n a) (first last : BufferIterator)
    (hdata : first.data = last.data) (hle : first.current ≤ last.current)
    (hstart : first.zeroStart = last.zeroStart) (hend : first.zeroEnd = last.zeroEnd)
    (hne : it.data ≠ first.data) (hlen : last.current - first.current ≤ n)
    (hcurrent : first.readFrom m (last.current - first.current) ≠ [] → a = it.current) :
    it.writeIterator m first last =
      some (it.store m a (first.readFrom m (last.current - first.current))) := by
  rw [h.writeIterator_current first last hdata hle hstart hend hne hlen]
  by_cases hnil : first.readFrom m (last.current - first.current) = []
  · rw [hnil, store_nil, store_nil]
  · rw [hcurrent hnil]

/-- The iterator `f` bytes into a buffer. -/
def atOffset (b : Buffer) (f : ℕ) : BufferIterator := { ofBegin b with current := b.start + f }

theorem next_ofBegin {b : Buffer} (h : b.Ordered) {f : ℕ} (hf : f ≤ b.stop - b.start) :
    (ofBegin b).next f = some (atOffset b f) := by
  have hlt : b.start + f ≤ b.stop := by
    obtain ⟨h1, h2, h3, h4⟩ := h
    omega
  have hnext : uint32 (b.start + f) = b.start + f := uint32_of_lt (hlt.trans_lt h.stop_lt)
  show (if uint32 (b.start + f) ≤ b.stop then
    some { ofBegin b with current := uint32 (b.start + f) } else none) = _
  rw [hnext, if_pos hlt]
  rfl

theorem ite_min_sub (k x y : ℕ) : (if x ≤ y then min k (y - x) else 0) = min k (y - x) := by
  split <;> omega

theorem readFrom_eq (m : BufferMemory) (it : BufferIterator) (size : ℕ) :
    it.readFrom m size =
      let n₁ := min size (it.zeroStart - it.current)
      let n₂ := min (size - n₁) (it.zeroEnd - (it.current + n₁))
      slice (m.heap it.data).data it.current n₁ ++ List.replicate n₂ 0 ++
        slice (m.heap it.data).data (it.current + n₁ + n₂ - (it.zeroEnd - it.zeroStart))
          (min (size - n₁ - n₂) (it.dataEnd - (it.current + n₁ + n₂))) := by
  rw [readFrom]
  simp only [ite_min_sub]

/-- Reading area by area gives a part of the bytes that the buffer denotes. -/
theorem readFrom_atOffset {b : Buffer} (h : b.Ordered) (f s : ℕ) :
    (atOffset b f).readFrom m s = ((b.copyData (m.heap b.data)).drop f).take s := by
  rw [h.copyData_eq, List.drop_append, List.drop_append, drop_slice, drop_slice,
    List.drop_replicate, List.take_append, List.take_append, take_slice, take_slice,
    List.take_replicate]
  simp only [length_slice, List.length_append, List.length_replicate]
  obtain ⟨h1, h2, h3, h4⟩ := h
  rw [readFrom_eq, atOffset, Buffer.zeroSize]
  dsimp only [ofBegin]
  obtain ⟨l, hl⟩ := Nat.exists_eq_add_of_le h1
  obtain ⟨z, hz⟩ := Nat.exists_eq_add_of_le h2
  obtain ⟨t, ht⟩ := Nat.exists_eq_add_of_le h3
  rw [ht, hz, hl]
  have hhead : b.start + l - (b.start + f) = l - f := Nat.add_sub_add_left _ _ _
  simp only [Nat.add_sub_cancel_left, hhead]
  rcases Nat.le_total s (l - f) with hs | hs
  · rw [Nat.min_eq_left hs, Nat.sub_self, Nat.zero_min, Nat.sub_eq_zero_of_le hs, Nat.zero_min,
      Nat.sub_eq_zero_of_le (hs.trans (Nat.le_add_right _ _)), Nat.zero_min]
    rfl
  · have hzero : b.start + l + z - (b.start + f + (l - f)) = z - (f - l) := by omega
    rw [Nat.min_eq_right hs, hzero]
    rcases Nat.le_total (s - (l - f)) (z - (f - l)) with hs' | hs'
    · rw [Nat.min_eq_left hs', Nat.sub_self, ← Nat.sub_sub s, Nat.sub_eq_zero_of_le hs',
        Nat.zero_min, Nat.zero_min]
      rfl
    · have htail : b.start + l + z + t - (b.start + f + (l - f) + (z - (f - l))) =
          t - (f - (l + z)) := by omega
      rw [Nat.min_eq_right hs', htail, Nat.sub_sub]
      refine Buffer.areas_congr rfl (Or.inr rfl) rfl rfl ?_
      omega

end BufferIterator

namespace BufferWrite
variable {strings : ByteStrings} {i n : ℕ} {x : BufferWrite}

/-- The source of the write, if it has one, is in another block than `b`. -/
def SourceApart (w : BufferWorld) (b : Buffer) : BufferWrite → Prop
  | writeIterator _ source _ _ => (w.buffer source).all (fun c => c.data ≠ b.data) = true
  | _ => True

instance (w : BufferWorld) (b : Buffer) (x : BufferWrite) : Decidable (x.SourceApart w b) :=
  match x with
  | writeIterator _ source _ _ =>
    inferInstanceAs (Decidable ((w.buffer source).all (fun c => c.data ≠ b.data) = true))
  | writeU8 _ _ | writeU8s _ _ _ | write _ _ => .isTrue True.intro

/-- The write is not one of bytes from another buffer. -/
def FromMemory : BufferWrite → Prop
  | writeIterator _ _ first last => last ≤ first
  | _ => True

instance (x : BufferWrite) : Decidable x.FromMemory :=
  match x with
  | writeIterator _ _ first last => inferInstanceAs (Decidable (last ≤ first))
  | writeU8 _ _ | writeU8s _ _ _ | write _ _ => .isTrue True.intro

theorem applyAll_nil (strings : ByteStrings) (o : ℕ) (s : List UInt8) :
    s = applyAll strings [] o s := rfl

theorem applyAll_cons (strings : ByteStrings) (x : BufferWrite) (writes : List BufferWrite) (o : ℕ)
    (s : List UInt8) : applyAll strings (x :: writes) o s =
      applyAll strings writes o (overlay s (o + x.offset) (x.bytes strings)) := rfl

/-- A buffer does not read from itself. -/
theorem bytes_set (hi : i < strings.length) (h : x.Legal (strings.set i none) n) :
    x.bytes (strings.set i none) = x.bytes strings := by
  obtain ⟨-, hsource⟩ := h
  cases x with
  | writeIterator offset source first last =>
    dsimp only at hsource
    rw [bytes, bytes]
    rw [join_set none hi] at hsource ⊢
    split at hsource
    · cases hsource
    · rename_i hne
      rw [if_neg hne]
  | _ => rfl

end BufferWrite

namespace BufferWorld
variable {w : BufferWorld} {it : BufferIterator} {i j n a o k : ℕ} {b c : Buffer}
  {l : List UInt8} {strings : ByteStrings} {x : BufferWrite}

/-- `n` bytes from address `a` on are in no other buffer, and at position `o` of the bytes of `b`. -/
structure Owns (w : BufferWorld) (i : ℕ) (b : Buffer) (n a o : ℕ) : Prop where
  bytes : ∀ d k l, k + l.length ≤ n →
    b.copyData { d with data := overwrite d.data (a + k) l } = overlay (b.copyData d) (o + k) l
  others : ∀ j c, j ≠ i → w.buffer j = some c → c.data = b.data →
    c.internalEnd ≤ a ∨ a + n ≤ c.start

/-- What a write of own bytes does to the family. -/
theorem Holds.store (h : w.Holds) (ho : w.Owns i b n a o) (hdata : it.data = b.data)
    (hk : k + l.length ≤ n) :
    Holds { w with memory := it.store w.memory (a + k) l } ∧
      b.copyData ((it.store w.memory (a + k) l).heap b.data) = overlay (w.bytes b) (o + k) l ∧
      ∀ j c, j ≠ i → w.buffer j = some c →
        c.copyData ((it.store w.memory (a + k) l).heap c.data) = w.bytes c := by
  have hself : (it.store w.memory (a + k) l).heap b.data =
      { w.memory.heap b.data with data := overwrite (w.memory.heap b.data).data (a + k) l } := by
    rw [BufferIterator.store, BufferMemory.setData, hdata]
    exact Function.update_self _ _ _
  have hother {p : ℕ} (hp : p ≠ b.data) :
      (it.store w.memory (a + k) l).heap p = w.memory.heap p := by
    rw [BufferIterator.store, BufferMemory.setData, hdata]
    exact Function.update_of_ne hp _ _
  refine ⟨?_, ?_, ?_⟩
  · have hcount (p : ℕ) : ((it.store w.memory (a + k) l).heap p).count =
        (w.memory.heap p).count := by
      by_cases hp : p = b.data
      · rw [hp, hself]
      · rw [hother hp]
    refine h.narrow (fun p => (hcount p).trans (h.counted p)) rfl (fun p => ?_)
      (fun j c hc => ⟨j, c, hc, Buffer.Within.refl (h.ordered j c hc)⟩)
    by_cases hp : p = b.data
    · subst hp
      dsimp only
      rw [hself]
      exact ⟨rfl, rfl, rfl⟩
    · dsimp only
      rw [hother hp]
      exact ⟨rfl, rfl, rfl⟩
  · rw [hself]
    exact ho.bytes _ k l hk
  · intro j c hne hc
    by_cases hp : c.data = b.data
    · rw [BufferWorld.bytes, hp, hself]
      refine (h.ordered j c hc).copyData_congr (fun q hq hq' => ?_)
      rcases ho.others j c hne hc hp with hend | hstart
      · exact overwrite_of_lt (by omega)
      · exact overwrite_of_ge (by omega)
    · rw [hother hp, BufferWorld.bytes]

theorem source_of_legal (hstrings : ∀ j, j ≠ i → (w.buffer j).map w.bytes = strings[j]?.join)
    (hi : i < strings.length) {offset source first last : ℕ}
    (h : BufferWrite.Legal (strings.set i none) n (.writeIterator offset source first last)) :
    ∃ c, w.buffer source = some c ∧ w.bytes c = strings[source]?.join.getD [] ∧ first ≤ last ∧
      last ≤ (strings[source]?.join.getD []).length := by
  obtain ⟨-, hsource⟩ := h
  dsimp only at hsource
  rw [join_set none hi] at hsource
  split at hsource
  · cases hsource
  · rename_i hne
    have hc := hstrings source hne
    cases hs : strings[source]?.join with
    | none =>
      rw [hs] at hsource
      cases hsource
    | some s =>
      rw [hs] at hc hsource
      obtain ⟨c, hb, hbytes⟩ := Option.map_eq_some_iff.mp hc
      rw [Option.any_some, decide_eq_true_eq] at hsource
      exact ⟨c, hb, hbytes, hsource⟩

/-- A legal write is one of its bytes, at its place in the added bytes. -/
theorem Holds.write_eq (h : w.Holds) (hregion : it.Region n a) (hdata : it.data = b.data)
    (hstrings : ∀ j, j ≠ i → (w.buffer j).map w.bytes = strings[j]?.join)
    (hi : i < strings.length) (hlegal : x.Legal (strings.set i none) n)
    (hsource : x.SourceApart w b) (hcurrent : ¬x.FromMemory → a = it.current) :
    w.write it x = some { w with
      memory := BufferIterator.store w.memory { it with current := it.current + x.offset }
        (a + x.offset) (x.bytes strings) } := by
  have hle := hlegal.1
  rw [BufferWrite.bytes_set hi hlegal] at hle
  obtain ⟨hnext, hregion'⟩ := hregion.next (o := x.offset) (by omega)
  cases x with
  | writeU8 offset data =>
    replace hnext : it.next offset = _ := hnext
    have hn : 0 < n - offset := Nat.sub_pos_of_lt hle
    rw [write, hnext, Option.bind_eq_bind, Option.bind_some,
      hregion'.writeU8 hn]
    rfl
  | writeU8s offset data len =>
    replace hnext : it.next offset = _ := hnext
    have hn : len ≤ n - offset := by
      rw [BufferWrite.bytes, List.length_replicate] at hle
      exact Nat.le_sub_of_add_le' hle
    rw [write, hnext, Option.bind_eq_bind, Option.bind_some,
      hregion'.writeU8s hn]
    rfl
  | write offset bytes =>
    replace hnext : it.next offset = _ := hnext
    have hn : bytes.length ≤ n - offset := Nat.le_sub_of_add_le' hle
    rw [write, hnext, Option.bind_eq_bind, Option.bind_some,
      hregion'.write hn]
    rfl
  | writeIterator offset source first last =>
    replace hnext : it.next offset = _ := hnext
    obtain ⟨c, hc, hbytes, hfirst, hlast⟩ := source_of_legal hstrings hi hlegal
    have hord := h.ordered source c hc
    rw [← hbytes, bytes, hord.length_copyData] at hlast
    have hread : (BufferIterator.atOffset c first).readFrom w.memory (last - first) =
        BufferWrite.bytes strings (BufferWrite.writeIterator offset source first last) := by
      rw [BufferIterator.readFrom_atOffset hord, BufferWrite.bytes, ← bytes, hbytes]
    have happart : it.data ≠ c.data := by
      rw [BufferWrite.SourceApart, hc, Option.all_some, decide_eq_true_eq] at hsource
      rw [hdata]
      exact hsource.symm
    have hlen : last - first ≤ n - offset := by
      rw [← hread, BufferIterator.readFrom_atOffset hord, List.length_take, List.length_drop,
        hord.length_copyData] at hle
      have : (BufferWrite.writeIterator offset source first last).offset = offset := rfl
      omega
    have hdiff : (BufferIterator.atOffset c last).current -
        (BufferIterator.atOffset c first).current = last - first :=
      Nat.add_sub_add_left _ _ _
    have hwrite := hregion'.writeIterator (m := w.memory)
      (BufferIterator.atOffset c first) (BufferIterator.atOffset c last) rfl
      (Nat.add_le_add_left hfirst _) rfl rfl happart (hdiff.trans_le hlen) (fun hnil => ?_)
    · rw [write, hc, hnext]
      simp only [Option.bind_eq_bind, Option.bind_some]
      rw [BufferIterator.next_ofBegin hord (hfirst.trans hlast),
        BufferIterator.next_ofBegin hord hlast]
      simp only [Option.bind_some]
      rw [hwrite, hdiff, hread]
      rfl
    · have hne : ¬BufferWrite.FromMemory (.writeIterator offset source first last) := by
        intro hle
        rw [hdiff, Nat.sub_eq_zero_of_le hle, BufferIterator.readFrom_atOffset hord] at hnil
        exact hnil List.take_zero
      rw [hcurrent hne]

/-- Legal writes one after the other, none of which is one of another buffer's bytes unless the
iterator needs no adjustment. -/
theorem Holds.writeAll (h : w.Holds) (hregion : it.Region n a) (hdata : it.data = b.data)
    (ho : w.Owns i b n a o)
    (hstrings : ∀ j, j ≠ i → (w.buffer j).map w.bytes = strings[j]?.join)
    (hi : i < strings.length) {writes : List BufferWrite}
    (hlegal : ∀ x ∈ writes, x.Legal (strings.set i none) n)
    (hsource : ∀ x ∈ writes, x.SourceApart w b)
    (hcurrent : ∀ x ∈ writes, ¬x.FromMemory → a = it.current) :
    ∃ m, w.writeAll it writes = some { w with memory := m } ∧ Holds { w with memory := m } ∧
      b.copyData (m.heap b.data) = BufferWrite.applyAll strings writes o (w.bytes b) ∧
      ∀ j c, j ≠ i → w.buffer j = some c → c.copyData (m.heap c.data) = w.bytes c := by
  induction writes generalizing w with
  | nil => exact ⟨w.memory, rfl, h, BufferWrite.applyAll_nil strings o _, fun _ _ _ _ => rfl⟩
  | cons x writes ih =>
    have hx := hlegal x List.mem_cons_self
    have hlen := hx.1
    rw [BufferWrite.bytes_set hi hx] at hlen
    have hwrite := h.write_eq hregion hdata hstrings hi hx (hsource x List.mem_cons_self)
      (hcurrent x List.mem_cons_self)
    obtain ⟨hholds, hown, hothers⟩ := h.store
      ho hdata hlen
    have hstrings' (j : ℕ) (hne : j ≠ i) :
        (w.buffer j).map (bytes { w with
          memory := BufferIterator.store w.memory { it with current := it.current + x.offset }
            (a + x.offset) (x.bytes strings) }) = strings[j]?.join := by
      rw [← hstrings j hne]
      exact Option.map_congr (fun c hc => hothers j c hne hc)
    obtain ⟨m, hrest, hholds', hown', hothers'⟩ := ih hholds ⟨ho.bytes, ho.others⟩ hstrings'
      (fun y hy => hlegal y (List.mem_cons_of_mem _ hy))
      (fun y hy => hsource y (List.mem_cons_of_mem _ hy))
      (fun y hy => hcurrent y (List.mem_cons_of_mem _ hy))
    refine ⟨m, ?_, hholds', ?_, fun j c hne hc => ?_⟩
    · rw [BufferWorld.writeAll, hwrite, Option.bind_some]
      exact hrest
    · rw [hown', BufferWrite.applyAll_cons, ← hown]
      rfl
    · exact (hothers' j c hne hc).trans (hothers j c hne hc)

end BufferWorld

end Ns3Noc
