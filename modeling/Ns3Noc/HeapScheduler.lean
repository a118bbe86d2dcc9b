import Ns3Noc.HeapOrder
import Ns3Noc.Scheduler

/-!
# HeapScheduler

A binary heap in a vector whose first item is wasted, so that indices start at one. Both loops
run on fuel; that the given fuel is enough is part of their specifications.
-/
namespace Ns3Noc.HeapScheduler
open HeapOrder

/-- The item wasted at the start of the vector. -/
def wasted : SchedulerEvent := ⟨0, ⟨0, 0, 0⟩⟩

def parent (id : ℕ) : ℕ := id / 2
def leftChild (id : ℕ) : ℕ := id * 2
def rightChild (id : ℕ) : ℕ := id * 2 + 1
def root : ℕ := 1

variable (heap : Array SchedulerEvent)

def last : ℕ := heap.size - 1
def isRoot (id : ℕ) : Bool := id == root
def isBottom (id : ℕ) : Bool := heap.size ≤ id

def entry (id : ℕ) : SchedulerEvent := heap.getD id wasted

def exch (a b : ℕ) : Option (Array SchedulerEvent) :=
  if h : b < heap.size ∧ a < heap.size then some (heap.swap a b h.2 h.1) else none

def isLessStrictly (a b : ℕ) : Bool := (entry heap a).key.less (entry heap b).key

def smallest (a b : ℕ) : ℕ := if isLessStrictly heap a b then a else b

def isEmpty : Bool := heap.size == 1

variable {heap}

def bottomUpFrom : ℕ → Array SchedulerEvent → ℕ → Option (Array SchedulerEvent)
  | 0, _, _ => none
  | fuel + 1, heap, index =>
    if ¬isRoot index ∧ isLessStrictly heap index (parent index) then do
      let heap ← exch heap index (parent index)
      bottomUpFrom fuel heap (parent index)
    else some heap

def bottomUp (heap : Array SchedulerEvent) : Option (Array SchedulerEvent) :=
  bottomUpFrom heap.size heap (last heap)

def topDownFrom : ℕ → Array SchedulerEvent → ℕ → Option (Array SchedulerEvent)
  | 0, _, _ => none
  | fuel + 1, heap, index =>
    if ¬isBottom heap (rightChild index) then
      let tmp := smallest heap (leftChild index) (rightChild index)
      if isLessStrictly heap index tmp then some heap
      else do
        let heap ← exch heap index tmp
        topDownFrom fuel heap tmp
    else if isBottom heap index then some heap
    else if isBottom heap (leftChild index) then some heap
    else if isLessStrictly heap index (leftChild index) then some heap
    else exch heap index (leftChild index)

def topDown (heap : Array SchedulerEvent) (start : ℕ) : Option (Array SchedulerEvent) :=
  topDownFrom (heap.size + 1) heap start

def insert (heap : Array SchedulerEvent) (ev : SchedulerEvent) : Option (Array SchedulerEvent) :=
  bottomUp (heap.push ev)

def peekNext (heap : Array SchedulerEvent) : Option (SchedulerEvent × Array SchedulerEvent) :=
  heap[root]?.map (fun ev => (ev, heap))

def removeNext (heap : Array SchedulerEvent) :
    Option (SchedulerEvent × Array SchedulerEvent) := do
  let next ← heap[root]?
  let heap ← exch heap root (last heap)
  let heap ← topDown heap.pop root
  some (next, heap)

/-- The first place after the wasted one that holds the uid. -/
def placeOf (heap : Array SchedulerEvent) (uid : ℕ) : Option ℕ :=
  (List.range' 1 (heap.size - 1)).find? (fun i => uid == (entry heap i).key.uid)

def remove (heap : Array SchedulerEvent) (ev : SchedulerEvent) :
    Option (Array SchedulerEvent) := do
  let i ← placeOf heap ev.key.uid
  if (entry heap i).impl = ev.impl then do
    let heap ← exch heap i (last heap)
    topDown heap.pop i
  else none

end HeapScheduler

def heapScheduler : Scheduler (Array SchedulerEvent) where
  empty := #[HeapScheduler.wasted]
  insert := HeapScheduler.insert
  isEmpty := HeapScheduler.isEmpty
  peekNext := HeapScheduler.peekNext
  removeNext := HeapScheduler.removeNext
  remove := HeapScheduler.remove

namespace HeapScheduler
open HeapOrder
variable {heap heap' : Array SchedulerEvent}

theorem entry_of_lt {i : ℕ} (h : i < heap.size) : entry heap i = heap[i] := by
  simp [entry, Array.getD, h]

theorem getElem?_eq_entry {i : ℕ} (h : i < heap.size) : heap[i]? = some (entry heap i) := by
  rw [entry_of_lt h, Array.getElem?_eq_getElem h]

/-- The same events in other places; the wasted item stays in front. -/
structure Rearranged (heap heap' : Array SchedulerEvent) : Prop where
  size : heap'.size = heap.size
  front : entry heap' 0 = entry heap 0
  perm : heap'.toList.Perm heap.toList

theorem Rearranged.refl (heap : Array SchedulerEvent) : Rearranged heap heap :=
  ⟨rfl, rfl, List.Perm.refl _⟩

theorem Rearranged.trans {h₁ h₂ h₃ : Array SchedulerEvent} (h : Rearranged h₁ h₂)
    (h' : Rearranged h₂ h₃) : Rearranged h₁ h₃ :=
  ⟨h'.size.trans h.size, h'.front.trans h.front, h'.perm.trans h.perm⟩

theorem exch_spec (heap : Array SchedulerEvent) {a b : ℕ} (ha : a < heap.size)
    (hb : b < heap.size) (ha1 : 1 ≤ a) (hb1 : 1 ≤ b) :
    ∃ heap', exch heap a b = some heap' ∧ Rearranged heap heap' ∧
      entry heap' = exchange (entry heap) a b := by
  have hentry : entry (heap.swap a b ha hb) = exchange (entry heap) a b := by
    funext k
    by_cases hka : k = a
    · subst hka
      rw [exchange_left, entry_of_lt hb, entry_of_lt (by simpa using ha)]
      simp
    · by_cases hkb : k = b
      · subst hkb
        rw [exchange_right, entry_of_lt ha, entry_of_lt (by simpa using hb)]
        simp
      · rw [exchange_of_ne hka hkb, entry, entry, Array.getD_eq_getD_getElem?,
          Array.getD_eq_getD_getElem?, Array.getElem?_swap]
        simp [Ne.symm hka, Ne.symm hkb]
  refine ⟨heap.swap a b ha hb, dif_pos ⟨hb, ha⟩, ⟨Array.size_swap, ?_, ?_⟩, hentry⟩
  · rw [hentry, exchange_of_ne (by omega) (by omega)]
  · exact (Array.swap_perm ha hb).toList

variable (heap) in
/-- No element is less than its parent, indices from one. -/
def HeapOrdered : Prop := ∀ i < heap.size, 1 < i → isLessStrictly heap i (parent i) = false

theorem isLessStrictly_iff {a b : ℕ} :
    isLessStrictly heap a b = true ↔ (entry heap a).rank < (entry heap b).rank :=
  EventKey.less_iff

theorem isLessStrictly_eq_false_iff {a b : ℕ} :
    isLessStrictly heap a b = false ↔ (entry heap b).rank ≤ (entry heap a).rank :=
  EventKey.less_eq_false_iff

theorem heapOrdered_iff :
    HeapOrdered heap ↔ Ordered SchedulerEvent.rank (entry heap) heap.size := by
  constructor
  · intro h i h1 hi
    exact isLessStrictly_eq_false_iff.mp (h i hi h1)
  · intro h i hi h1
    exact isLessStrictly_eq_false_iff.mpr (h i h1 hi)

@[simp] theorem isBottom_iff {id : ℕ} : isBottom heap id = true ↔ heap.size ≤ id :=
  decide_eq_true_iff

theorem bottomUpFrom_spec (fuel : ℕ) {index : ℕ}
    (h : UpOrder SchedulerEvent.rank (entry heap) heap.size index) (h1 : 1 ≤ index)
    (hi : index < heap.size) (hfuel : index ≤ fuel) :
    ∃ heap', bottomUpFrom fuel heap index = some heap' ∧ HeapOrdered heap' ∧
      Rearranged heap heap' := by
  induction fuel generalizing heap index with
  | zero => omega
  | succ fuel ih =>
    rw [bottomUpFrom]
    split
    · rename_i hloop
      have hx : 1 < index := by
        have hne : index ≠ 1 := by simpa [isRoot, root] using hloop.1
        omega
      obtain ⟨heap₁, he, hr, hentry⟩ := exch_spec heap (b := parent index) hi
        (by rw [parent]; omega) h1 (by rw [parent]; omega)
      have hmove := h.move hx hi (isLessStrictly_iff.mp hloop.2)
      rw [← hr.size, ← parent, ← hentry] at hmove
      obtain ⟨heap', hrun, hord, hr'⟩ := ih hmove (by rw [parent]; omega)
        (by rw [hr.size, parent]; omega) (by rw [parent]; omega)
      exact ⟨heap', by rw [he]; exact hrun, hord, hr.trans hr'⟩
    · rename_i hloop
      refine ⟨heap, rfl, heapOrdered_iff.mpr (h.stop ?_), Rearranged.refl heap⟩
      intro hx
      have hroot : ¬isRoot index := by simp [isRoot, root]; omega
      exact isLessStrictly_eq_false_iff.mp
        (Bool.eq_false_iff.mpr fun hless => hloop ⟨hroot, hless⟩)

theorem smallest_spec {index : ℕ} :
    smallest heap (leftChild index) (rightChild index) / 2 = index ∧
      smallest heap (leftChild index) (rightChild index) ≤ rightChild index ∧
      ∀ i, i / 2 = index →
        (entry heap (smallest heap (leftChild index) (rightChild index))).rank ≤
          (entry heap i).rank := by
  have hchild : ∀ i, i / 2 = index → i = leftChild index ∨ i = rightChild index := by
    intro i hi
    rw [leftChild, rightChild]
    omega
  rw [smallest]
  split
  · rename_i hless
    refine ⟨by rw [leftChild]; omega, by rw [leftChild, rightChild]; omega, fun i hi => ?_⟩
    rcases hchild i hi with rfl | rfl
    · exact le_rfl
    · exact (isLessStrictly_iff.mp hless).le
  · rename_i hless
    refine ⟨by rw [rightChild]; omega, le_rfl, fun i hi => ?_⟩
    rcases hchild i hi with rfl | rfl
    · exact isLessStrictly_eq_false_iff.mp (Bool.eq_false_iff.mpr hless)
    · exact le_rfl

/-- An element that is less than its children stays. -/
theorem topDownFrom_stay {fuel index : ℕ}
    (h : ∀ i < heap.size, i / 2 = index → (entry heap index).rank < (entry heap i).rank) :
    topDownFrom (fuel + 1) heap index = some heap := by
  rw [topDownFrom]
  split
  · rename_i hright
    have hr : rightChild index < heap.size := by simpa using hright
    obtain ⟨hchild, hle, -⟩ := smallest_spec
    exact if_pos (isLessStrictly_iff.mpr (h _ (by omega) hchild))
  · split
    · rfl
    · split
      · rfl
      · rename_i hleft
        have hl : leftChild index < heap.size := by simpa using hleft
        exact if_pos (isLessStrictly_iff.mpr (h _ hl (by rw [leftChild]; omega)))

theorem topDownFrom_spec (fuel : ℕ) {index : ℕ}
    (h : DownOrder SchedulerEvent.rank (entry heap) heap.size index) (h1 : 1 ≤ index)
    (hpos : 0 < fuel) (hfuel : heap.size < fuel + index) :
    ∃ heap', topDownFrom fuel heap index = some heap' ∧ HeapOrdered heap' ∧
      Rearranged heap heap' := by
  induction fuel generalizing heap index with
  | zero => omega
  | succ fuel ih =>
    -- the loop ends here as soon as the element is in order with the children it has
    have hstay (hx : ∀ i, 1 < i → i < heap.size → i / 2 = index →
        (entry heap index).rank ≤ (entry heap i).rank) :
        ∃ heap', some heap = some heap' ∧ HeapOrdered heap' ∧ Rearranged heap heap' :=
      ⟨heap, rfl, heapOrdered_iff.mpr (h.stop hx), Rearranged.refl heap⟩
    rw [topDownFrom]
    split
    · rename_i hright
      have hr : rightChild index < heap.size := by simpa using hright
      obtain ⟨hchild, hle, hleast⟩ := smallest_spec
      dsimp only
      generalize smallest heap (leftChild index) (rightChild index) = tmp at *
      split
      · rename_i hless
        refine hstay (fun i _ hi hix => ?_)
        exact (isLessStrictly_iff.mp hless).le.trans (hleast i hix)
      · rename_i hless
        have htmp : (entry heap tmp).rank ≤ (entry heap index).rank :=
          isLessStrictly_eq_false_iff.mp (Bool.eq_false_iff.mpr hless)
        obtain ⟨heap₁, he, hr₁, hentry⟩ := exch_spec heap (a := index) (b := tmp)
          (by omega) (by omega) h1 (by omega)
        have hmove := h.move h1 hchild (by omega) htmp (fun i hix _ => hleast i hix)
        rw [← hr₁.size, ← hentry] at hmove
        obtain ⟨heap', hrun, hord, hr'⟩ := ih hmove (by omega) (by omega)
          (by rw [hr₁.size]; omega)
        exact ⟨heap', by rw [he]; exact hrun, hord, hr₁.trans hr'⟩
    · rename_i hright
      have hr : heap.size ≤ index * 2 + 1 := by simpa [rightChild] using hright
      split
      · rename_i hbottom
        have hb : heap.size ≤ index := by simpa using hbottom
        exact hstay (fun i _ hi hix => by omega)
      · split
        · rename_i hleft
          have hl : heap.size ≤ index * 2 := by simpa [leftChild] using hleft
          exact hstay (fun i _ hi hix => by omega)
        · rename_i hleft
          have hl : leftChild index < heap.size := by simpa using hleft
          rw [leftChild] at hl ⊢
          have honly : ∀ i < heap.size, i / 2 = index → i = index * 2 := by
            intro i hi hix
            omega
          split
          · rename_i hless
            refine hstay (fun i _ hi hix => ?_)
            rw [honly i hi hix]
            exact (isLessStrictly_iff.mp hless).le
          · rename_i hless
            obtain ⟨heap₁, he, hr₁, hentry⟩ := exch_spec heap (a := index)
              (b := index * 2) (by omega) hl h1 (by omega)
            have hmove := h.move h1 (by omega) hl
              (isLessStrictly_eq_false_iff.mp (Bool.eq_false_iff.mpr hless))
              (fun i hix hi => by rw [honly i hi hix])
            rw [← hr₁.size, ← hentry] at hmove
            rw [he]
            refine ⟨heap₁, rfl, heapOrdered_iff.mpr (hmove.stop ?_), hr₁⟩
            -- the left child of a last inner place has no children
            intro i _ hi hix
            have := hr₁.size
            omega

/-- The heap stores the events of the list behind its wasted item. -/
structure Holds (heap : Array SchedulerEvent) (events : List SchedulerEvent) : Prop where
  ordered : HeapOrdered heap
  front : entry heap 0 = wasted
  perm : heap.toList.Perm (wasted :: events)

variable {events : List SchedulerEvent}

theorem Holds.size_eq (h : Holds heap events) : heap.size = events.length + 1 := by
  simpa using h.perm.length_eq

theorem holds_empty : Holds #[wasted] [] :=
  ⟨by intro i hi h1; simp at hi; omega, rfl, List.Perm.refl _⟩

theorem Holds.toList (h : Holds heap events) :
    ∃ rest, heap.toList = wasted :: rest ∧ rest.Perm events := by
  have h0 : 0 < heap.size := by rw [h.size_eq]; omega
  have hfront := h.front
  rw [entry_of_lt h0, ← Array.getElem_toList] at hfront
  obtain ⟨e, rest, hl⟩ := List.exists_cons_of_length_pos (l := heap.toList) (by simpa using h0)
  have he : e = wasted := by simpa [hl] using hfront
  exact ⟨rest, he ▸ hl, (List.perm_cons wasted).mp (by rw [← he, ← hl, he]; exact h.perm)⟩

theorem Holds.mem_iff (h : Holds heap events) {ev : SchedulerEvent} :
    ev ∈ events ↔ ∃ i, 1 ≤ i ∧ i < heap.size ∧ entry heap i = ev := by
  obtain ⟨rest, hl, hp⟩ := h.toList
  have hsize : heap.size = rest.length + 1 := by rw [← Array.length_toList, hl, List.length_cons]
  have hentry : ∀ j (hj : j < rest.length), entry heap (j + 1) = rest[j] := by
    intro j hj
    rw [entry_of_lt (by omega), ← Array.getElem_toList]
    simp [hl]
  rw [← hp.mem_iff, List.mem_iff_getElem]
  constructor
  · rintro ⟨j, hj, heq⟩
    exact ⟨j + 1, by omega, by omega, (hentry j hj).trans heq⟩
  · rintro ⟨i, h1, hi, heq⟩
    obtain ⟨j, rfl⟩ := Nat.exists_eq_add_of_le' h1
    exact ⟨j, by omega, (hentry j (by omega)).symm.trans heq⟩

/-- The root is a least event. -/
theorem Holds.root_least (h : Holds heap events) {e : SchedulerEvent} (he : e ∈ events) :
    (entry heap root).rank ≤ e.rank := by
  obtain ⟨i, h1, hi, rfl⟩ := h.mem_iff.mp he
  exact (heapOrdered_iff.mp h.ordered).root_le h1 hi

theorem Holds.of_rearranged (h : entry heap 0 = wasted)
    (hp : heap.toList.Perm (wasted :: events)) (hr : Rearranged heap heap')
    (ho : HeapOrdered heap') : Holds heap' events :=
  ⟨ho, hr.front.trans h, hr.perm.trans hp⟩

theorem entry_push {i : ℕ} {ev : SchedulerEvent} (h : i < heap.size) :
    entry (heap.push ev) i = entry heap i := by
  rw [entry_of_lt h, entry_of_lt (by rw [Array.size_push]; omega), Array.getElem_push_lt h]

theorem entry_pop {i : ℕ} (h : i < heap.pop.size) : entry heap.pop i = entry heap i := by
  have hi : i < heap.size := by rw [Array.size_pop] at h; omega
  rw [entry_of_lt h, entry_of_lt hi, Array.getElem_pop]

theorem insert_spec (h : Holds heap events) (ev : SchedulerEvent) :
    ∃ heap', insert heap ev = some heap' ∧ Holds heap' (ListScheduler.insert ev events) := by
  have hsize := h.size_eq
  have hup : UpOrder SchedulerEvent.rank (entry (heap.push ev)) (heap.push ev).size
      (last (heap.push ev)) := by
    have hord : Ordered SchedulerEvent.rank (entry (heap.push ev)) heap.size := by
      intro i h1 hi
      rw [entry_push hi, entry_push (by omega)]
      exact heapOrdered_iff.mp h.ordered i h1 hi
    rw [last, Array.size_push]
    exact hord.upOrder
  obtain ⟨heap', hrun, hord, hr⟩ := bottomUpFrom_spec (heap.push ev).size hup
    (by rw [last, Array.size_push]; omega) (by rw [last, Array.size_push]; omega)
    (by rw [last]; omega)
  refine ⟨heap', hrun, Holds.of_rearranged ?_ ?_ hr hord⟩
  · rw [entry_push (by omega)]
    exact h.front
  · rw [Array.toList_push]
    have hcons : (heap.toList ++ [ev]).Perm (wasted :: ev :: events) :=
      (h.perm.append_right [ev]).trans (List.perm_append_comm.trans (List.Perm.swap _ _ _))
    exact hcons.trans ((ListScheduler.insert_perm ev events).symm.cons wasted)

/-- The heap after the event at place `i` is exchanged with the last one and taken off. -/
theorem Holds.taken (h : Holds heap events) {i : ℕ} (h1 : 1 ≤ i) (hi : i < heap.size)
    {rest : List SchedulerEvent} (hrest : events.Perm (entry heap i :: rest)) :
    ∃ heap₁, exch heap i (last heap) = some heap₁ ∧ heap₁.pop.size = heap.size - 1 ∧
      (∀ k, k < heap.size - 1 → k ≠ i → entry heap₁.pop k = entry heap k) ∧
      (i < heap.size - 1 → entry heap₁.pop i = entry heap (last heap)) ∧
      heap₁.pop.toList.Perm (wasted :: rest) := by
  obtain ⟨heap₁, he, hr, hentry⟩ := exch_spec heap hi (b := last heap) (by rw [last]; omega) h1
    (by rw [last]; omega)
  have hsize : heap₁.pop.size = heap.size - 1 := by rw [Array.size_pop, hr.size]
  refine ⟨heap₁, he, hsize, ?_, ?_, ?_⟩
  · intro k hk hne
    rw [entry_pop (by omega), hentry, exchange_of_ne hne (by rw [last]; omega)]
  · intro hk
    rw [entry_pop (by omega), hentry, exchange_left]
  · have hlast : last heap < heap₁.size := by rw [hr.size, last]; omega
    have hpop : heap₁.pop.toList ++ [entry heap i] = heap₁.toList := by
      have hne : heap₁.toList ≠ [] := by
        intro hnil
        simp [← Array.length_toList, hnil] at hlast
      have hback : heap₁.toList.getLast hne = entry heap i := by
        rw [List.getLast_eq_getElem, Array.getElem_toList, ← entry_of_lt, hentry]
        rw [Array.length_toList, hr.size, ← last, exchange_right]
      rw [Array.toList_pop, ← hback, List.dropLast_append_getLast]
    have hall : (heap₁.pop.toList ++ [entry heap i]).Perm (wasted :: entry heap i :: rest) :=
      hpop ▸ hr.perm.trans (h.perm.trans (hrest.cons wasted))
    have hswap := (List.perm_append_comm.trans hall).trans (List.Perm.swap _ _ _)
    exact (List.perm_cons (entry heap i)).mp hswap

/-- `TopDown` repairs the heap where the moved event is in order with its parent. -/
theorem Holds.sunk (h : Holds heap events) {i : ℕ} (h1 : 1 ≤ i) (hi : i < heap.size)
    {rest : List SchedulerEvent} (hrest : events.Perm (entry heap i :: rest))
    (hparent : 1 < i → isLessStrictly heap (last heap) (parent i) = false) :
    ∃ heap₁ heap', exch heap i (last heap) = some heap₁ ∧
      topDown heap₁.pop i = some heap' ∧ Holds heap' rest := by
  have hsize := h.size_eq
  obtain ⟨heap₁, he, hsize₁, hoff, hat, hperm⟩ := h.taken h1 hi hrest
  have hdown : DownOrder SchedulerEvent.rank (entry heap₁.pop) heap₁.pop.size i := by
    rw [hsize₁]
    apply Ordered.downOrder ((heapOrdered_iff.mp h.ordered).mono (Nat.sub_le _ _)) hoff
    intro hx hsz
    rw [hat hsz]
    exact isLessStrictly_eq_false_iff.mp (hparent hx)
  obtain ⟨heap', hrun, hord, hr⟩ := topDownFrom_spec (heap₁.pop.size + 1) hdown h1
    (by omega) (by omega)
  refine ⟨heap₁, heap', he, hrun, Holds.of_rearranged ?_ hperm hr hord⟩
  by_cases hone : heap.size = 1
  · omega
  · rw [hoff 0 (by omega) (by omega)]
    exact h.front

theorem removeNext_spec (h : Holds heap events) (hs : ListScheduler.Sorted events)
    (hne : events ≠ []) :
    ∃ next rest heap', events = next :: rest ∧ removeNext heap = some (next, heap') ∧
      Holds heap' rest := by
  obtain ⟨front, rest, rfl⟩ := List.exists_cons_of_ne_nil hne
  have hsize : heap.size = rest.length + 2 := by simpa using h.size_eq
  have hroot : entry heap root = front := by
    have hmem := h.mem_iff.mpr ⟨root, le_rfl, by rw [root]; omega, rfl⟩
    exact hs.front_eq hmem (fun e he => h.root_least he)
  obtain ⟨heap₁, heap', he, hrun, hh⟩ := h.sunk (i := root) le_rfl (by rw [root]; omega)
    (by rw [hroot]) (by rw [root]; omega)
  refine ⟨front, rest, heap', rfl, ?_, hh⟩
  simp only [removeNext, getElem?_eq_entry (show root < heap.size by rw [root]; omega),
    hroot, he, hrun, Option.bind_eq_bind, Option.bind_some]

/-- The search of `Remove` finds the event that is to be removed. -/
theorem placeOf_spec (h : Holds heap events) (hs : ListScheduler.Sorted events)
    {ev : SchedulerEvent} (hev : ev ∈ events) :
    ∃ i, placeOf heap ev.key.uid = some i ∧ 1 ≤ i ∧ i < heap.size ∧ entry heap i = ev := by
  obtain ⟨j, hj1, hj, rfl⟩ := h.mem_iff.mp hev
  have hfound : (placeOf heap (entry heap j).key.uid).isSome := by
    rw [placeOf, List.find?_isSome]
    exact ⟨j, List.mem_range'_1.mpr ⟨hj1, by omega⟩, by simp⟩
  obtain ⟨i, hi⟩ := Option.isSome_iff_exists.mp hfound
  obtain ⟨h1, hlt⟩ := List.mem_range'_1.mp (List.mem_of_find?_eq_some hi)
  have huid := List.find?_some hi
  rw [beq_iff_eq] at huid
  refine ⟨i, hi, h1, by omega, ?_⟩
  exact (hs.eq_of_uid hev (h.mem_iff.mpr ⟨i, h1, by omega, rfl⟩) huid).symm

/-- An event has one place only. -/
theorem Holds.place_unique (h : Holds heap events) (hs : ListScheduler.Sorted events) {i j : ℕ}
    (hi1 : 1 ≤ i) (hi : i < heap.size) (hj1 : 1 ≤ j) (hj : j < heap.size)
    (heq : entry heap i = entry heap j) : i = j := by
  obtain ⟨rest, hl, hp⟩ := h.toList
  have hnodup : rest.Nodup := hp.nodup_iff.mpr (List.Nodup.of_map _ hs.uids)
  have hsize : heap.size = rest.length + 1 := by rw [← Array.length_toList, hl, List.length_cons]
  obtain ⟨i, rfl⟩ := Nat.exists_eq_add_of_le' hi1
  obtain ⟨j, rfl⟩ := Nat.exists_eq_add_of_le' hj1
  rw [entry_of_lt hi, entry_of_lt hj, ← Array.getElem_toList, ← Array.getElem_toList] at heq
  simp only [hl, List.getElem_cons_succ] at heq
  rw [hnodup.getElem_inj_iff.mp heq]

variable (heap) in
/-- Where the removed event stands, the last event is not less than the parent. -/
def RemovalInOrder (ev : SchedulerEvent) : Prop :=
  ∀ i < heap.size, 1 < i → heap[i]? = some ev → isLessStrictly heap (last heap) (parent i) = false

theorem remove_spec (h : Holds heap events) (hs : ListScheduler.Sorted events)
    {ev : SchedulerEvent} (hev : ev ∈ events) (hok : RemovalInOrder heap ev) :
    ∃ heap', remove heap ev = some heap' ∧ Holds heap' (events.erase ev) := by
  obtain ⟨i, hplace, h1, hi, rfl⟩ := placeOf_spec h hs hev
  obtain ⟨heap₁, heap', he, hrun, hh⟩ := h.sunk h1 hi (List.perm_cons_erase hev)
    (fun hx => hok i hi hx (getElem?_eq_entry hi))
  refine ⟨heap', ?_, hh⟩
  simp only [remove, hplace, Option.bind_eq_bind, Option.bind_some, if_true, he, hrun]

/-- Otherwise `TopDown` leaves the moved event below a greater parent. -/
theorem remove_breaks (h : Holds heap events) (hs : ListScheduler.Sorted events)
    {ev : SchedulerEvent} (hno : ¬RemovalInOrder heap ev) :
    ev ∈ events ∧ ∃ heap', remove heap ev = some heap' ∧ ¬HeapOrdered heap' := by
  simp only [RemovalInOrder, not_forall, Bool.not_eq_false] at hno
  obtain ⟨i, hi, hx, hget, hless⟩ := hno
  rw [getElem?_eq_entry hi, Option.some.injEq] at hget
  have hev : ev ∈ events := h.mem_iff.mpr ⟨i, by omega, hi, hget⟩
  refine ⟨hev, ?_⟩
  obtain ⟨j, hplace, hj1, hj, hgetj⟩ := placeOf_spec h hs hev
  obtain rfl := h.place_unique hs (by omega) hi hj1 hj (hget.trans hgetj.symm)
  subst hget
  obtain ⟨heap₁, he, hsize₁, hoff, hat, -⟩ := h.taken hj1 hi (List.perm_cons_erase hev)
  have hlt := isLessStrictly_iff.mp hless
  have hord := heapOrdered_iff.mp h.ordered
  have hlast : i < heap.size - 1 := by
    by_contra hge
    have hil : last heap = i := by rw [last]; omega
    rw [hil] at hlt
    exact absurd (hord i hx hi) (not_le.mpr hlt)
  have hstay : topDown heap₁.pop i = some heap₁.pop := by
    apply topDownFrom_stay
    intro k hk hki
    rw [hat hlast, hoff k (by omega) (by omega)]
    exact hord.lt_child hx hlt hki (by omega)
  refine ⟨heap₁.pop, ?_, fun hkeeps => ?_⟩
  · simp only [remove, hplace, Option.bind_eq_bind, Option.bind_some, if_true, he,
      hstay]
  · have hle := heapOrdered_iff.mp hkeeps i hx (by omega)
    rw [hat hlast, hoff (i / 2) (by omega) (by omega)] at hle
    exact absurd hle (not_le.mpr hlt)

/-- The order that every call keeps, next to the answers of the sorted list. -/
structure Refines (r : SchedulerRun (Array SchedulerEvent)) : Prop extends r.Agrees where
  ordered : ∀ heap, r.scheduler = some heap → HeapOrdered heap

/-- The calls that keep the heap in order: a removed event must not be replaced by one that
belongs above it. -/
def KeepsOrder (r : SchedulerRun (Array SchedulerEvent)) : SchedulerCall → Prop
  | .remove ev => ∀ heap ∈ r.scheduler, RemovalInOrder heap ev
  | _ => True

/-- What the allowed calls keep. -/
structure Inv (r : SchedulerRun (Array SchedulerEvent)) : Prop extends r.Agrees where
  sorted : ListScheduler.Sorted r.events
  holds : ∃ heap, r.scheduler = some heap ∧ Holds heap r.events

theorem Inv.simulates {r : SchedulerRun (Array SchedulerEvent)} (h : Inv r) : Refines r := by
  refine ⟨h.toAgrees, fun heap hheap => ?_⟩
  obtain ⟨heap', heq, hh⟩ := h.holds
  obtain rfl := Option.some.inj (hheap.symm.trans heq)
  exact hh.ordered

theorem inv_start : Inv (SchedulerRun.start heapScheduler) :=
  ⟨⟨rfl, rfl, by intro ev hev; cases hev⟩, ListScheduler.sorted_nil, #[wasted], rfl, holds_empty⟩

/-- Every allowed call succeeds on the heap with the answer of the sorted list. -/
theorem apply_spec (h : Holds heap events) (hs : ListScheduler.Sorted events)
    {call : SchedulerCall} (hl : call.Legal events)
    (hok : ∀ ev, call = .remove ev → RemovalInOrder heap ev) :
    ∃ heap', heapScheduler.apply heap call = some (call.answer events, heap') ∧
      Holds heap' (call.stored events) := by
  cases call with
  | insert ev =>
    obtain ⟨heap', hrun, hh⟩ := insert_spec h ev
    exact ⟨heap', congrArg (Option.map _) hrun, hh⟩
  | remove ev =>
    obtain ⟨heap', hrun, hh⟩ := remove_spec h hs hl (hok ev rfl)
    exact ⟨heap', congrArg (Option.map _) hrun, hh⟩
  | peekNext =>
    obtain ⟨front, rest, rfl⟩ := List.exists_cons_of_ne_nil hl
    have hroot : root < heap.size := by
      have := h.size_eq
      rw [List.length_cons] at this
      rw [root]
      omega
    have hmem := h.mem_iff.mpr ⟨root, le_rfl, hroot, rfl⟩
    have hfront := hs.front_eq hmem (fun e he => h.root_least he)
    refine ⟨heap, ?_, h⟩
    show (peekNext heap).map _ = _
    rw [peekNext, getElem?_eq_entry hroot, hfront]
    rfl
  | removeNext =>
    obtain ⟨next, rest, heap', rfl, hrun, hh⟩ := removeNext_spec h hs hl
    exact ⟨heap', congrArg (Option.map _) hrun, hh⟩

end HeapScheduler

namespace HeapScheduler
open PartialRuns SchedulerRun
variable {r r' : SchedulerRun (Array SchedulerEvent)} {call : SchedulerCall}

/-- An allowed call keeps the invariant. -/
theorem inv_step (h : Inv r) (hok : KeepsOrder r call)
    (hstep : step heapScheduler r call = some r') : Inv r' := by
  obtain ⟨hl, rfl⟩ := step_cases h.sorted hstep
  obtain ⟨heap, hheap, hh⟩ := h.holds
  obtain ⟨heap', hrun, hh'⟩ := apply_spec hh h.sorted hl (by
    rintro ev rfl
    exact hok heap hheap)
  simp only [hheap, Option.bind_some, hrun]
  refine ⟨⟨rfl, rfl, ?_⟩, h.sorted.stored hl, heap', rfl, hh'⟩
  intro ev hev
  exact call.answer_least h.sorted hev

/-- Any other call loses the order at once. -/
theorem step_breaks (h : Inv r) (hno : ¬KeepsOrder r call) :
    ∃ r', step heapScheduler r call = some r' ∧ ¬Refines r' := by
  cases call with
  | insert ev => exact absurd True.intro hno
  | peekNext => exact absurd True.intro hno
  | removeNext => exact absurd True.intro hno
  | remove ev =>
    obtain ⟨heap, hheap, hh⟩ := h.holds
    have hbad : ¬RemovalInOrder heap ev := by
      intro hgood
      apply hno
      intro heap' hheap'
      obtain rfl := Option.some.inj (hheap.symm.trans hheap')
      exact hgood
    obtain ⟨hev, heap', hrun, hlost⟩ := remove_breaks hh h.sorted hbad
    refine ⟨_, step_of_legal h.sorted hev, fun hkept => ?_⟩
    refine hlost (hkept.ordered heap' ?_)
    show (r.scheduler.bind fun s => (remove s ev).map (fun s' => (none, s'))).map Prod.snd = _
    rw [hheap, Option.bind_some, hrun]
    rfl

/-- The heap agrees with the sorted list and stays in order through exactly those runs in which
no removed event is replaced by one that is less than the parent of its place. -/
theorem refines_iff (calls : List SchedulerCall) :
    Always (step heapScheduler) Refines (start heapScheduler) calls ↔
      Allowed (step heapScheduler) KeepsOrder (start heapScheduler) calls :=
  always_iff_allowed (fun _ h => h.simulates) (fun _ _ _ h hok hs => inv_step h hok hs)
    (fun _ _ h hno => step_breaks h hno) inv_start calls

/-- A stored event with its place in the order of insertion as its uid. -/
def storedAt (ts : List ℕ) : List SchedulerEvent :=
  ts.zipIdx.map (fun p => ⟨p.2 + 1, p.1, p.2 + 1, 0⟩)

/-- The removed event stands below the one at time ten, and the last event, at time three, takes
its place. Three events later the heap returns time ten before time three. -/
def latePeek : List SchedulerCall :=
  (storedAt [0, 10, 1, 11, 12, 20, 2, 30, 31, 32, 33, 40, 41, 21, 3]).map .insert ++
    [.remove ⟨4, ⟨11, 4, 0⟩⟩, .removeNext, .removeNext, .removeNext, .peekNext]

theorem latePeek_wrong :
    (run (step heapScheduler) (start heapScheduler) latePeek).map
        (fun r => (r.returned.map (·.key.ts), r.expected.map (·.key.ts))) = some (some 10, some 3) ∧
      ¬Always (step heapScheduler) Refines (start heapScheduler) latePeek := by
  have hrun : (run (step heapScheduler) (start heapScheduler) latePeek).map
      (fun r => (r.returned.map (·.key.ts), r.expected.map (·.key.ts))) =
        some (some 10, some 3) := by
    decide +kernel
  refine ⟨hrun, fun h => ?_⟩
  obtain ⟨r, hr, hanswers⟩ := Option.map_eq_some_iff.mp hrun
  have hsame := (h.last hr).same
  rw [Prod.mk.injEq, hsame] at hanswers
  exact absurd (hanswers.1.symm.trans hanswers.2) (by decide)

end HeapScheduler

end Ns3Noc
