import Mathlib.Data.Nat.ModEq
import Ns3Noc.EventBuckets

/-!
# CalendarScheduler

Sorted buckets, a search that starts from the bucket and year limit of the last removed event, and
a table that is rebuilt when the queue grows or shrinks. `m_bucketTop` and the sums over the
samples wrap at 64 bits, a new width at 32. A width of zero, on which the program divides, is not
excluded by the definitions: the runs below name the states that have none.
-/
namespace Ns3Noc
open PartialRuns

structure CalendarScheduler where
  buckets : ℕ → List SchedulerEvent
  nBuckets : ℕ
  width : ℕ
  lastBucket : ℕ
  bucketTop : ℕ
  lastPrio : ℕ
  qSize : ℕ

/-- How the search loop ends: with an event of the year it looks at, or after all buckets. -/
inductive CalendarSearch where
  | found (next : SchedulerEvent) (bucket bucketTop : ℕ)
  | exhausted (minEvent : SchedulerEvent)

namespace CalendarScheduler

def hash (s : CalendarScheduler) (ts : ℕ) : ℕ := ts / s.width % s.nBuckets

def init (s : CalendarScheduler) (nBuckets width startPrio : ℕ) : CalendarScheduler where
  buckets := fun _ => []
  nBuckets := nBuckets
  width := width
  lastPrio := startPrio
  lastBucket := startPrio / width % nBuckets
  bucketTop := (startPrio / width + 1) * width % 2 ^ 64
  qSize := s.qSize

/-- The constructor. -/
def empty : CalendarScheduler := init ⟨fun _ => [], 0, 0, 0, 0, 0, 0⟩ 2 1 0

def doInsert (s : CalendarScheduler) (ev : SchedulerEvent) : CalendarScheduler :=
  let bucket := s.hash ev.key.ts
  { s with buckets :=
      Function.update s.buckets bucket (ListScheduler.insert ev (s.buckets bucket)) }

def isEmpty (s : CalendarScheduler) : Bool := s.qSize = 0

def minEvent : SchedulerEvent := ⟨0, ⟨2 ^ 64 - 1, 2 ^ 32 - 1, 0⟩⟩

/-- The loop of `PeekNext` and of `DoRemoveNext`. -/
def search (s : CalendarScheduler) : ℕ → ℕ → ℕ → SchedulerEvent → Option CalendarSearch
  | 0, _, _, _ => none
  | fuel + 1, i, bucketTop, minEvent =>
    let endWith (minEvent : SchedulerEvent) : Option CalendarSearch :=
      if (i + 1) % s.nBuckets = s.lastBucket then some (.exhausted minEvent)
      else s.search fuel ((i + 1) % s.nBuckets) ((bucketTop + s.width) % 2 ^ 64) minEvent
    match s.buckets i with
    | [] => endWith minEvent
    | next :: _ =>
      if next.key.ts < bucketTop then some (.found next i bucketTop)
      else endWith (if next.key.less minEvent.key then next else minEvent)

def peekNext (s : CalendarScheduler) : Option SchedulerEvent :=
  if s.isEmpty then none
  else
    match s.search s.nBuckets s.lastBucket s.bucketTop minEvent with
    | none => none
    | some (.found next _ _) => some next
    | some (.exhausted minEvent) => some minEvent

def doRemoveNext (s : CalendarScheduler) : Option (SchedulerEvent × CalendarScheduler) :=
  match s.search s.nBuckets s.lastBucket s.bucketTop minEvent with
  | none => none
  | some (.found next i bucketTop) =>
    some (next, { s with
      lastBucket := i
      lastPrio := next.key.ts
      bucketTop := bucketTop
      buckets := Function.update s.buckets i (s.buckets i).tail })
  | some (.exhausted minEvent) =>
    let lastBucket := s.hash minEvent.key.ts
    match s.buckets lastBucket with
    | [] => none
    | _ :: rest =>
      some (minEvent, { s with
        lastPrio := minEvent.key.ts
        lastBucket := lastBucket
        bucketTop := (minEvent.key.ts / s.width + 1) * s.width % 2 ^ 64
        buckets := Function.update s.buckets lastBucket rest })

/-- The first events of the queue, taken out one after another. -/
def gather : ℕ → CalendarScheduler → Option (List SchedulerEvent × CalendarScheduler)
  | 0, s => some ([], s)
  | nSamples + 1, s => do
    let (ev, s) ← s.doRemoveNext
    let (samples, s) ← gather nSamples s
    some (ev :: samples, s)

/-- The time between one sample and the next. -/
def separations (samples : List SchedulerEvent) : List ℕ :=
  List.zipWith (fun cur next => (next.key.ts + 2 ^ 64 - cur.key.ts) % 2 ^ 64) samples samples.tail

def sumSeparations (l : List ℕ) : ℕ := l.foldl (fun total d => (total + d) % 2 ^ 64) 0

def averageWidth (nSamples : ℕ) (samples : List SchedulerEvent) : ℕ :=
  let total := sumSeparations (separations samples)
  let twiceAvg := total / (nSamples - 1) * 2 % 2 ^ 64
  let total := sumSeparations ((separations samples).filter (· ≤ twiceAvg))
  max (total * 3 % 2 ^ 64) 1 % 2 ^ 32

def samplesOf (qSize : ℕ) : ℕ := min (if qSize ≤ 5 then qSize else 5 + qSize / 10) 25

def calculateNewWidth (s : CalendarScheduler) : Option (ℕ × CalendarScheduler) :=
  if s.qSize < 2 then some (1, s)
  else do
    let nSamples := samplesOf s.qSize
    let (samples, t) ← gather nSamples s
    let t := samples.foldl doInsert t
    some (averageWidth nSamples samples,
      { t with lastBucket := s.lastBucket, bucketTop := s.bucketTop, lastPrio := s.lastPrio })

def doResize (s : CalendarScheduler) (newSize newWidth : ℕ) : CalendarScheduler :=
  ((List.range s.nBuckets).flatMap s.buckets).foldl doInsert (s.init newSize newWidth s.lastPrio)

def resize (s : CalendarScheduler) (newSize : ℕ) : Option CalendarScheduler := do
  let (newWidth, s) ← s.calculateNewWidth
  some (s.doResize newSize newWidth)

def resizeUp (s : CalendarScheduler) : Option CalendarScheduler :=
  if s.qSize > s.nBuckets * 2 ∧ s.nBuckets < 32768 then s.resize (s.nBuckets * 2) else some s

def resizeDown (s : CalendarScheduler) : Option CalendarScheduler :=
  if s.qSize < s.nBuckets / 2 then s.resize (s.nBuckets / 2) else some s

def insert (s : CalendarScheduler) (ev : SchedulerEvent) : Option CalendarScheduler :=
  let s := s.doInsert ev
  resizeUp { s with qSize := s.qSize + 1 }

def removeNext (s : CalendarScheduler) : Option (SchedulerEvent × CalendarScheduler) :=
  if s.isEmpty then none
  else do
    let (ev, s) ← s.doRemoveNext
    let s ← resizeDown { s with qSize := s.qSize - 1 }
    some (ev, s)

def remove (s : CalendarScheduler) (ev : SchedulerEvent) : Option CalendarScheduler :=
  if s.isEmpty then none
  else do
    let bucket := s.hash ev.key.ts
    let events ← ListScheduler.remove ev (s.buckets bucket)
    resizeDown { s with
      buckets := Function.update s.buckets bucket events
      qSize := s.qSize - 1 }

end CalendarScheduler

def calendarScheduler : Scheduler CalendarScheduler where
  empty := CalendarScheduler.empty
  insert := CalendarScheduler.insert
  isEmpty := CalendarScheduler.isEmpty
  peekNext s := s.peekNext.map (fun ev => (ev, s))
  removeNext := CalendarScheduler.removeNext
  remove := CalendarScheduler.remove

namespace CalendarScheduler

/-- The sizes with which no limit of a year wraps. -/
structure Table (s : CalendarScheduler) : Prop where
  pos : 0 < s.nBuckets
  small : s.nBuckets < 65536
  width_pos : 0 < s.width
  width_small : s.width < 2 ^ 32

/-- Every event is in the bucket of its time stamp, and the buckets are sorted. -/
structure Stores (s : CalendarScheduler) (events : List SchedulerEvent) : Prop where
  sorted : ListScheduler.Sorted events
  bucketed : Bucketed (fun e => s.hash e.key.ts) s.nBuckets s.buckets events

/-- The search starts in the year of the last removed event, before all stored ones. -/
structure Cursor (s : CalendarScheduler) (events : List SchedulerEvent) : Prop where
  lastBucket : s.lastBucket = s.hash s.lastPrio
  bucketTop : s.bucketTop = (s.lastPrio / s.width + 1) * s.width
  early : s.lastPrio < 2 ^ 63
  past : ∀ e ∈ events, s.lastPrio ≤ e.key.ts
  future : ∀ e ∈ events, e.key.ts < 2 ^ 63

variable {s : CalendarScheduler} {events rest : List SchedulerEvent} {ev front : SchedulerEvent}

theorem Table.hash_lt (h : s.Table) (ts : ℕ) : s.hash ts < s.nBuckets := Nat.mod_lt _ h.pos

/-- The limits of the years that one search passes fit in 64 bits. -/
theorem Table.top_mod (h : s.Table) {ts d : ℕ} (hts : ts < 2 ^ 63) (hd : d ≤ s.nBuckets) :
    (ts / s.width + d + 1) * s.width % 2 ^ 64 = (ts / s.width + d + 1) * s.width := by
  apply Nat.mod_eq_of_lt
  have hyear : ts / s.width * s.width ≤ ts := Nat.div_mul_le_self ts s.width
  have hrest : (d + 1) * s.width ≤ 65536 * 2 ^ 32 :=
    Nat.mul_le_mul (by have := h.small; omega) h.width_small.le
  rw [Nat.add_assoc, Nat.add_mul]
  omega

/-- The search before its round `d`: no event is of a year that was passed, and no event of a
bucket that was passed precedes the least front seen. -/
structure Round (s : CalendarScheduler) (events : List SchedulerEvent) (d i bucketTop : ℕ)
    (least : SchedulerEvent) : Prop where
  bucket : i = (s.lastPrio / s.width + d) % s.nBuckets
  top : bucketTop = (s.lastPrio / s.width + d + 1) * s.width
  later : ∀ e ∈ events, s.lastPrio / s.width + d ≤ e.key.ts / s.width
  least_le : ∀ e ∈ events, ∀ j < d, s.hash e.key.ts = (s.lastPrio / s.width + j) % s.nBuckets →
    least.rank ≤ e.rank
  stored : least = minEvent ∨ least ∈ events

theorem Cursor.round (h : s.Cursor events) :
    s.Round events 0 s.lastBucket s.bucketTop minEvent where
  bucket := h.lastBucket
  top := h.bucketTop
  later e he := Nat.div_le_div_right (h.past e he)
  least_le _ _ j hj := absurd hj (Nat.not_lt_zero j)
  stored := Or.inl rfl

theorem rank_lt_minEvent {e : SchedulerEvent} (h : e.key.ts < 2 ^ 63) : e.rank < minEvent.rank :=
  EventKey.rank_lt_iff.mpr (Or.inl (by rw [minEvent]; dsimp only; omega))

variable {d i bucketTop : ℕ} {least : SchedulerEvent}

/-- The first event of the year that the round looks at. -/
theorem Round.found (h : s.Round events d i bucketTop least) (ht : s.Table)
    (hst : s.Stores events) {next : SchedulerEvent} {tail : List SchedulerEvent}
    (hb : s.buckets i = next :: tail) (htop : next.key.ts < bucketTop) :
    next ∈ events ∧ i = s.hash next.key.ts ∧
      bucketTop = (next.key.ts / s.width + 1) * s.width ∧ ∀ e ∈ events, next.rank ≤ e.rank := by
  have hi : i < s.nBuckets := h.bucket ▸ Nat.mod_lt _ ht.pos
  obtain ⟨hmem, hhash, -⟩ := hst.bucketed.front hst.sorted hi hb
  have hyear : year s.width next.key.ts = s.lastPrio / s.width + d := by
    rw [h.top] at htop
    exact le_antisymm ((lt_top_iff ht.width_pos).mp htop) (h.later next hmem)
  have hfirst := Bucketed.first_of_year hst.bucketed hst.sorted ht.pos h.later (h.bucket ▸ hb) hyear
  exact ⟨hmem, hhash.symm, by rw [h.top, ← hyear, year], hfirst.2⟩

/-- A round that finds nothing of its year. -/
theorem Round.pass (h : s.Round events d i bucketTop least) (ht : s.Table)
    {least' : SchedulerEvent}
    (hnext : ∀ e ∈ events, s.hash e.key.ts = i → bucketTop ≤ e.key.ts ∧ least'.rank ≤ e.rank)
    (hle : least'.rank ≤ least.rank) (hstored : least' = minEvent ∨ least' ∈ events) :
    s.Round events (d + 1) ((i + 1) % s.nBuckets) (bucketTop + s.width) least' where
  bucket := by rw [h.bucket, Nat.mod_add_mod, Nat.add_assoc]
  top := by rw [h.top, ← Nat.succ_mul, Nat.succ_eq_add_one, Nat.add_assoc _ d 1]
  later := by
    refine later_of_pass (n := s.nBuckets) h.later (fun e he hhash heq => ?_)
    have htop := (hnext e he (hhash.trans h.bucket.symm)).1
    rw [h.top, ← not_lt, lt_top_iff ht.width_pos] at htop
    exact htop heq.le
  least_le e he j hj heq := by
    rcases Nat.lt_succ_iff_lt_or_eq.mp hj with hj | rfl
    · exact hle.trans (h.least_le e he j hj heq)
    · exact (hnext e he (heq.trans h.bucket.symm)).2
  stored := hstored

/-- After a round for every bucket, the least front is the first event. -/
theorem Round.exhausted (h : s.Round (front :: rest) s.nBuckets i bucketTop least) (ht : s.Table)
    (hst : s.Stores (front :: rest)) (hc : s.Cursor (front :: rest)) : least = front := by
  have hall : ∀ e ∈ front :: rest, least.rank ≤ e.rank := by
    intro e he
    obtain ⟨j, hj, hround⟩ := exists_round ht.pos (Nat.div_le_div_right (hc.past e he))
    exact h.least_le e he j hj hround
  rcases h.stored with rfl | hmem
  · have hlt := rank_lt_minEvent (hc.future front List.mem_cons_self)
    exact absurd (hall front List.mem_cons_self) (not_le.mpr hlt)
  · exact hst.sorted.front_eq hmem hall

/-- What a search gives that starts before all events. -/
def Finds (s : CalendarScheduler) (front : SchedulerEvent) (r : Option CalendarSearch) : Prop :=
  r = some (.found front (s.hash front.key.ts) ((front.key.ts / s.width + 1) * s.width)) ∨
    r = some (.exhausted front)

theorem Round.search_spec {fuel : ℕ} (h : s.Round (front :: rest) d i bucketTop least)
    (ht : s.Table) (hst : s.Stores (front :: rest)) (hc : s.Cursor (front :: rest))
    (hd : fuel + d = s.nBuckets) (hpos : 0 < fuel) :
    s.Finds front (s.search fuel i bucketTop least) := by
  induction fuel generalizing d i bucketTop least with
  | zero => omega
  | succ fuel ih =>
    have hi : i < s.nBuckets := h.bucket ▸ Nat.mod_lt _ ht.pos
    -- the end of a round that found nothing of its year
    have hend (least' : SchedulerEvent)
        (hpass : s.Round (front :: rest) (d + 1) ((i + 1) % s.nBuckets) (bucketTop + s.width)
          least') :
        s.Finds front (if (i + 1) % s.nBuckets = s.lastBucket then some (.exhausted least')
          else s.search fuel ((i + 1) % s.nBuckets) ((bucketTop + s.width) % 2 ^ 64) least') := by
      by_cases hlast : d + 1 = s.nBuckets
      · have hround : (i + 1) % s.nBuckets = s.lastBucket := by
          rw [hpass.bucket, hlast, Nat.add_mod_right, hc.lastBucket, hash]
        rw [if_pos hround]
        rw [hlast] at hpass
        exact Or.inr (by rw [hpass.exhausted ht hst hc])
      · have hround : (i + 1) % s.nBuckets ≠ s.lastBucket := by
          intro heq
          rw [hpass.bucket, hc.lastBucket, hash] at heq
          have hzero : d + 1 ≡ 0 [MOD s.nBuckets] := Nat.ModEq.add_left_cancel' _ heq
          rw [Nat.ModEq, Nat.mod_eq_of_lt (by omega), Nat.zero_mod] at hzero
          omega
        have hwrap : (bucketTop + s.width) % 2 ^ 64 = bucketTop + s.width := by
          rw [hpass.top]
          exact ht.top_mod hc.early (by omega)
        rw [if_neg hround, hwrap]
        exact ih hpass (by omega) (by omega)
    rw [search]
    dsimp only
    split
    · rename_i hb
      have hno := hst.bucketed.empty hi hb
      exact hend least (h.pass ht (fun e he heq => absurd heq (hno e he)) le_rfl h.stored)
    · rename_i next tail hb
      split
      · rename_i htop
        obtain ⟨hmem, hbucket, hyear, hleast⟩ := h.found ht hst hb htop
        obtain rfl := hst.sorted.front_eq hmem hleast
        exact Or.inl (by rw [hbucket, hyear])
      · rename_i htop
        obtain ⟨hmem, -, hfirst⟩ := hst.bucketed.front hst.sorted hi hb
        have hlate : ∀ e ∈ front :: rest, s.hash e.key.ts = i → bucketTop ≤ e.key.ts := by
          intro e he heq
          rcases EventKey.rank_le_iff.mp (hfirst e he heq) with hlt | ⟨heq, -⟩ <;> omega
        apply hend
        split
        · rename_i hless
          exact h.pass ht (fun e he heq => ⟨hlate e he heq, hfirst e he heq⟩)
            (EventKey.less_iff.mp hless).le (Or.inr hmem)
        · rename_i hless
          have hle : least.rank ≤ next.rank :=
            EventKey.less_eq_false_iff.mp (Bool.eq_false_iff.mpr hless)
          exact h.pass ht (fun e he heq => ⟨hlate e he heq, hle.trans (hfirst e he heq)⟩)
            le_rfl h.stored

theorem search_spec (ht : s.Table) (hst : s.Stores (front :: rest))
    (hc : s.Cursor (front :: rest)) :
    s.Finds front (s.search s.nBuckets s.lastBucket s.bucketTop minEvent) :=
  hc.round.search_spec ht hst hc rfl ht.pos

theorem peekNext_spec (ht : s.Table) (hst : s.Stores (front :: rest))
    (hc : s.Cursor (front :: rest)) (hq : s.qSize = rest.length + 1) :
    s.peekNext = some front := by
  rw [peekNext, if_neg (by simp [isEmpty, hq])]
  rcases search_spec ht hst hc with h | h <;> rw [h]

/-- The scheduler after its first event is taken. -/
def advance (s : CalendarScheduler) (front : SchedulerEvent) : CalendarScheduler :=
  { s with
    lastBucket := s.hash front.key.ts
    lastPrio := front.key.ts
    bucketTop := (front.key.ts / s.width + 1) * s.width
    buckets := Function.update s.buckets (s.hash front.key.ts)
      ((s.buckets (s.hash front.key.ts)).erase front) }

theorem doRemoveNext_spec (ht : s.Table) (hst : s.Stores (front :: rest))
    (hc : s.Cursor (front :: rest)) : s.doRemoveNext = some (front, s.advance front) := by
  obtain ⟨tail, hb⟩ := hst.bucketed.head (ht.hash_lt _)
  have htop := ht.top_mod (hc.future front List.mem_cons_self) (Nat.zero_le _)
  rw [Nat.add_zero] at htop
  rw [doRemoveNext, advance, hb, List.erase_cons_head]
  rcases search_spec ht hst hc with h | h
  · rw [h]
    dsimp only
    rw [hb, List.tail_cons]
  · rw [h]
    dsimp only
    rw [hb, htop]

theorem Stores.advance (hst : s.Stores (front :: rest)) : (s.advance front).Stores rest := by
  refine ⟨hst.sorted.of_sublist (List.sublist_cons_self front rest), ?_⟩
  have h := hst.bucketed.erase hst.sorted front
  rw [List.erase_cons_head] at h
  exact h

theorem Cursor.advance (hc : s.Cursor (front :: rest))
    (hs : ListScheduler.Sorted (front :: rest)) : (s.advance front).Cursor rest where
  lastBucket := rfl
  bucketTop := rfl
  early := hc.future front List.mem_cons_self
  past e he := by
    rcases EventKey.rank_lt_iff.mp (hs.front_least e he) with h | ⟨h, -⟩
    · exact h.le
    · exact h.le
  future e he := hc.future e (List.mem_cons_of_mem front he)

/-- The fields that only `Init` changes, with the counter. -/
structure SameTable (s t : CalendarScheduler) : Prop where
  nBuckets : t.nBuckets = s.nBuckets
  width : t.width = s.width
  qSize : t.qSize = s.qSize

theorem SameTable.trans {t u : CalendarScheduler} (h : s.SameTable t) (h' : t.SameTable u) :
    s.SameTable u :=
  ⟨h'.nBuckets.trans h.nBuckets, h'.width.trans h.width, h'.qSize.trans h.qSize⟩

theorem SameTable.hash_eq {t : CalendarScheduler} (h : s.SameTable t) (ts : ℕ) :
    t.hash ts = s.hash ts := by rw [hash, hash, h.width, h.nBuckets]

theorem SameTable.table {t : CalendarScheduler} (h : s.SameTable t) (ht : s.Table) : t.Table :=
  ⟨h.nBuckets ▸ ht.pos, h.nBuckets ▸ ht.small, h.width ▸ ht.width_pos, h.width ▸ ht.width_small⟩

/-- The samples are the first events. -/
theorem gather_spec {n : ℕ} (ht : s.Table) (hst : s.Stores events) (hc : s.Cursor events)
    (hn : n ≤ events.length) :
    ∃ t, gather n s = some (events.take n, t) ∧ s.SameTable t ∧ t.Stores (events.drop n) := by
  induction n generalizing s events with
  | zero => exact ⟨s, rfl, ⟨rfl, rfl, rfl⟩, hst⟩
  | succ n ih =>
    obtain ⟨front, rest, rfl⟩ := List.exists_cons_of_length_pos (l := events) (by omega)
    have hsame : s.SameTable (s.advance front) := ⟨rfl, rfl, rfl⟩
    obtain ⟨t, hrun, hst', hdrop⟩ := ih (hsame.table ht) hst.advance (hc.advance hst.sorted)
      (Nat.le_of_succ_le_succ hn)
    refine ⟨t, ?_, hsame.trans hst', hdrop⟩
    rw [gather, doRemoveNext_spec ht hst hc]
    show (gather n (s.advance front)).bind _ = _
    rw [hrun]
    rfl

theorem Stores.doInsert (hst : s.Stores events) (hnew : ∀ e ∈ events, e.key.uid ≠ ev.key.uid) :
    (s.doInsert ev).Stores (ListScheduler.insert ev events) :=
  ⟨hst.sorted.insert hnew, hst.bucketed.insert hst.sorted⟩

theorem foldl_doInsert_eq (l : List SchedulerEvent) (s : CalendarScheduler) :
    l.foldl CalendarScheduler.doInsert s =
      { s with buckets := (l.foldl CalendarScheduler.doInsert s).buckets } := by
  induction l generalizing s with
  | nil => rfl
  | cons ev l ih => exact ih (s.doInsert ev)

/-- Insertions one after another. -/
theorem Stores.foldl_doInsert {l : List SchedulerEvent} (hst : s.Stores rest)
    (hs : ListScheduler.Sorted events) (hl : (l ++ rest).Perm events) :
    (l.foldl CalendarScheduler.doInsert s).Stores events := by
  induction l generalizing s rest with
  | nil => exact hst.sorted.eq_of_perm hs hl ▸ hst
  | cons ev l ih =>
    have hnew := ListScheduler.new_of_perm hs hl
    have hperm : (l ++ ListScheduler.insert ev rest).Perm events :=
      (((ListScheduler.insert_perm ev rest).append_left l).trans List.perm_middle).trans hl
    exact ih (hst.doInsert hnew) hperm

theorem samplesOf_le (n : ℕ) : samplesOf n ≤ n := by
  rw [samplesOf]
  split <;> omega

/-- The width that sampling these events gives. -/
def sampledWidth (events : List SchedulerEvent) : ℕ :=
  if events.length < 2 then 1
  else averageWidth (samplesOf events.length) (events.take (samplesOf events.length))

theorem sampledWidth_lt (events : List SchedulerEvent) : sampledWidth events < 2 ^ 32 := by
  rw [sampledWidth]
  split
  · omega
  · exact Nat.mod_lt _ (by omega)

/-- Sampling leaves the scheduler with the same events. -/
theorem calculateNewWidth_spec (ht : s.Table) (hst : s.Stores events) (hc : s.Cursor events)
    (hq : s.qSize = events.length) :
    ∃ t, s.calculateNewWidth = some (sampledWidth events, t) ∧ s.SameTable t ∧ t.Stores events ∧
      t.lastPrio = s.lastPrio := by
  rw [calculateNewWidth, sampledWidth, hq]
  split
  · exact ⟨s, rfl, ⟨rfl, rfl, rfl⟩, hst, rfl⟩
  · obtain ⟨t, hrun, hsame, hdrop⟩ := gather_spec ht hst hc (samplesOf_le events.length)
    have hst' := hdrop.foldl_doInsert hst.sorted (l := events.take (samplesOf events.length))
      (by rw [List.take_append_drop])
    dsimp only
    rw [hrun]
    refine ⟨_, rfl, ?_, ⟨hst'.sorted, hst'.bucketed⟩, rfl⟩
    rw [foldl_doInsert_eq]
    exact ⟨hsame.nBuckets, hsame.width, hsame.qSize⟩

/-- The whole invariant. -/
structure Holds (s : CalendarScheduler) (events : List SchedulerEvent) (clock : ℕ) : Prop where
  table : s.Table
  stores : s.Stores events
  cursor : s.Cursor events
  clock : s.lastPrio = clock
  qSize : s.qSize = events.length

/-- What a call leaves that may have resized the table: it holds the events, unless the new width
is zero. -/
structure Rebuilt (s : CalendarScheduler) (resized : Prop) (events : List SchedulerEvent)
    (clock : ℕ) : Prop where
  zero_iff : s.width = 0 ↔ resized ∧ sampledWidth events = 0
  holds : s.width ≠ 0 → s.Holds events clock

variable {clock : ℕ}

theorem Holds.rebuilt {resized : Prop} (h : s.Holds events clock) (hno : ¬resized) :
    s.Rebuilt resized events clock where
  zero_iff := iff_of_false h.table.width_pos.ne' (fun h => hno h.1)
  holds _ := h

theorem resize_spec {resized : Prop} {newSize : ℕ} (h : s.Holds events clock) (hpos : 0 < newSize)
    (hsmall : newSize < 65536) (hresized : resized) :
    ∃ t, s.resize newSize = some t ∧ t.Rebuilt resized events clock := by
  obtain ⟨t, hrun, hsame, hst, hprio⟩ :=
    calculateNewWidth_spec h.table h.stores h.cursor h.qSize
  have hempty : (t.init newSize (sampledWidth events) t.lastPrio).Stores [] :=
    ⟨ListScheduler.sorted_nil, Bucketed.nil _ _⟩
  have hall : (((List.range t.nBuckets).flatMap t.buckets) ++ []).Perm events := by
    rw [List.append_nil]
    exact hst.bucketed.perm hst.sorted (fun e _ => (hsame.table h.table).hash_lt e.key.ts)
  have hst' := hempty.foldl_doInsert hst.sorted hall
  refine ⟨t.doResize newSize (sampledWidth events), by rw [resize, hrun]; rfl, ?_, fun hne => ?_⟩
  · rw [doResize, foldl_doInsert_eq]
    exact (and_iff_right hresized).symm
  rw [doResize, foldl_doInsert_eq] at hne ⊢
  have hearly : t.lastPrio < 2 ^ 63 := hprio ▸ h.cursor.early
  have htable : (t.init newSize (sampledWidth events) t.lastPrio).Table :=
    ⟨hpos, hsmall, Nat.pos_of_ne_zero hne, sampledWidth_lt events⟩
  have htop := htable.top_mod hearly (Nat.zero_le _)
  exact {
    table := ⟨hpos, hsmall, Nat.pos_of_ne_zero hne, sampledWidth_lt events⟩
    stores := foldl_doInsert_eq _ (t.init newSize (sampledWidth events) t.lastPrio) ▸ hst'
    cursor := ⟨rfl, htop, hearly, hprio ▸ h.cursor.past, h.cursor.future⟩
    clock := hprio.trans h.clock
    qSize := hsame.qSize.trans h.qSize }

/-- The call resizes the table, where the queue has `qSize` events after it. -/
def Resizes (nBuckets qSize : ℕ) : SchedulerCall → Prop
  | .insert _ => qSize > nBuckets * 2 ∧ nBuckets < 32768
  | .remove _ | .removeNext => qSize < nBuckets / 2
  | .peekNext => False

instance (nBuckets qSize : ℕ) (call : SchedulerCall) : Decidable (Resizes nBuckets qSize call) :=
  match call with
  | .insert _ => inferInstanceAs (Decidable (qSize > nBuckets * 2 ∧ nBuckets < 32768))
  | .remove _ | .removeNext => inferInstanceAs (Decidable (qSize < nBuckets / 2))
  | .peekNext => .isFalse id

theorem resizeUp_spec (h : s.Holds events clock) :
    ∃ t, s.resizeUp = some t ∧
      t.Rebuilt (Resizes s.nBuckets events.length (.insert ev)) events clock := by
  rw [resizeUp, Resizes, h.qSize]
  split
  · rename_i hup
    exact resize_spec h (by have := h.table.pos; omega) (by omega) hup
  · rename_i hup
    exact ⟨s, rfl, h.rebuilt hup⟩

theorem resizeDown_spec (h : s.Holds events clock) :
    ∃ t, s.resizeDown = some t ∧ t.Rebuilt (events.length < s.nBuckets / 2) events clock := by
  rw [resizeDown, h.qSize]
  split
  · rename_i hdown
    exact resize_spec h (by omega) (by have := h.table.small; omega) hdown
  · rename_i hdown
    exact ⟨s, rfl, h.rebuilt hdown⟩

theorem insert_spec (h : s.Holds events clock) (hnew : ∀ e ∈ events, e.key.uid ≠ ev.key.uid)
    (hts : clock ≤ ev.key.ts ∧ ev.key.ts < 2 ^ 63) :
    ∃ t, s.insert ev = some t ∧
      t.Rebuilt (Resizes s.nBuckets (ListScheduler.insert ev events).length (.insert ev))
        (ListScheduler.insert ev events) clock := by
  have hst := h.stores.doInsert hnew
  have hmem {e : SchedulerEvent} (he : e ∈ ListScheduler.insert ev events) : e = ev ∨ e ∈ events :=
    List.mem_cons.mp ((ListScheduler.insert_perm ev events).subset he)
  refine resizeUp_spec (s := { s.doInsert ev with qSize := s.qSize + 1 }) ?_
  exact {
    table := ⟨h.table.pos, h.table.small, h.table.width_pos, h.table.width_small⟩
    stores := ⟨hst.sorted, hst.bucketed⟩
    cursor := {
      lastBucket := h.cursor.lastBucket
      bucketTop := h.cursor.bucketTop
      early := h.cursor.early
      past := by
        intro e he
        rcases hmem he with rfl | he
        · exact h.clock.trans_le hts.1
        · exact h.cursor.past e he
      future := by
        intro e he
        rcases hmem he with rfl | he
        · exact hts.2
        · exact h.cursor.future e he }
    clock := h.clock
    qSize := by rw [(ListScheduler.insert_perm ev events).length_eq, List.length_cons, ← h.qSize] }

theorem removeNext_spec (h : s.Holds (front :: rest) clock) :
    ∃ t, s.removeNext = some (front, t) ∧
      t.Rebuilt (rest.length < s.nBuckets / 2) rest front.key.ts := by
  have hst := h.stores.advance
  have hc := h.cursor.advance h.stores.sorted
  have hq : s.qSize = rest.length + 1 := h.qSize
  obtain ⟨t, hrun, ht⟩ := resizeDown_spec
    (s := { s.advance front with qSize := (s.advance front).qSize - 1 })
    {
      table := ⟨h.table.pos, h.table.small, h.table.width_pos, h.table.width_small⟩
      stores := ⟨hst.sorted, hst.bucketed⟩
      cursor := ⟨hc.lastBucket, hc.bucketTop, hc.early, hc.past, hc.future⟩
      clock := rfl
      qSize := show s.qSize - 1 = rest.length by omega }
  refine ⟨t, ?_, ht⟩
  rw [removeNext, if_neg (by simp [isEmpty, hq]), doRemoveNext_spec h.table h.stores h.cursor]
  exact congrArg (fun o => o.bind (fun s => some (front, s))) hrun

theorem remove_spec (h : s.Holds events clock) (hev : ev ∈ events) :
    ∃ t, s.remove ev = some t ∧
      t.Rebuilt ((events.erase ev).length < s.nBuckets / 2) (events.erase ev) clock := by
  have hbucket : ListScheduler.remove ev (s.buckets (s.hash ev.key.ts)) =
      some ((s.buckets (s.hash ev.key.ts)).erase ev) := by
    apply ListScheduler.remove_of_mem
    · rw [h.stores.bucketed _ (h.table.hash_lt _)]
      exact h.stores.sorted.of_sublist List.filter_sublist
    · exact (h.stores.bucketed.mem_iff (h.table.hash_lt _)).mpr ⟨hev, rfl⟩
  have hpos : 0 < events.length := List.length_pos_of_mem hev
  have hst := h.stores.bucketed.erase h.stores.sorted ev
  obtain ⟨t, hrun, ht⟩ := resizeDown_spec
    (s := { s with
      buckets := Function.update s.buckets (s.hash ev.key.ts)
        ((s.buckets (s.hash ev.key.ts)).erase ev)
      qSize := s.qSize - 1 }) {
      table := ⟨h.table.pos, h.table.small, h.table.width_pos, h.table.width_small⟩
      stores := ⟨h.stores.sorted.of_sublist List.erase_sublist, hst⟩
      cursor := ⟨h.cursor.lastBucket, h.cursor.bucketTop, h.cursor.early,
        fun e he => h.cursor.past e (List.mem_of_mem_erase he),
        fun e he => h.cursor.future e (List.mem_of_mem_erase he)⟩
      clock := h.clock
      qSize := by rw [List.length_erase_of_mem hev, ← h.qSize] }
  refine ⟨t, ?_, ht⟩
  rw [remove, if_neg (by simp [isEmpty, h.qSize]; rintro rfl; cases hev)]
  dsimp only
  rw [hbucket]
  exact hrun

end CalendarScheduler

/-- Insertions are not before the last removed event and not beyond the signed range of time. -/
def SchedulerCall.OnTime (bits : ℕ) {σ : Type} (r : SchedulerRun σ) : SchedulerCall → Prop
  | insert ev => r.clock ≤ ev.key.ts ∧ ev.key.ts < 2 ^ bits
  | _ => True

instance (bits : ℕ) {σ : Type} (r : SchedulerRun σ) (call : SchedulerCall) :
    Decidable (call.OnTime bits r) :=
  match call with
  | .insert ev => inferInstanceAs (Decidable (r.clock ≤ ev.key.ts ∧ ev.key.ts < 2 ^ bits))
  | .remove _ | .peekNext | .removeNext => .isTrue True.intro

namespace CalendarScheduler

/-- A call that keeps to the rules answers as the sorted list does. -/
theorem apply_spec {s : CalendarScheduler} {events : List SchedulerEvent} {clock : ℕ}
    (h : s.Holds events clock) {call : SchedulerCall} (hl : call.Legal events)
    (hts : ∀ ev, call = .insert ev → clock ≤ ev.key.ts ∧ ev.key.ts < 2 ^ 63) :
    ∃ t, calendarScheduler.apply s call = some (call.answer events, t) ∧
      t.Rebuilt (Resizes s.nBuckets (call.stored events).length call) (call.stored events)
        (SchedulerRun.clockAfter clock events call) := by
  cases call with
  | insert ev =>
    obtain ⟨t, hrun, ht⟩ := insert_spec h hl (hts ev rfl)
    exact ⟨t, congrArg (Option.map (fun s' => (none, s'))) hrun, ht⟩
  | remove ev =>
    obtain ⟨t, hrun, ht⟩ := remove_spec h hl
    exact ⟨t, congrArg (Option.map (fun s' => (none, s'))) hrun, ht⟩
  | peekNext =>
    obtain ⟨front, rest, rfl⟩ := List.exists_cons_of_ne_nil hl
    refine ⟨s, ?_, h.rebuilt id⟩
    show (s.peekNext.map _).map _ = _
    rw [peekNext_spec h.table h.stores h.cursor h.qSize]
    rfl
  | removeNext =>
    obtain ⟨front, rest, rfl⟩ := List.exists_cons_of_ne_nil hl
    obtain ⟨t, hrun, ht⟩ := removeNext_spec h
    exact ⟨t, congrArg
      (Option.map (fun r : SchedulerEvent × CalendarScheduler => (some r.1, r.2))) hrun, ht⟩

/-- The table stores exactly these events, each in its bucket, and counts them. -/
structure Consistent (s : CalendarScheduler) (events : List SchedulerEvent) : Prop where
  hashed : ∀ i < s.nBuckets, ∀ e, e ∈ s.buckets i ↔ e ∈ events ∧ s.hash e.key.ts = i
  contents : ((List.range s.nBuckets).flatMap s.buckets).Perm events
  qSize : s.qSize = events.length

theorem Holds.consistent {s : CalendarScheduler} {events : List SchedulerEvent} {clock : ℕ}
    (h : s.Holds events clock) : s.Consistent events where
  hashed _ hi _ := h.stores.bucketed.mem_iff hi
  contents := h.stores.bucketed.perm h.stores.sorted (fun e _ => h.table.hash_lt e.key.ts)
  qSize := h.qSize

def NoZeroWidth (r : SchedulerRun CalendarScheduler) : Prop :=
  ∀ s, r.scheduler = some s → s.width ≠ 0

instance : DecidablePred NoZeroWidth := fun r =>
  match h : r.scheduler with
  | none => .isTrue (by simp [NoZeroWidth, h])
  | some s => decidable_of_iff (s.width ≠ 0) (by simp [NoZeroWidth, h])

/-- The run agrees with the sorted list, and its table is consistent. -/
def Refines (r : SchedulerRun CalendarScheduler) : Prop :=
  r.Agrees ∧ ∃ s, r.scheduler = some s ∧ s.Consistent r.events

theorem empty_holds : empty.Holds [] 0 where
  table := ⟨by decide, by decide, by decide, by decide⟩
  stores := ⟨ListScheduler.sorted_nil, Bucketed.nil _ _⟩
  cursor := ⟨rfl, rfl, by decide, fun e he => absurd he List.not_mem_nil,
    fun e he => absurd he List.not_mem_nil⟩
  clock := rfl
  qSize := rfl

/-- The calendar answers as the sorted list does, as long as no width is zero. -/
theorem refines {calls : List SchedulerCall}
    (hok : Allowed (SchedulerRun.step calendarScheduler) (fun r call => call.OnTime 63 r)
      (SchedulerRun.start calendarScheduler) calls)
    (hwidth : Always (SchedulerRun.step calendarScheduler) NoZeroWidth
      (SchedulerRun.start calendarScheduler) calls) :
    Always (SchedulerRun.step calendarScheduler) Refines (SchedulerRun.start calendarScheduler)
      calls := by
  let Inv : SchedulerRun CalendarScheduler → Prop := fun r =>
    r.Agrees ∧ ∃ s, r.scheduler = some s ∧ s.Holds r.events r.clock
  have hinv : Always (SchedulerRun.step calendarScheduler) Inv
      (SchedulerRun.start calendarScheduler) calls := by
    refine Always.of_allowed ?_ ?_ hok hwidth
    · rintro r call r' ⟨-, s, hs, h⟩ hts hstep hne
      obtain ⟨hl, rfl⟩ := SchedulerRun.step_cases h.stores.sorted hstep
      obtain ⟨t, hrun, ht⟩ := apply_spec h hl (by rintro ev rfl; exact hts)
      have hbind : r.scheduler.bind (fun s => calendarScheduler.apply s call) =
          some (call.answer r.events, t) := by rw [hs]; exact hrun
      rw [hbind] at hne ⊢
      refine ⟨⟨rfl, rfl, ?_⟩, t, rfl, ht.holds (hne t rfl)⟩
      intro ev hev
      exact SchedulerCall.answer_least h.stores.sorted call hev
    · exact ⟨⟨rfl, rfl, by rintro ev ⟨⟩⟩, empty, rfl, empty_holds⟩
  refine hinv.mono ?_
  rintro r ⟨hagrees, s, hs, h⟩
  exact ⟨hagrees, s, hs, h.consistent⟩

/-- Six insertions, which double the buckets, and the first event. -/
theorem refines_six :
    let calls := [4, 9, 2, 30, 7, 7].zipIdx.map
      (fun p => SchedulerCall.insert ⟨p.2, ⟨p.1, p.2, 0⟩⟩) ++ [.peekNext, .removeNext]
    Always (SchedulerRun.step calendarScheduler) Refines (SchedulerRun.start calendarScheduler)
      calls :=
  refines (by decide +kernel) (by decide +kernel)

end CalendarScheduler

end Ns3Noc
