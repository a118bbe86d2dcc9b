import Mathlib
import Ns3Noc.EventBuckets

/-!
# Ns2CalendarScheduler

Each bucket is a circular list, kept here from the item `list_` points at, with its `prev_` as the
last element. `head()` moves `lastbucket_` and `cal_clock_` to the event it finds. Time differences
and the three limits of a year wrap at 64 bits. The one floating point value, the width
`sqrt (bwidth) * width_`, is a parameter.
-/
namespace Ns3Noc

structure Ns2CalendarScheduler where
  timeToNewwidth : ℕ
  headSearch : ℕ
  insertSearch : ℕ
  roundNum : ℕ
  gapNum : ℕ
  lastTime : ℕ
  avgGap : ℤ
  width : ℕ
  diff0 : ℕ
  diff1 : ℕ
  diff2 : ℕ
  statQsize : ℤ
  nbuckets : ℕ
  lastbucket : ℕ
  topThreshold : ℤ
  botThreshold : ℤ
  qsize : ℕ
  buckets : ℕ → List SchedulerEvent
  counts : ℕ → ℤ
  calClock : EventKey

/-- One or more `CAL_DEQUEUE`: an event within the year with its bucket, or the next bucket to
look at with the least event seen and its bucket. -/
inductive CalDequeue where
  | found (e : SchedulerEvent) (l headSearch : ℕ)
  | next (i : ℕ) (minE : Option (SchedulerEvent × ℕ)) (headSearch : ℕ)

namespace Ns2CalendarScheduler

def minBinWidth : ℕ := 1

def adjustNewWidthInterval : ℕ := 10

/-- `CALENDAR_HASH` -/
def hash (s : Ns2CalendarScheduler) (ts : ℕ) : ℕ := ts / s.width % s.nbuckets

def reinit (s : Ns2CalendarScheduler) (nbuck bwidth : ℕ) (start : EventKey) :
    Ns2CalendarScheduler :=
  { s with
    buckets := fun _ => []
    counts := fun _ => 0
    width := bwidth
    nbuckets := nbuck
    qsize := 0
    statQsize := 0
    lastbucket := start.ts / bwidth % nbuck
    diff0 := bwidth * nbuck % 2 ^ 64 / 2
    diff1 := (bwidth * nbuck % 2 ^ 64 / 2 + bwidth) % 2 ^ 64
    diff2 := bwidth * nbuck % 2 ^ 64
    botThreshold := (nbuck / 2 : ℕ) - 2
    topThreshold := (nbuck * 2 : ℕ) }

/-- The constructor. -/
def empty : Ns2CalendarScheduler :=
  reinit
    { timeToNewwidth := adjustNewWidthInterval, headSearch := 0, insertSearch := 0, roundNum := 0
      gapNum := 0, lastTime := 0, avgGap := -2, width := 0, diff0 := 0, diff1 := 0, diff2 := 0
      statQsize := 0, nbuckets := 0, lastbucket := 0, topThreshold := 0, botThreshold := 0
      qsize := 0, buckets := fun _ => [], counts := fun _ => 0, calClock := ⟨0, 0, 0⟩ }
    4 1 ⟨0, 0, 0⟩

def isEmpty (s : Ns2CalendarScheduler) : Bool := s.qsize = 0

/-- The bucket after `Insert`, the searches it took and whether the key is new there. From the
tail back, the loop passes the events later than `e`. -/
def insertBucket (e : SchedulerEvent) : List SchedulerEvent → List SchedulerEvent × ℕ × Bool
  | [] => ([e], 0, true)
  | head :: rest =>
    if e.key.less head.key then (e :: head :: rest, 1, true)
    else
      let after := (head :: rest).rdropWhile (fun x => e.key.less x.key)
      let later := (head :: rest).rtakeWhile (fun x => e.key.less x.key)
      (after ++ e :: later, 1 + later.length,
        after.getLast?.any (fun x => x.key.less e.key))

/-- The bucket after `insert2` and whether the key differs from that of the next item. -/
def insert2Bucket (e : SchedulerEvent) : List SchedulerEvent → List SchedulerEvent × Bool
  | [] => ([e], true)
  | head :: rest =>
    let bucket := head :: rest
    let earlier :=
      if (bucket.getLast (List.cons_ne_nil head rest)).key.less e.key then bucket
      else bucket.takeWhile (fun x => x.key.less e.key)
    let later := bucket.drop earlier.length
    (earlier ++ e :: later, (later ++ earlier).head?.any (fun x => x.key.uid ≠ e.key.uid))

def insert2 (s : Ns2CalendarScheduler) (e : SchedulerEvent) : Ns2CalendarScheduler :=
  let i := s.hash e.key.ts
  let (bucket, unique) := insert2Bucket e (s.buckets i)
  { s with
    buckets := Function.update s.buckets i bucket
    statQsize := if unique then s.statQsize + 1 else s.statQsize
    counts := if unique then Function.update s.counts i (s.counts i + 1) else s.counts
    qsize := s.qsize + 1 }

/-- The index of the fullest bucket. -/
def maxBucket (s : Ns2CalendarScheduler) : ℕ :=
  (List.range' 1 (s.nbuckets - 1)).foldl
    (fun maxBucket i => if s.counts i > s.counts maxBucket then i else maxBucket) 0

def newwidth (s : Ns2CalendarScheduler) (newsize : ℕ) : Option (ℕ × Ns2CalendarScheduler) :=
  let s := { s with timeToNewwidth := adjustNewWidthInterval }
  if s.avgGap > 0 then some ((s.avgGap * 4 % 2 ^ 64).toNat, s)
  else
    let nsamples := s.counts s.maxBucket
    if nsamples ≤ 4 then some (s.width, s)
    else
      match (s.buckets s.maxBucket).head?, (s.buckets s.maxBucket).getLast? with
      | some head, some tail =>
        let nw := (tail.key.ts + 2 ^ 64 - head.key.ts) % 2 ^ 64 * 4 % 2 ^ 64
        some (max (nw / min newsize nsamples.toNat) minBinWidth, s)
      | _, _ => none

/-- The new table with all events. Each old bucket is read from its tail. -/
def rebuild (s : Ns2CalendarScheduler) (newsize bwidth : ℕ) (start : EventKey) :
    Ns2CalendarScheduler :=
  let t := ((List.range s.nbuckets).flatMap (fun i => (s.buckets i).reverse)).foldl insert2
    (s.reinit newsize bwidth start)
  { t with headSearch := 0, insertSearch := 0, roundNum := 0 }

variable (sqrtWidth : ℕ → ℕ → ℕ)

def resize (s : Ns2CalendarScheduler) (newsize : ℕ) (start : EventKey) :
    Option Ns2CalendarScheduler :=
  if newsize = s.nbuckets then
    let bwidth := if s.headSearch ≠ 0 then s.headSearch else 1
    let bwidth := if s.insertSearch ≠ 0 then bwidth / s.insertSearch else bwidth
    let bwidth := sqrtWidth bwidth s.width % 2 ^ 64
    if bwidth < minBinWidth then
      if s.timeToNewwidth > 0 then
        some { s with
          timeToNewwidth := s.timeToNewwidth - 1
          headSearch := 0
          insertSearch := 0
          roundNum := 0 }
      else do
        let (bwidth, s) ← s.newwidth newsize
        some (s.rebuild newsize bwidth start)
    else some (s.rebuild newsize bwidth start)
  else do
    let (bwidth, s) ← s.newwidth newsize
    some (s.rebuild (max newsize 4) bwidth start)

def insert (s : Ns2CalendarScheduler) (e : SchedulerEvent) : Option Ns2CalendarScheduler :=
  let i := s.hash e.key.ts
  let (bucket, searches, unique) := insertBucket e (s.buckets i)
  let s := { s with
    buckets := Function.update s.buckets i bucket
    insertSearch := s.insertSearch + searches
    statQsize := if unique then s.statQsize + 1 else s.statQsize
    counts := if unique then Function.update s.counts i (s.counts i + 1) else s.counts
    qsize := s.qsize + 1 }
  if s.statQsize > s.topThreshold then resize sqrtWidth s (s.nbuckets * 2) s.calClock
  else some s

/-- `CAL_DEQUEUE`, with one of the three limits. -/
def calDequeue (s : Ns2CalendarScheduler) (limit i : ℕ) (minE : Option (SchedulerEvent × ℕ))
    (headSearch : ℕ) : CalDequeue :=
  let next := if i + 1 = s.nbuckets then 0 else i + 1
  match s.buckets i with
  | [] => .next next minE (headSearch + 1)
  | e :: _ =>
    if (e.key.ts + 2 ^ 64 - s.calClock.ts) % 2 ^ 64 < limit then .found e i (headSearch + 1)
    else
      match minE with
      | none => .next next (some (e, i)) (headSearch + 1)
      | some (m, l) =>
        .next next (if e.key.less m.key then some (e, i) else some (m, l)) (headSearch + 1)

/-- The loop up to the bucket before the one the search started from. -/
def calDequeueTo (s : Ns2CalendarScheduler) (last : ℕ) :
    ℕ → ℕ → Option (SchedulerEvent × ℕ) → ℕ → Option CalDequeue
  | 0, _, _, _ => none
  | fuel + 1, i, minE, headSearch =>
    if i = last then some (.next i minE headSearch)
    else
      match s.calDequeue s.diff2 i minE headSearch with
      | .found e l headSearch => some (.found e l headSearch)
      | .next i minE headSearch => s.calDequeueTo last fuel i minE headSearch

/-- One last bucket is left unchecked: the minimum of its first event and the least one seen. -/
def takeMinimum (minE : Option (SchedulerEvent × ℕ)) (i : ℕ) :
    List SchedulerEvent → Option (SchedulerEvent × ℕ)
  | [] => minE
  | e :: _ =>
    match minE with
    | none => some (e, i)
    | some (m, l) => if m.key.less e.key then some (m, l) else some (e, i)

/-- The search of `head`, with the bucket of the event and the number of buckets looked at. -/
def findHead (s : Ns2CalendarScheduler) : Option (SchedulerEvent × ℕ × ℕ) :=
  let last := if s.lastbucket = 0 then s.nbuckets - 1 else s.lastbucket - 1
  match s.calDequeue s.diff0 s.lastbucket none s.headSearch with
  | .found e l headSearch => some (e, l, headSearch)
  | .next i minE headSearch =>
    match s.calDequeue s.diff1 i minE headSearch with
    | .found e l headSearch => some (e, l, headSearch)
    | .next i minE headSearch =>
      match s.calDequeueTo last s.nbuckets i minE headSearch with
      | none => none
      | some (.found e l headSearch) => some (e, l, headSearch)
      | some (.next i minE headSearch) =>
        (takeMinimum minE i (s.buckets i)).map (fun r => (r.1, r.2, headSearch))

def head (s : Ns2CalendarScheduler) : Option (SchedulerEvent × Ns2CalendarScheduler) :=
  if s.isEmpty then none
  else
    match s.findHead with
    | none => none
    | some (e, l, headSearch) =>
      some (e, { s with lastbucket := l, calClock := e.key, headSearch := headSearch })

/-- The window over the gaps between removed events. At its end the width may be adjusted. -/
def updateGap (s : Ns2CalendarScheduler) (e : SchedulerEvent) : Option Ns2CalendarScheduler :=
  if s.lastTime = 0 then some { s with lastTime := e.key.ts }
  else
    let s := { s with gapNum := s.gapNum + 1 }
    if s.gapNum ≥ s.qsize then
      let ttGap := (e.key.ts + 2 ^ 64 - s.lastTime) % 2 ^ 64
      let s := { s with
        avgGap := Int.bmod (ttGap / s.gapNum : ℕ) (2 ^ 64)
        gapNum := 0
        lastTime := e.key.ts
        roundNum := s.roundNum + 1 }
      if s.roundNum > 20 ∧
          (s.headSearch > s.insertSearch * 2 ∨ s.insertSearch > s.headSearch * 2) then do
        let s ← resize sqrtWidth s s.nbuckets s.calClock
        some { s with roundNum := 0 }
      else if s.roundNum > 100 then
        some { s with roundNum := 0, headSearch := 0, insertSearch := 0 }
      else some s
    else some s

/-- The item is taken out of its circular list, and `list_` points at the item after it. -/
def unlink (s : Ns2CalendarScheduler) (e : SchedulerEvent) : Ns2CalendarScheduler :=
  let l := s.lastbucket
  let others := ((s.buckets l).dropWhile (· ≠ e)).tail ++ (s.buckets l).takeWhile (· ≠ e)
  let unique := others.head?.all (fun x => x.key.uid ≠ e.key.uid)
  { s with
    statQsize := if unique then s.statQsize - 1 else s.statQsize
    counts := if unique then Function.update s.counts l (s.counts l - 1) else s.counts
    qsize := s.qsize - 1
    buckets := Function.update s.buckets l others }

def removeNext (s : Ns2CalendarScheduler) : Option (SchedulerEvent × Ns2CalendarScheduler) :=
  if s.isEmpty then none
  else do
    let (e, s) ← s.head
    let s ← updateGap sqrtWidth s e
    let s := s.unlink e
    let s ← if s.statQsize < s.botThreshold then resize sqrtWidth s (s.nbuckets / 2) s.calClock
      else some s
    some (e, s)

/-- The loop from the tail does not end where the event is not stored. -/
def remove (s : Ns2CalendarScheduler) (ev : SchedulerEvent) : Option Ns2CalendarScheduler :=
  if s.isEmpty then none
  else
    let i := s.hash ev.key.ts
    if s.buckets i = [] then some s
    else if (s.buckets i).any (fun x => x.key.uid = ev.key.uid) then
      let bucket := ((s.buckets i).reverse.eraseP (fun x => x.key.uid = ev.key.uid)).reverse
      if s.counts i - 1 = 0 ∧ bucket ≠ [] then none
      else some { s with
        statQsize := s.statQsize - 1
        counts := Function.update s.counts i (s.counts i - 1)
        buckets := Function.update s.buckets i bucket
        qsize := s.qsize - 1 }
    else none

end Ns2CalendarScheduler

def ns2CalendarScheduler (sqrtWidth : ℕ → ℕ → ℕ) : Scheduler Ns2CalendarScheduler where
  empty := Ns2CalendarScheduler.empty
  insert := Ns2CalendarScheduler.insert sqrtWidth
  isEmpty := Ns2CalendarScheduler.isEmpty
  peekNext := Ns2CalendarScheduler.head
  removeNext := Ns2CalendarScheduler.removeNext sqrtWidth
  remove := Ns2CalendarScheduler.remove

namespace Ns2CalendarScheduler
variable {e : SchedulerEvent} {bucket : List SchedulerEvent}

theorem insert_eq_takeWhile (e : SchedulerEvent) (bucket : List SchedulerEvent) :
    ListScheduler.insert e bucket = bucket.takeWhile (fun x => !e.key.less x.key) ++
      e :: bucket.dropWhile (fun x => !e.key.less x.key) := by
  induction bucket with
  | nil => rfl
  | cons x bucket ih =>
    rw [ListScheduler.insert]
    cases h : e.key.less x.key with
    | true => simp [h]
    | false => simp [h, ih]

/-- On a list along which `p` comes to hold, the scan from the tail stops where the scan from the
head does. -/
theorem rdropWhile_eq_takeWhile {p : SchedulerEvent → Bool}
    (h : bucket.Pairwise (fun a b => p a → p b)) :
    bucket.rdropWhile p = bucket.takeWhile (fun x => !p x) := by
  induction bucket using List.reverseRecOn with
  | nil => simp
  | append_singleton bucket a ih =>
    rw [List.pairwise_append] at h
    by_cases ha : p a
    · rw [List.rdropWhile_concat_pos p bucket a ha, ih h.1, List.takeWhile_append]
      split
      · rename_i hlen
        have hall := (List.takeWhile_prefix (fun x => !p x)).eq_of_length hlen
        simp [ha, hall]
      · rfl
    · have hall : ∀ x ∈ bucket ++ [a], (!p x) = true := by
        intro x hx
        rcases List.mem_append.mp hx with hx | hx
        · simpa using fun hpx => ha (h.2.2 x hx a List.mem_cons_self hpx)
        · simpa [List.mem_singleton.mp hx] using ha
      rw [List.rdropWhile_concat_neg p bucket a ha, List.takeWhile_eq_self_iff.mpr hall]

theorem rtakeWhile_eq_dropWhile {p : SchedulerEvent → Bool}
    (h : bucket.Pairwise (fun a b => p a → p b)) :
    bucket.rtakeWhile p = bucket.dropWhile (fun x => !p x) := by
  have heq : bucket.rdropWhile p ++ bucket.rtakeWhile p =
      bucket.takeWhile (fun x => !p x) ++ bucket.dropWhile (fun x => !p x) := by
    rw [List.rdropWhile_append_rtakeWhile, List.takeWhile_append_dropWhile]
  rw [rdropWhile_eq_takeWhile h] at heq
  exact List.append_cancel_left heq

/-- Keys with different uids are in exactly one order. -/
theorem less_eq_not_less {x : SchedulerEvent} (huid : x.key.uid ≠ e.key.uid) :
    e.key.less x.key = !x.key.less e.key := by
  cases h : x.key.less e.key with
  | true => exact EventKey.less_eq_false_iff.mpr (EventKey.less_iff.mp h).le
  | false =>
    have hne : e.rank ≠ x.rank := fun heq => huid (EventKey.rank_eq_iff.mp heq).2.symm
    exact EventKey.less_iff.mpr (lt_of_le_of_ne (EventKey.less_eq_false_iff.mp h) hne)

theorem insert_eq_takeWhile_less (hnew : ∀ x ∈ bucket, x.key.uid ≠ e.key.uid) :
    ListScheduler.insert e bucket = bucket.takeWhile (fun x => x.key.less e.key) ++
      e :: bucket.dropWhile (fun x => x.key.less e.key) := by
  induction bucket with
  | nil => rfl
  | cons x bucket ih =>
    rw [List.forall_mem_cons] at hnew
    rw [ListScheduler.insert, less_eq_not_less hnew.1]
    cases h : x.key.less e.key with
    | true => simp [h, ih hnew.2]
    | false => simp [h]

/-- On a sorted bucket, an event with a new uid goes to its place and is counted. -/
theorem insertBucket_spec (hs : ListScheduler.Sorted bucket)
    (hnew : ∀ x ∈ bucket, x.key.uid ≠ e.key.uid) :
    ∃ searches, insertBucket e bucket = (ListScheduler.insert e bucket, searches, true) := by
  cases bucket with
  | nil => exact ⟨0, rfl⟩
  | cons head rest =>
    rw [insertBucket]
    split
    · rename_i hless
      exact ⟨1, by rw [ListScheduler.insert, if_pos hless]⟩
    · rename_i hless
      have hlater : (head :: rest).Pairwise (fun a b => e.key.less a.key → e.key.less b.key) :=
        hs.increasing.imp (fun hab ha => EventKey.less_iff.mpr ((EventKey.less_iff.mp ha).trans hab))
      -- the item the loop stops at is earlier
      have hunique : ((head :: rest).takeWhile (fun x => !e.key.less x.key)).getLast?.any
          (fun x => x.key.less e.key) = true := by
        have hne : (head :: rest).takeWhile (fun x => !e.key.less x.key) ≠ [] := by
          rw [List.takeWhile_cons_of_pos (by simpa using hless)]
          exact List.cons_ne_nil _ _
        have hmem := List.getLast_mem hne
        have hxe := List.mem_takeWhile_imp hmem
        rw [less_eq_not_less (hnew _ ((List.takeWhile_prefix _).subset hmem)), Bool.not_not] at hxe
        rw [List.getLast?_eq_some_getLast hne]
        exact hxe
      rw [rdropWhile_eq_takeWhile hlater, rtakeWhile_eq_dropWhile hlater,
        insert_eq_takeWhile e (head :: rest)]
      dsimp only
      rw [hunique]
      exact ⟨_, rfl⟩

theorem insert2Bucket_spec (hs : ListScheduler.Sorted bucket)
    (hnew : ∀ x ∈ bucket, x.key.uid ≠ e.key.uid) :
    insert2Bucket e bucket = (ListScheduler.insert e bucket, true) := by
  cases bucket with
  | nil => rfl
  | cons head rest =>
    -- after a tail that is earlier, all items are
    have hearlier : (if ((head :: rest).getLast (List.cons_ne_nil head rest)).key.less e.key then
        head :: rest else (head :: rest).takeWhile (fun x => x.key.less e.key)) =
          (head :: rest).takeWhile (fun x => x.key.less e.key) := by
      split
      · rename_i htail
        refine (List.takeWhile_eq_self_iff.mpr (fun x hx => ?_)).symm
        have hle : x.rank ≤ ((head :: rest).getLast (List.cons_ne_nil head rest)).rank := by
          have hinc := hs.increasing
          rw [← List.dropLast_append_getLast (List.cons_ne_nil head rest)] at hx hinc
          rcases List.mem_append.mp hx with hx | hx
          · exact ((List.pairwise_append.mp hinc).2.2 x hx _ List.mem_cons_self).le
          · exact (congrArg SchedulerEvent.rank (List.mem_singleton.mp hx)).le
        exact EventKey.less_iff.mpr (hle.trans_lt (EventKey.less_iff.mp htail))
      · rfl
    have hsplit := List.takeWhile_append_dropWhile (p := fun x => x.key.less e.key)
      (l := head :: rest)
    rw [insert2Bucket, hearlier, insert_eq_takeWhile_less hnew]
    generalize (head :: rest).takeWhile (fun x => x.key.less e.key) = earlier at *
    generalize (head :: rest).dropWhile (fun x => x.key.less e.key) = later at *
    have hlater : (head :: rest).drop earlier.length = later := by rw [← hsplit, List.drop_left]
    -- the next item is one of the bucket
    have hunique : (later ++ earlier).head?.any (fun x => x.key.uid ≠ e.key.uid) = true := by
      have hperm : (later ++ earlier).Perm (head :: rest) :=
        hsplit ▸ List.perm_append_comm
      cases hnext : later ++ earlier with
      | nil => exact absurd (hnext ▸ hperm).length_eq (by simp)
      | cons x tail =>
        have hx : x ∈ head :: rest := hperm.subset (hnext ▸ List.mem_cons_self)
        exact decide_eq_true (hnew x hx)
    rw [hlater, hunique]

/-- The limits of `reinit`. -/
structure Table (s : Ns2CalendarScheduler) : Prop where
  four : 4 ≤ s.nbuckets
  width_pos : 0 < s.width
  diff0 : s.diff0 = s.width * s.nbuckets % 2 ^ 64 / 2
  diff1 : s.diff1 = (s.width * s.nbuckets % 2 ^ 64 / 2 + s.width) % 2 ^ 64
  diff2 : s.diff2 = s.width * s.nbuckets % 2 ^ 64

/-- Every event is in the bucket of its time stamp, and each bucket is sorted and counted. -/
structure Stores (s : Ns2CalendarScheduler) (events : List SchedulerEvent) : Prop where
  sorted : ListScheduler.Sorted events
  bucketed : Bucketed (fun e => s.hash e.key.ts) s.nbuckets s.buckets events
  counts : ∀ i < s.nbuckets, s.counts i = (s.buckets i).length

/-- The search starts with the bucket of `cal_clock_`, and no stored event is before it. -/
structure Cursor (s : Ns2CalendarScheduler) (events : List SchedulerEvent) : Prop where
  lastbucket : s.lastbucket = s.hash s.calClock.ts
  early : s.calClock.ts < 2 ^ 62
  past : ∀ e ∈ events, s.calClock.ts ≤ e.key.ts
  future : ∀ e ∈ events, e.key.ts < 2 ^ 62

variable {s : Ns2CalendarScheduler} {events rest : List SchedulerEvent} {front : SchedulerEvent}

theorem Table.hash_lt (h : s.Table) (ts : ℕ) : s.hash ts < s.nbuckets :=
  Nat.mod_lt _ (by have := h.four; omega)

/-- The search before its round `d`: no event is of a year that was passed, and no event of a
bucket that was passed precedes the least event seen. -/
structure Round (s : Ns2CalendarScheduler) (events : List SchedulerEvent) (d i : ℕ)
    (minE : Option (SchedulerEvent × ℕ)) : Prop where
  bucket : i = (year s.width s.calClock.ts + d) % s.nbuckets
  later : ∀ e ∈ events, year s.width s.calClock.ts + d ≤ year s.width e.key.ts
  least : ∀ e ∈ events, ∀ j < d,
    s.hash e.key.ts = (year s.width s.calClock.ts + j) % s.nbuckets →
      ∃ m l, minE = some (m, l) ∧ m.rank ≤ e.rank
  stored : ∀ m l, minE = some (m, l) → m ∈ events ∧ l = s.hash m.key.ts

theorem Cursor.round (h : s.Cursor events) : s.Round events 0 s.lastbucket none where
  bucket := h.lastbucket
  later e he := Nat.div_le_div_right (h.past e he)
  least _ _ j hj := absurd hj (Nat.not_lt_zero j)
  stored m l hm := by cases hm

variable {d i limit : ℕ} {minE : Option (SchedulerEvent × ℕ)}

/-- A limit tells the year of round `d` from the later years of its bucket. -/
def Limit (s : Ns2CalendarScheduler) (d limit : ℕ) : Prop :=
  (d + 1) * s.width ≤ limit ∧ limit ≤ (d + s.nbuckets - 1) * s.width

theorem Round.next_bucket (h : s.Round events d i minE) (ht : s.Table) :
    (if i + 1 = s.nbuckets then 0 else i + 1) =
      (year s.width s.calClock.ts + (d + 1)) % s.nbuckets := by
  have hi : i < s.nbuckets := h.bucket ▸ Nat.mod_lt _ (by have := ht.four; omega)
  rw [← Nat.add_assoc, ← Nat.mod_add_mod, ← h.bucket]
  split
  · rename_i heq
    rw [heq, Nat.mod_self]
  · rw [Nat.mod_eq_of_lt (by omega)]

/-- A round that finds nothing of its year. -/
theorem Round.pass (h : s.Round events d i minE) (ht : s.Table)
    {minE' : Option (SchedulerEvent × ℕ)}
    (hyear : ∀ e ∈ events, s.hash e.key.ts = i →
      year s.width e.key.ts ≠ year s.width s.calClock.ts + d)
    (hseen : ∀ e ∈ events, s.hash e.key.ts = i → ∃ m l, minE' = some (m, l) ∧ m.rank ≤ e.rank)
    (hkeep : ∀ m l, minE = some (m, l) → ∃ m' l', minE' = some (m', l') ∧ m'.rank ≤ m.rank)
    (hstored : ∀ m l, minE' = some (m, l) → m ∈ events ∧ l = s.hash m.key.ts) :
    s.Round events (d + 1) (if i + 1 = s.nbuckets then 0 else i + 1) minE' where
  bucket := h.next_bucket ht
  later := later_of_pass (n := s.nbuckets) h.later
    (fun e he hhash => hyear e he (hhash.trans h.bucket.symm))
  least e he j hj hhash := by
    rcases Nat.lt_succ_iff_lt_or_eq.mp hj with hj | rfl
    · obtain ⟨m, l, hm, hle⟩ := h.least e he j hj hhash
      obtain ⟨m', l', hm', hle'⟩ := hkeep m l hm
      exact ⟨m', l', hm', hle'.trans hle⟩
    · exact hseen e he (hhash.trans h.bucket.symm)
  stored := hstored

/-- One `CAL_DEQUEUE` finds the first event or passes its bucket. -/
theorem Round.calDequeue_spec (h : s.Round (front :: rest) d i minE) (ht : s.Table)
    (hst : s.Stores (front :: rest)) (hc : s.Cursor (front :: rest)) (hl : s.Limit d limit)
    (k : ℕ) :
    s.calDequeue limit i minE k = .found front (s.hash front.key.ts) (k + 1) ∨
      ∃ i' minE', s.calDequeue limit i minE k = .next i' minE' (k + 1) ∧
        s.Round (front :: rest) (d + 1) i' minE' := by
  have hn : 0 < s.nbuckets := by have := ht.four; omega
  have hi : i < s.nbuckets := h.bucket ▸ Nat.mod_lt _ hn
  rw [calDequeue]
  cases hb : s.buckets i with
  | nil =>
    have hno := hst.bucketed.empty hi hb
    exact Or.inr ⟨_, _, rfl, h.pass ht (fun e he heq => absurd heq (hno e he))
      (fun e he heq => absurd heq (hno e he)) (fun m l hm => ⟨m, l, hm, le_rfl⟩) h.stored⟩
  | cons e tail =>
    obtain ⟨hmem, hhash, hfirst⟩ := hst.bucketed.front hst.sorted hi hb
    have hpast := hc.past e hmem
    have hdiff : (e.key.ts + 2 ^ 64 - s.calClock.ts) % 2 ^ 64 = e.key.ts - s.calClock.ts := by
      have := hc.future e hmem
      omega
    have hwindow := window_iff ht.width_pos hn (hhash.trans h.bucket) (h.later e hmem) hl.1 hl.2
    dsimp only
    rw [hdiff]
    split
    · rename_i hlt
      obtain ⟨-, hleast⟩ := Bucketed.first_of_year hst.bucketed hst.sorted hn h.later
        (h.bucket ▸ hb) (hwindow.mp hlt)
      obtain rfl := hst.sorted.front_eq hmem hleast
      exact Or.inl (by rw [← hhash])
    · rename_i hlt
      have hyear : ∀ x ∈ front :: rest, s.hash x.key.ts = i →
          year s.width x.key.ts ≠ year s.width s.calClock.ts + d := by
        intro x hx heq hxy
        have hle := year_mono s.width (hfirst x hx heq)
        exact hlt (hwindow.mpr (le_antisymm (hxy ▸ hle) (h.later e hmem)))
      cases minE with
      | none =>
        refine Or.inr ⟨_, _, rfl, h.pass ht hyear (fun x hx heq => ⟨e, i, rfl, hfirst x hx heq⟩)
          (fun m l hm => by cases hm) ?_⟩
        rintro m l ⟨⟩
        exact ⟨hmem, hhash.symm⟩
      | some min =>
        obtain ⟨m, l⟩ := min
        obtain ⟨hm, hml⟩ := h.stored m l rfl
        dsimp only
        by_cases hless : e.key.less m.key = true
        · rw [if_pos hless]
          refine Or.inr ⟨_, _, rfl, h.pass ht hyear (fun x hx heq => ⟨e, i, rfl, hfirst x hx heq⟩)
            ?_ ?_⟩
          · rintro m l ⟨⟩
            exact ⟨e, i, rfl, (EventKey.less_iff.mp hless).le⟩
          · rintro m l ⟨⟩
            exact ⟨hmem, hhash.symm⟩
        · have hle : m.rank ≤ e.rank :=
            EventKey.less_eq_false_iff.mp (Bool.eq_false_iff.mpr hless)
          rw [if_neg hless]
          exact Or.inr ⟨_, _, rfl, h.pass ht hyear
            (fun x hx heq => ⟨m, l, rfl, hle.trans (hfirst x hx heq)⟩)
            (fun m l hm => ⟨m, l, hm, le_rfl⟩) h.stored⟩

/-- The limits are right as long as a year of all buckets fits in 64 bits. -/
theorem Table.limits (h : s.Table) (hsmall : s.width * s.nbuckets < 2 ^ 64) :
    s.Limit 0 s.diff0 ∧ s.Limit 1 s.diff1 ∧
      ∀ d, 2 ≤ d → d + 1 < s.nbuckets → s.Limit d s.diff2 := by
  have hw := h.width_pos
  have hn := h.four
  have hmul : s.width * 4 ≤ s.width * s.nbuckets := Nat.mul_le_mul_left s.width hn
  have hmod := Nat.mod_eq_of_lt hsmall
  have hmul1 : (1 + s.nbuckets - 1) * s.width = s.width * s.nbuckets := by
    rw [Nat.add_sub_cancel_left, Nat.mul_comm]
  have hmul0 : (0 + s.nbuckets - 1) * s.width = s.width * s.nbuckets - s.width := by
    rw [Nat.zero_add, Nat.sub_mul, Nat.one_mul, Nat.mul_comm]
  refine ⟨⟨?_, ?_⟩, ⟨?_, ?_⟩, fun d h2 hd => ⟨?_, ?_⟩⟩
  · rw [h.diff0, hmod]
    omega
  · rw [h.diff0, hmod, hmul0]
    omega
  · rw [h.diff1, hmod]
    omega
  · rw [h.diff1, hmod, hmul1]
    omega
  · rw [h.diff2, hmod, Nat.mul_comm s.width]
    exact Nat.mul_le_mul_right s.width hd.le
  · rw [h.diff2, hmod, Nat.mul_comm s.width]
    exact Nat.mul_le_mul_right s.width (by omega)

theorem Round.calDequeueTo_spec (h : s.Round (front :: rest) d i minE) (fuel : ℕ) (ht : s.Table)
    (hst : s.Stores (front :: rest)) (hc : s.Cursor (front :: rest))
    (hl : ∀ d, 2 ≤ d → d + 1 < s.nbuckets → s.Limit d s.diff2) {last : ℕ}
    (hlast : last = (year s.width s.calClock.ts + (s.nbuckets - 1)) % s.nbuckets)
    (hd : 2 ≤ d) (hdn : d < s.nbuckets) (hfuel : s.nbuckets ≤ fuel + d) (k : ℕ) :
    ∃ k', s.calDequeueTo last fuel i minE k = some (.found front (s.hash front.key.ts) k') ∨
      ∃ minE', s.calDequeueTo last fuel i minE k = some (.next last minE' k') ∧
        s.Round (front :: rest) (s.nbuckets - 1) last minE' := by
  induction fuel generalizing d i minE k with
  | zero => omega
  | succ fuel ih =>
    rw [calDequeueTo]
    by_cases heq : d + 1 = s.nbuckets
    · obtain rfl : d = s.nbuckets - 1 := by omega
      obtain rfl : i = last := h.bucket.trans hlast.symm
      rw [if_pos rfl]
      exact ⟨k, Or.inr ⟨minE, rfl, h⟩⟩
    · have hne : i ≠ last := by
        rw [h.bucket, hlast]
        intro hmod
        have hround : d ≡ s.nbuckets - 1 [MOD s.nbuckets] := Nat.ModEq.add_left_cancel' _ hmod
        have := Nat.ModEq.eq_of_lt_of_lt hround (by omega) (by omega)
        omega
      rw [if_neg hne]
      rcases h.calDequeue_spec ht hst hc (hl d hd (by omega)) k with hfound | ⟨i', minE', hnext, h'⟩
      · rw [hfound]
        exact ⟨_, Or.inl rfl⟩
      · rw [hnext]
        exact ih h' (by omega) (by omega) (by omega) (k + 1)

/-- Before the last round, what the least event seen does not precede is in the last bucket. -/
theorem Round.last (h : s.Round events (s.nbuckets - 1) i minE) (ht : s.Table)
    (hc : s.Cursor events) {e : SchedulerEvent} (he : e ∈ events) :
    s.hash e.key.ts = i ∨ ∃ m l, minE = some (m, l) ∧ m.rank ≤ e.rank := by
  have hn : 0 < s.nbuckets := by have := ht.four; omega
  obtain ⟨j, hj, hround⟩ := exists_round hn (Nat.div_le_div_right (c := s.width) (hc.past e he))
  by_cases hlast : j = s.nbuckets - 1
  · exact Or.inl (by rw [h.bucket, ← hlast]; exact hround)
  · exact Or.inr (h.least e he j (by omega) hround)

/-- The minimum that is taken last is the first event. -/
theorem Round.takeMinimum_spec (h : s.Round (front :: rest) (s.nbuckets - 1) i minE)
    (ht : s.Table) (hst : s.Stores (front :: rest)) (hc : s.Cursor (front :: rest)) :
    takeMinimum minE i (s.buckets i) = some (front, s.hash front.key.ts) := by
  have hi : i < s.nbuckets := h.bucket ▸ Nat.mod_lt _ (by have := ht.four; omega)
  have hseen (m : SchedulerEvent) (l : ℕ) (hm : minE = some (m, l))
      (hleast : ∀ x ∈ front :: rest, m.rank ≤ x.rank) : minE = some (front, s.hash front.key.ts) := by
    obtain ⟨hmem, hl⟩ := h.stored m l hm
    rw [hm, hl, hst.sorted.front_eq hmem hleast]
  cases hb : s.buckets i with
  | nil =>
    have hno := hst.bucketed.empty hi hb
    obtain ⟨m, l, hm, -⟩ := (h.last ht hc List.mem_cons_self).resolve_left
      (hno front List.mem_cons_self)
    refine hseen m l hm (fun x hx => ?_)
    obtain ⟨m', l', hm', hle⟩ := (h.last ht hc hx).resolve_left (hno x hx)
    obtain ⟨rfl, -⟩ := Prod.mk.inj (Option.some.inj (hm.symm.trans hm'))
    exact hle
  | cons e tail =>
    obtain ⟨hmem, hhash, hfirst⟩ := hst.bucketed.front hst.sorted hi hb
    have hleast (hle : ∀ m l, minE = some (m, l) → e.rank ≤ m.rank) :
        some (e, i) = some (front, s.hash front.key.ts) := by
      have heq : e = front := by
        refine hst.sorted.front_eq hmem (fun x hx => ?_)
        rcases h.last ht hc hx with hx' | ⟨m, l, hm, hmx⟩
        · exact hfirst x hx hx'
        · exact (hle m l hm).trans hmx
      rw [← heq, ← hhash]
    cases hmin : minE with
    | none =>
      exact hleast (fun m l hm => by rw [hmin] at hm; cases hm)
    | some min =>
      obtain ⟨m, l⟩ := min
      rw [takeMinimum]
      split
      · rename_i hless
        rw [← hmin]
        refine hseen m l hmin (fun x hx => ?_)
        rcases h.last ht hc hx with hx' | ⟨m', l', hm', hle⟩
        · exact (EventKey.less_iff.mp hless).le.trans (hfirst x hx hx')
        · obtain ⟨rfl, -⟩ := Prod.mk.inj (Option.some.inj (hmin.symm.trans hm'))
          exact hle
      · rename_i hless
        refine hleast (fun m' l' hm' => ?_)
        obtain ⟨rfl, -⟩ := Prod.mk.inj (Option.some.inj (hmin.symm.trans hm'))
        exact EventKey.less_eq_false_iff.mp (Bool.eq_false_iff.mpr hless)

theorem findHead_spec (ht : s.Table) (hst : s.Stores (front :: rest))
    (hc : s.Cursor (front :: rest)) (hsmall : s.width * s.nbuckets < 2 ^ 64) :
    ∃ k, s.findHead = some (front, s.hash front.key.ts, k) := by
  have hn := ht.four
  obtain ⟨hl0, hl1, hl2⟩ := ht.limits hsmall
  have hlast : (if s.lastbucket = 0 then s.nbuckets - 1 else s.lastbucket - 1) =
      (year s.width s.calClock.ts + (s.nbuckets - 1)) % s.nbuckets := by
    have hlt := ht.hash_lt s.calClock.ts
    rw [← Nat.mod_add_mod]
    show _ = (s.hash s.calClock.ts + (s.nbuckets - 1)) % s.nbuckets
    rw [← hc.lastbucket] at hlt ⊢
    split
    · rename_i hzero
      rw [hzero, Nat.zero_add, Nat.mod_eq_of_lt (by omega)]
    · have hwrap : s.lastbucket + (s.nbuckets - 1) = s.lastbucket - 1 + s.nbuckets := by omega
      rw [hwrap, Nat.add_mod_right, Nat.mod_eq_of_lt (by omega)]
  rw [findHead]
  rw [hlast]
  rcases hc.round.calDequeue_spec ht hst hc hl0 s.headSearch with h0 | ⟨i, minE, h0, hr⟩
  · rw [h0]
    exact ⟨_, rfl⟩
  rw [h0]
  dsimp only
  rcases hr.calDequeue_spec ht hst hc hl1 (s.headSearch + 1) with h1 | ⟨i, minE, h1, hr⟩
  · rw [h1]
    exact ⟨_, rfl⟩
  rw [h1]
  dsimp only
  obtain ⟨k, h2 | ⟨minE, h2, hr⟩⟩ := hr.calDequeueTo_spec s.nbuckets ht hst hc hl2 rfl
    (by omega) (by omega) (by omega) (s.headSearch + 1 + 1)
  · rw [h2]
    exact ⟨_, rfl⟩
  rw [h2]
  dsimp only
  rw [hr.takeMinimum_spec ht hst hc]
  exact ⟨_, rfl⟩

/-- `head` finds the first event and moves the search there. -/
theorem head_spec (ht : s.Table) (hst : s.Stores (front :: rest)) (hc : s.Cursor (front :: rest))
    (hsmall : s.width * s.nbuckets < 2 ^ 64) (hq : s.qsize = rest.length + 1) :
    ∃ k, s.head = some (front, { s with
      lastbucket := s.hash front.key.ts, calClock := front.key, headSearch := k }) := by
  obtain ⟨k, hk⟩ := findHead_spec ht hst hc hsmall
  refine ⟨k, ?_⟩
  rw [head, if_neg (by simp [isEmpty, hq]), hk]

end Ns2CalendarScheduler

end Ns3Noc
