import Ns3Noc.CalendarScheduler
import Ns3Noc.Ns2CalendarScheduler

/-!
# Runs of Ns2CalendarScheduler

The calendar agrees with the sorted list as long as nothing is inserted behind `cal_clock_`, which
`PeekNext` moves too, and the limits of the year do not wrap when the calendar is searched.
-/
namespace Ns3Noc
open PartialRuns

namespace Ns2CalendarScheduler

/-- The calendar holds these events. -/
structure Holds (s : Ns2CalendarScheduler) (events : List SchedulerEvent) : Prop where
  table : s.Table
  stores : s.Stores events
  cursor : s.Cursor events
  lastTime : s.lastTime ≤ s.calClock.ts
  avgGap : s.avgGap < 2 ^ 62
  qsize : s.qsize = events.length

variable {s : Ns2CalendarScheduler} {events rest : List SchedulerEvent}
variable {e front : SchedulerEvent}

/-- A new event in its bucket is counted there. -/
theorem Stores.counted (hst : s.Stores events) (ht : s.Table)
    (hnew : ∀ x ∈ events, x.key.uid ≠ e.key.uid) :
    ListScheduler.Sorted (s.buckets (s.hash e.key.ts)) ∧
      (∀ x ∈ s.buckets (s.hash e.key.ts), x.key.uid ≠ e.key.uid) ∧
      ∀ i < s.nbuckets, Function.update s.counts (s.hash e.key.ts)
        (s.counts (s.hash e.key.ts) + 1) i =
          (Function.update s.buckets (s.hash e.key.ts)
            (ListScheduler.insert e (s.buckets (s.hash e.key.ts))) i).length := by
  have hi := ht.hash_lt e.key.ts
  refine ⟨?_, ?_, fun i hin => ?_⟩
  · rw [hst.bucketed _ hi]
    exact hst.sorted.of_sublist List.filter_sublist
  · intro x hx
    exact hnew x ((hst.bucketed.mem_iff hi).mp hx).1
  · by_cases heq : i = s.hash e.key.ts
    · subst heq
      rw [Function.update_self, Function.update_self,
        (ListScheduler.insert_perm e _).length_eq, List.length_cons, hst.counts _ hi]
      rfl
    · rw [Function.update_of_ne heq, Function.update_of_ne heq, hst.counts i hin]

theorem insert2_eq (hst : s.Stores events) (ht : s.Table)
    (hnew : ∀ x ∈ events, x.key.uid ≠ e.key.uid) :
    s.insert2 e = { s with
      buckets := Function.update s.buckets (s.hash e.key.ts)
        (ListScheduler.insert e (s.buckets (s.hash e.key.ts)))
      statQsize := s.statQsize + 1
      counts := Function.update s.counts (s.hash e.key.ts) (s.counts (s.hash e.key.ts) + 1)
      qsize := s.qsize + 1 } := by
  obtain ⟨hs, hb, -⟩ := hst.counted ht hnew
  rw [insert2, insert2Bucket_spec hs hb]
  rfl

theorem Stores.insert2 (hst : s.Stores events) (ht : s.Table)
    (hnew : ∀ x ∈ events, x.key.uid ≠ e.key.uid) :
    (s.insert2 e).Stores (ListScheduler.insert e events) := by
  rw [insert2_eq hst ht hnew]
  exact ⟨hst.sorted.insert hnew, hst.bucketed.insert hst.sorted, (hst.counted ht hnew).2.2⟩

theorem foldl_insert2_eq (l : List SchedulerEvent) (s : Ns2CalendarScheduler) :
    l.foldl Ns2CalendarScheduler.insert2 s = { s with
      buckets := (l.foldl Ns2CalendarScheduler.insert2 s).buckets
      statQsize := (l.foldl Ns2CalendarScheduler.insert2 s).statQsize
      counts := (l.foldl Ns2CalendarScheduler.insert2 s).counts
      qsize := s.qsize + l.length } := by
  induction l generalizing s with
  | nil => rfl
  | cons e l ih =>
    rw [List.foldl_cons, ih, List.length_cons, Nat.add_comm l.length, ← Nat.add_assoc]
    rfl

/-- Insertions one after another. -/
theorem Stores.foldl_insert2 {l : List SchedulerEvent} (hst : s.Stores rest) (ht : s.Table)
    (hs : ListScheduler.Sorted events) (hl : (l ++ rest).Perm events) :
    (l.foldl Ns2CalendarScheduler.insert2 s).Stores events := by
  induction l generalizing s rest with
  | nil => exact hst.sorted.eq_of_perm hs hl ▸ hst
  | cons e l ih =>
    have hnew := ListScheduler.new_of_perm hs hl
    have hperm : (l ++ ListScheduler.insert e rest).Perm events :=
      (((ListScheduler.insert_perm e rest).append_left l).trans List.perm_middle).trans hl
    refine ih (hst.insert2 ht hnew) ?_ hperm
    rw [insert2_eq hst ht hnew]
    exact ⟨ht.four, ht.width_pos, ht.diff0, ht.diff1, ht.diff2⟩

/-- The events of all buckets, read from their tails. -/
theorem Stores.perm_reverse (hst : s.Stores events) (ht : s.Table) :
    ((List.range s.nbuckets).flatMap (fun i => (s.buckets i).reverse)).Perm events := by
  have hall := hst.bucketed.perm hst.sorted (fun x _ => ht.hash_lt x.key.ts)
  refine List.Perm.trans ?_ hall
  exact List.Perm.flatMap_left _ (fun i _ => List.reverse_perm _)

theorem rebuild_spec (h : s.Holds events) {newsize bwidth : ℕ} (hsize : 4 ≤ newsize)
    (hw : 0 < bwidth) :
    (s.rebuild newsize bwidth s.calClock).Holds events ∧
      (s.rebuild newsize bwidth s.calClock).calClock = s.calClock := by
  have htable : (s.reinit newsize bwidth s.calClock).Table := ⟨hsize, hw, rfl, rfl, rfl⟩
  have hempty : (s.reinit newsize bwidth s.calClock).Stores [] :=
    ⟨ListScheduler.sorted_nil, Bucketed.nil _ _, fun i _ => rfl⟩
  have hperm := h.stores.perm_reverse h.table
  rw [← List.append_nil (List.flatMap _ _)] at hperm
  have hst := hempty.foldl_insert2 htable h.stores.sorted hperm
  rw [rebuild, foldl_insert2_eq]
  rw [foldl_insert2_eq] at hst
  refine ⟨?_, rfl⟩
  exact {
    table := ⟨hsize, hw, rfl, rfl, rfl⟩
    stores := ⟨hst.sorted, hst.bucketed, hst.counts⟩
    cursor := ⟨rfl, h.cursor.early, h.cursor.past, h.cursor.future⟩
    lastTime := h.lastTime
    avgGap := h.avgGap
    qsize := by rw [← hperm.length_eq, List.append_nil]; exact Nat.zero_add _ }

theorem maxBucket_lt (ht : s.Table) : s.maxBucket < s.nbuckets := by
  have hn := ht.four
  refine List.foldlRecOn (motive := fun m => m < s.nbuckets) _ _ (by omega) ?_
  intro m hm i hi
  have := List.mem_range'_1.mp hi
  split <;> omega

/-- Some positive width, and nothing else changes but the countdown. -/
theorem newwidth_spec (h : s.Holds events) (newsize : ℕ) :
    ∃ w, s.newwidth newsize =
      some (w, { s with timeToNewwidth := adjustNewWidthInterval }) ∧ 0 < w := by
  rw [newwidth]
  dsimp only
  split
  · rename_i hgap
    have hlt := h.avgGap
    exact ⟨_, rfl, by omega⟩
  · split
    · exact ⟨_, rfl, h.table.width_pos⟩
    · rename_i hcount
      have hm : Ns2CalendarScheduler.maxBucket
          { s with timeToNewwidth := adjustNewWidthInterval } < s.nbuckets :=
        maxBucket_lt ⟨h.table.four, h.table.width_pos, h.table.diff0, h.table.diff1, h.table.diff2⟩
      generalize Ns2CalendarScheduler.maxBucket
        { s with timeToNewwidth := adjustNewWidthInterval } = m at *
      have hpos : s.buckets m ≠ [] := by
        intro hnil
        rw [h.stores.counts m hm, hnil] at hcount
        exact hcount (by decide)
      rw [List.head?_eq_some_head hpos, List.getLast?_eq_some_getLast hpos]
      exact ⟨_, rfl, Nat.lt_of_lt_of_le Nat.zero_lt_one (le_max_right _ _)⟩

variable {sqrtWidth : ℕ → ℕ → ℕ}

theorem Holds.recount (h : s.Holds events) (time head insert round : ℕ) :
    Holds { s with
      timeToNewwidth := time, headSearch := head, insertSearch := insert, roundNum := round }
      events where
  table := ⟨h.table.four, h.table.width_pos, h.table.diff0, h.table.diff1, h.table.diff2⟩
  stores := ⟨h.stores.sorted, h.stores.bucketed, h.stores.counts⟩
  cursor := ⟨h.cursor.lastbucket, h.cursor.early, h.cursor.past, h.cursor.future⟩
  lastTime := h.lastTime
  avgGap := h.avgGap
  qsize := h.qsize

theorem resize_spec (h : s.Holds events) (newsize : ℕ) :
    ∃ t, resize sqrtWidth s newsize s.calClock = some t ∧ t.Holds events ∧
      t.calClock = s.calClock := by
  obtain ⟨w, hrun, hw⟩ := newwidth_spec h newsize
  have h' := h.recount adjustNewWidthInterval s.headSearch s.insertSearch s.roundNum
  rw [resize]
  split
  · rename_i heq
    dsimp only
    generalize sqrtWidth _ _ % 2 ^ 64 = bwidth
    split
    · split
      · exact ⟨_, rfl, h.recount _ _ _ _, rfl⟩
      · rw [hrun]
        exact ⟨_, rfl, rebuild_spec h' (heq ▸ h.table.four) hw⟩
    · rename_i hbin
      exact ⟨_, rfl, rebuild_spec h (heq ▸ h.table.four) (by rw [minBinWidth] at hbin; omega)⟩
  · rw [hrun]
    exact ⟨_, rfl, rebuild_spec h' (le_max_right _ _) hw⟩

theorem insert_spec (h : s.Holds events) (hnew : ∀ x ∈ events, x.key.uid ≠ e.key.uid)
    (hts : s.calClock.ts ≤ e.key.ts ∧ e.key.ts < 2 ^ 62) :
    ∃ t, s.insert sqrtWidth e = some t ∧ t.Holds (ListScheduler.insert e events) := by
  obtain ⟨hs, hb, hcounts⟩ := h.stores.counted h.table hnew
  obtain ⟨searches, hbucket⟩ := insertBucket_spec hs hb
  have hmem {x : SchedulerEvent} (hx : x ∈ ListScheduler.insert e events) : x = e ∨ x ∈ events :=
    List.mem_cons.mp ((ListScheduler.insert_perm e events).subset hx)
  have hholds : Holds { s with
      buckets := Function.update s.buckets (s.hash e.key.ts)
        (ListScheduler.insert e (s.buckets (s.hash e.key.ts)))
      insertSearch := s.insertSearch + searches
      statQsize := s.statQsize + 1
      counts := Function.update s.counts (s.hash e.key.ts) (s.counts (s.hash e.key.ts) + 1)
      qsize := s.qsize + 1 } (ListScheduler.insert e events) := {
    table := ⟨h.table.four, h.table.width_pos, h.table.diff0, h.table.diff1, h.table.diff2⟩
    stores := ⟨h.stores.sorted.insert hnew, h.stores.bucketed.insert h.stores.sorted, hcounts⟩
    cursor := {
      lastbucket := h.cursor.lastbucket
      early := h.cursor.early
      past := by
        intro x hx
        rcases hmem hx with rfl | hx
        · exact hts.1
        · exact h.cursor.past x hx
      future := by
        intro x hx
        rcases hmem hx with rfl | hx
        · exact hts.2
        · exact h.cursor.future x hx }
    lastTime := h.lastTime
    avgGap := h.avgGap
    qsize := by rw [(ListScheduler.insert_perm e events).length_eq, List.length_cons, ← h.qsize] }
  rw [insert, hbucket]
  simp only [↓reduceIte]
  split
  · obtain ⟨t, hrun, ht, -⟩ := resize_spec hholds (s.nbuckets * 2)
    exact ⟨t, hrun, ht⟩
  · exact ⟨_, rfl, hholds⟩

theorem bmod_lt {k : ℕ} (h : k < 2 ^ 62) : Int.bmod k (2 ^ 64) < 2 ^ 62 := by
  rw [Int.bmod_eq_of_le (by omega) (by omega)]
  omega

/-- The gap statistics may rebuild the table and change nothing else that matters. -/
theorem updateGap_spec (h : s.Holds (front :: rest)) (hclock : s.calClock = front.key) :
    ∃ t, updateGap sqrtWidth s front = some t ∧ t.Holds (front :: rest) ∧
      t.calClock = front.key := by
  have hts : s.lastTime ≤ front.key.ts := hclock ▸ h.lastTime
  have hfuture := h.cursor.future front List.mem_cons_self
  have hgap (gapNum lastTime : ℕ) (avgGap : ℤ) (hlast : lastTime ≤ front.key.ts)
      (havg : avgGap < 2 ^ 62) (head insert round : ℕ) :
      Holds { s with
        gapNum := gapNum, lastTime := lastTime, avgGap := avgGap, roundNum := round
        headSearch := head, insertSearch := insert } (front :: rest) := {
    table := ⟨h.table.four, h.table.width_pos, h.table.diff0, h.table.diff1, h.table.diff2⟩
    stores := ⟨h.stores.sorted, h.stores.bucketed, h.stores.counts⟩
    cursor := ⟨h.cursor.lastbucket, h.cursor.early, h.cursor.past, h.cursor.future⟩
    lastTime := show lastTime ≤ s.calClock.ts by rw [hclock]; exact hlast
    avgGap := havg
    qsize := h.qsize }
  rw [updateGap]
  split
  · exact ⟨_, rfl, hgap _ _ _ le_rfl h.avgGap _ _ _, hclock⟩
  · dsimp only
    split
    · have havg : Int.bmod ((front.key.ts + 2 ^ 64 - s.lastTime) % 2 ^ 64 / (s.gapNum + 1) : ℕ)
          (2 ^ 64) < 2 ^ 62 := by
        have hle := Nat.div_le_self ((front.key.ts + 2 ^ 64 - s.lastTime) % 2 ^ 64) (s.gapNum + 1)
        have hsub : (front.key.ts + 2 ^ 64 - s.lastTime) % 2 ^ 64 = front.key.ts - s.lastTime := by
          omega
        rw [hsub] at hle ⊢
        exact bmod_lt (hle.trans_lt (by omega))
      have hnew := hgap 0 front.key.ts _ le_rfl havg
      split
      · obtain ⟨t, hrun, ht, htc⟩ := resize_spec
          (hnew s.headSearch s.insertSearch (s.roundNum + 1)) s.nbuckets
        refine ⟨_, ?_, ht.recount t.timeToNewwidth t.headSearch t.insertSearch 0, htc.trans hclock⟩
        exact congrArg (fun o => o.bind (fun t => some { t with roundNum := 0 })) hrun
      · split
        · exact ⟨_, rfl, hnew _ _ _, hclock⟩
        · exact ⟨_, rfl, hnew _ _ _, hclock⟩
    · exact ⟨_, rfl, hgap _ _ _ hts h.avgGap _ _ _, hclock⟩

/-- The first event is taken out of the bucket that the search ended in. -/
theorem unlink_spec (h : s.Holds (front :: rest)) (hclock : s.calClock = front.key) :
    (s.unlink front).Holds rest ∧ (s.unlink front).calClock = front.key := by
  have hlast : s.lastbucket = s.hash front.key.ts := hclock ▸ h.cursor.lastbucket
  have hi := h.table.hash_lt front.key.ts
  obtain ⟨tail, hb⟩ := h.stores.bucketed.head hi
  have herase := h.stores.bucketed.erase h.stores.sorted front
  rw [List.erase_cons_head, hb, List.erase_cons_head] at herase
  have hcount := h.stores.counts _ hi
  rw [hb, List.length_cons] at hcount
  have hothers : ((s.buckets (s.hash front.key.ts)).dropWhile (· ≠ front)).tail ++
      (s.buckets (s.hash front.key.ts)).takeWhile (· ≠ front) = tail := by
    rw [hb]
    simp
  have hunique : tail.head?.all (fun x => x.key.uid ≠ front.key.uid) = true := by
    cases tail with
    | nil => rfl
    | cons x tail =>
      have hsorted : ListScheduler.Sorted (front :: x :: tail) := by
        rw [← hb, h.stores.bucketed _ hi]
        exact h.stores.sorted.of_sublist List.filter_sublist
      refine decide_eq_true (fun huid => ?_)
      have hx : x ∈ x :: tail := List.mem_cons_self
      have heq := hsorted.eq_of_uid (List.mem_cons_of_mem front hx) List.mem_cons_self huid
      exact absurd (hsorted.front_least x hx) (heq ▸ lt_irrefl _)
  have hunlink : s.unlink front = { s with
      statQsize := s.statQsize - 1
      counts := Function.update s.counts (s.hash front.key.ts)
        (s.counts (s.hash front.key.ts) - 1)
      qsize := s.qsize - 1
      buckets := Function.update s.buckets (s.hash front.key.ts) tail } := by
    rw [unlink, hlast, hothers, hunique]
    rfl
  rw [hunlink]
  refine ⟨?_, hclock⟩
  exact {
    table := ⟨h.table.four, h.table.width_pos, h.table.diff0, h.table.diff1, h.table.diff2⟩
    stores := {
      sorted := h.stores.sorted.of_sublist (List.sublist_cons_self front rest)
      bucketed := herase
      counts := by
        intro i hin
        by_cases heq : i = s.hash front.key.ts
        · subst heq
          dsimp only
          rw [Function.update_self, Function.update_self]
          omega
        · dsimp only
          rw [Function.update_of_ne heq, Function.update_of_ne heq, h.stores.counts i hin] }
    cursor := ⟨h.cursor.lastbucket, h.cursor.early,
      fun x hx => h.cursor.past x (List.mem_cons_of_mem front hx),
      fun x hx => h.cursor.future x (List.mem_cons_of_mem front hx)⟩
    lastTime := h.lastTime
    avgGap := h.avgGap
    qsize := show s.qsize - 1 = rest.length by rw [h.qsize, List.length_cons]; rfl }

theorem Holds.moved (h : s.Holds (front :: rest)) (k : ℕ) :
    Holds { s with
      lastbucket := s.hash front.key.ts, calClock := front.key, headSearch := k }
      (front :: rest) where
  table := ⟨h.table.four, h.table.width_pos, h.table.diff0, h.table.diff1, h.table.diff2⟩
  stores := ⟨h.stores.sorted, h.stores.bucketed, h.stores.counts⟩
  cursor := {
    lastbucket := rfl
    early := h.cursor.future front List.mem_cons_self
    past := by
      intro x hx
      rcases List.mem_cons.mp hx with rfl | hx
      · exact le_rfl
      · rcases EventKey.rank_lt_iff.mp (h.stores.sorted.front_least x hx) with hlt | ⟨heq, -⟩
        · exact hlt.le
        · exact heq.le
    future := h.cursor.future }
  lastTime := h.lastTime.trans (h.cursor.past front List.mem_cons_self)
  avgGap := h.avgGap
  qsize := h.qsize

theorem peekNext_spec (h : s.Holds (front :: rest)) (hsmall : s.width * s.nbuckets < 2 ^ 64) :
    ∃ t, s.head = some (front, t) ∧ t.Holds (front :: rest) ∧ t.calClock = front.key := by
  obtain ⟨k, hk⟩ := head_spec h.table h.stores h.cursor hsmall h.qsize
  exact ⟨_, hk, h.moved k, rfl⟩

theorem removeNext_spec (h : s.Holds (front :: rest)) (hsmall : s.width * s.nbuckets < 2 ^ 64) :
    ∃ t, s.removeNext sqrtWidth = some (front, t) ∧ t.Holds rest := by
  obtain ⟨t, hhead, ht, htc⟩ := peekNext_spec h hsmall
  obtain ⟨u, hgap, hu, huc⟩ := updateGap_spec ht htc
  obtain ⟨hv, -⟩ := unlink_spec hu huc
  rw [removeNext, if_neg (by simp [isEmpty, h.qsize]), hhead]
  dsimp only [Option.bind_eq_bind, Option.bind_some]
  rw [hgap]
  dsimp only [Option.bind_some]
  split
  · obtain ⟨w, hrun, hw, -⟩ := resize_spec hv ((u.unlink front).nbuckets / 2)
    rw [hrun]
    exact ⟨w, rfl, hw⟩
  · exact ⟨_, rfl, hv⟩

theorem eraseP_eq_erase {p : SchedulerEvent → Bool} {l : List SchedulerEvent}
    (h : ∀ x ∈ l, p x = true ↔ x = e) : l.eraseP p = l.erase e := by
  induction l with
  | nil => rfl
  | cons x l ih =>
    rw [List.forall_mem_cons] at h
    by_cases hx : x = e
    · subst hx
      rw [List.eraseP_cons_of_pos (h.1.mpr rfl), List.erase_cons_head]
    · rw [List.eraseP_cons_of_neg (fun hp => hx (h.1.mp hp)),
        List.erase_cons_tail (by simpa using hx), ih h.2]

theorem remove_spec (h : s.Holds events) (he : e ∈ events) :
    ∃ t, s.remove e = some t ∧ t.Holds (events.erase e) := by
  have hi := h.table.hash_lt e.key.ts
  have hsorted : ListScheduler.Sorted (s.buckets (s.hash e.key.ts)) := by
    rw [h.stores.bucketed _ hi]
    exact h.stores.sorted.of_sublist List.filter_sublist
  have hmem : e ∈ s.buckets (s.hash e.key.ts) := (h.stores.bucketed.mem_iff hi).mpr ⟨he, rfl⟩
  have hlength := List.length_pos_of_mem hmem
  have hbucket : ((s.buckets (s.hash e.key.ts)).reverse.eraseP
      (fun x => x.key.uid = e.key.uid)).reverse = (s.buckets (s.hash e.key.ts)).erase e := by
    rw [eraseP_eq_erase (e := e), (List.nodup_reverse.mpr hsorted.nodup).erase_eq_filter,
      List.filter_reverse, List.reverse_reverse, hsorted.nodup.erase_eq_filter]
    intro x hx
    rw [decide_eq_true_eq]
    exact ⟨hsorted.eq_of_uid (List.mem_reverse.mp hx) hmem, fun heq => heq ▸ rfl⟩
  have hcount := h.stores.counts _ hi
  have herased := List.length_erase_of_mem hmem
  rw [remove, if_neg (by simp [isEmpty, h.qsize]; rintro rfl; cases he)]
  dsimp only
  rw [if_neg (List.ne_nil_of_mem hmem), if_pos (List.any_eq_true.mpr ⟨e, hmem, by simp⟩), hbucket,
    if_neg ?_]
  · refine ⟨_, rfl, ?_⟩
    exact {
      table := ⟨h.table.four, h.table.width_pos, h.table.diff0, h.table.diff1, h.table.diff2⟩
      stores := {
        sorted := h.stores.sorted.of_sublist List.erase_sublist
        bucketed := h.stores.bucketed.erase h.stores.sorted _
        counts := by
          intro i hin
          by_cases heq : i = s.hash e.key.ts
          · subst heq
            dsimp only
            rw [Function.update_self, Function.update_self]
            omega
          · dsimp only
            rw [Function.update_of_ne heq, Function.update_of_ne heq, h.stores.counts i hin] }
      cursor := ⟨h.cursor.lastbucket, h.cursor.early,
        fun x hx => h.cursor.past x (List.mem_of_mem_erase hx),
        fun x hx => h.cursor.future x (List.mem_of_mem_erase hx)⟩
      lastTime := h.lastTime
      avgGap := h.avgGap
      qsize := show s.qsize - 1 = _ by rw [List.length_erase_of_mem he, h.qsize] }
  · rintro ⟨hzero, hne⟩
    exact hne (List.length_eq_zero_iff.mp (by omega))

theorem empty_holds : empty.Holds [] where
  table := ⟨by decide, by decide, rfl, rfl, rfl⟩
  stores := ⟨ListScheduler.sorted_nil, Bucketed.nil _ _, fun i _ => rfl⟩
  cursor := ⟨rfl, by decide, fun x hx => absurd hx List.not_mem_nil,
    fun x hx => absurd hx List.not_mem_nil⟩
  lastTime := le_rfl
  avgGap := by decide
  qsize := rfl

/-- An insertion is not behind `cal_clock_`, and a search has limits that do not wrap. -/
def Safe (s : Ns2CalendarScheduler) : SchedulerCall → Prop
  | .insert ev => s.calClock.ts ≤ ev.key.ts
  | .remove _ => True
  | .peekNext => s.width * s.nbuckets < 2 ^ 64
  | .removeNext => s.width * s.nbuckets < 2 ^ 64

instance (s : Ns2CalendarScheduler) (call : SchedulerCall) : Decidable (s.Safe call) :=
  match call with
  | .insert ev => inferInstanceAs (Decidable (s.calClock.ts ≤ ev.key.ts))
  | .remove _ => .isTrue True.intro
  | .peekNext | .removeNext => inferInstanceAs (Decidable (s.width * s.nbuckets < 2 ^ 64))

/-- A safe call answers as the sorted list does. -/
theorem apply_spec (h : s.Holds events) {call : SchedulerCall} (hl : call.Legal events)
    (hsafe : s.Safe call) (hts : ∀ ev, call = .insert ev → ev.key.ts < 2 ^ 62) :
    ∃ t, (ns2CalendarScheduler sqrtWidth).apply s call = some (call.answer events, t) ∧
      t.Holds (call.stored events) := by
  cases call with
  | insert ev =>
    obtain ⟨t, hrun, ht⟩ := insert_spec h hl ⟨hsafe, hts ev rfl⟩
    exact ⟨t, congrArg (Option.map (fun s' => (none, s'))) hrun, ht⟩
  | remove ev =>
    obtain ⟨t, hrun, ht⟩ := remove_spec h hl
    exact ⟨t, congrArg (Option.map (fun s' => (none, s'))) hrun, ht⟩
  | peekNext =>
    obtain ⟨front, rest, rfl⟩ := List.exists_cons_of_ne_nil hl
    obtain ⟨t, hrun, ht, -⟩ := peekNext_spec h hsafe
    exact ⟨t, congrArg
      (Option.map (fun r : SchedulerEvent × Ns2CalendarScheduler => (some r.1, r.2))) hrun, ht⟩
  | removeNext =>
    obtain ⟨front, rest, rfl⟩ := List.exists_cons_of_ne_nil hl
    obtain ⟨t, hrun, ht⟩ := removeNext_spec h hsafe
    exact ⟨t, congrArg
      (Option.map (fun r : SchedulerEvent × Ns2CalendarScheduler => (some r.1, r.2))) hrun, ht⟩

/-- A call on time that is safe for the calendar of the run. -/
def Allows (r : SchedulerRun Ns2CalendarScheduler) (call : SchedulerCall) : Prop :=
  call.OnTime 62 r ∧ ∀ s, r.scheduler = some s → s.Safe call

instance (r : SchedulerRun Ns2CalendarScheduler) (call : SchedulerCall) :
    Decidable (Allows r call) :=
  match h : r.scheduler with
  | none => decidable_of_iff (call.OnTime 62 r) (by simp [Allows, h])
  | some s => decidable_of_iff (call.OnTime 62 r ∧ s.Safe call) (by simp [Allows, h])

/-- For any widths the calendar answers as the sorted list does, as long as all calls are safe. -/
theorem agrees_of_safe (sqrtWidth : ℕ → ℕ → ℕ) {calls : List SchedulerCall}
    (hok : Allowed (SchedulerRun.step (ns2CalendarScheduler sqrtWidth)) Allows
      (SchedulerRun.start (ns2CalendarScheduler sqrtWidth)) calls) :
    Always (SchedulerRun.step (ns2CalendarScheduler sqrtWidth)) SchedulerRun.Agrees
      (SchedulerRun.start (ns2CalendarScheduler sqrtWidth)) calls := by
  let Inv : SchedulerRun Ns2CalendarScheduler → Prop := fun r =>
    r.Agrees ∧ ∃ s, r.scheduler = some s ∧ s.Holds r.events
  have hinv : Always (SchedulerRun.step (ns2CalendarScheduler sqrtWidth)) Inv
      (SchedulerRun.start (ns2CalendarScheduler sqrtWidth)) calls := by
    refine Always.of_invariant ?_ ?_ hok
    · rintro r call r' ⟨-, s, hs, h⟩ ⟨hts, hsafe⟩ hstep
      obtain ⟨hl, rfl⟩ := SchedulerRun.step_cases h.stores.sorted hstep
      obtain ⟨t, hrun, ht⟩ := apply_spec h hl (hsafe s hs)
        (by rintro ev rfl; exact hts.2)
      have hbind : r.scheduler.bind (fun s => (ns2CalendarScheduler sqrtWidth).apply s call) =
          some (call.answer r.events, t) := by rw [hs]; exact hrun
      rw [hbind]
      exact ⟨⟨rfl, rfl, fun ev hev => SchedulerCall.answer_least h.stores.sorted call hev⟩,
        t, rfl, ht⟩
    · exact ⟨⟨rfl, rfl, by rintro ev ⟨⟩⟩, empty, rfl, empty_holds⟩
  exact hinv.mono (fun r hr => hr.1)

/-- Insertions of these time stamps, with uids in order. -/
def insertions (l : List ℕ) : List SchedulerCall :=
  l.zipIdx.map (fun p => SchedulerCall.insert ⟨p.2, ⟨p.1, p.2, 0⟩⟩)

/-- Ten insertions, which double the buckets, and the first two events. -/
theorem agrees_ten :
    Always (SchedulerRun.step (ns2CalendarScheduler (fun b w => b.sqrt * w))) SchedulerRun.Agrees
      (SchedulerRun.start (ns2CalendarScheduler (fun b w => b.sqrt * w)))
      (insertions [4, 9, 2, 30, 7, 7, 8, 11, 15, 16] ++ [.peekNext, .removeNext, .removeNext]) :=
  agrees_of_safe _ (by decide +kernel)

/-- An event inserted before the one that `PeekNext` has returned. -/
def behindCalls : List SchedulerCall :=
  [.insert ⟨1, ⟨10, 1, 0⟩⟩, .peekNext, .insert ⟨2, ⟨5, 2, 0⟩⟩, .peekNext]

/-- Nine events, seven of them in one bucket, so far apart that eight buckets of the new width
wrap. -/
def wideCalls : List SchedulerCall :=
  insertions [0, 2 * 10 ^ 18, 3 * 10 ^ 18, 3 * 10 ^ 18 + 4, 3 * 10 ^ 18 + 8, 3 * 10 ^ 18 + 12,
    2 ^ 62 - 4, 3 * 10 ^ 18 + 1, 3 * 10 ^ 18 + 2] ++ [.removeNext, .removeNext]

/-- All calls are on time, and the last one returns a later event than the first stored one. -/
theorem later_event_returned :
    let S := ns2CalendarScheduler (fun b w => b.sqrt * w)
    Allowed (SchedulerRun.step S) (fun r call => call.OnTime 62 r) (SchedulerRun.start S)
        behindCalls ∧
      (run (SchedulerRun.step S) (SchedulerRun.start S) behindCalls).map
          (fun r => (r.returned, r.expected)) =
        some (some ⟨1, ⟨10, 1, 0⟩⟩, some ⟨2, ⟨5, 2, 0⟩⟩) ∧
      Allowed (SchedulerRun.step S) (fun r call => call.OnTime 62 r) (SchedulerRun.start S)
        wideCalls ∧
      (run (SchedulerRun.step S) (SchedulerRun.start S) wideCalls).map
          (fun r => (r.returned, r.expected)) =
        some (some ⟨2, ⟨3 * 10 ^ 18, 2, 0⟩⟩, some ⟨1, ⟨2 * 10 ^ 18, 1, 0⟩⟩) := by
  decide +kernel

end Ns2CalendarScheduler

end Ns3Noc
