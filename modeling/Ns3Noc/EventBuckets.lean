import Mathlib
import Ns3Noc.Scheduler

/-!
# Sorted lists in buckets

A calendar keeps the sorted list in pieces: bucket `i` holds, in order, the events that are hashed
to `i`. Years tell the events of one bucket apart.
-/
namespace Ns3Noc
open ListScheduler

namespace ListScheduler
variable {ev : SchedulerEvent} {events : List SchedulerEvent}

/-- An event that precedes all others goes to the front. -/
theorem insert_of_lt (h : ∀ e ∈ events, ev.rank < e.rank) : insert ev events = ev :: events := by
  cases events with
  | nil => rfl
  | cons e events => rw [insert, if_pos (EventKey.less_iff.mpr (h e List.mem_cons_self))]

theorem insert_filter (h : events.Pairwise (fun a b => a.rank < b.rank))
    {p : SchedulerEvent → Bool} (hp : p ev = true) :
    insert ev (events.filter p) = (insert ev events).filter p := by
  induction events with
  | nil => simp [insert, hp]
  | cons e events ih =>
    rw [List.pairwise_cons] at h
    rw [insert]
    split
    · rename_i hless
      rw [List.filter_cons_of_pos hp]
      apply insert_of_lt
      intro a ha
      rcases List.mem_cons.mp (List.mem_of_mem_filter ha) with rfl | ha
      · exact EventKey.less_iff.mp hless
      · exact (EventKey.less_iff.mp hless).trans (h.1 a ha)
    · rename_i hless
      by_cases he : p e = true
      · rw [List.filter_cons_of_pos he, List.filter_cons_of_pos he, insert, if_neg hless, ih h.2]
      · rw [List.filter_cons_of_neg he, List.filter_cons_of_neg he, ih h.2]

/-- An insertion elsewhere does not show. -/
theorem filter_insert_of_neg {p : SchedulerEvent → Bool} (hp : p ev = false) :
    (insert ev events).filter p = events.filter p := by
  induction events with
  | nil => simp [insert, hp]
  | cons e events ih =>
    rw [insert]
    split
    · rw [List.filter_cons_of_neg (by simp [hp])]
    · by_cases he : p e = true
      · rw [List.filter_cons_of_pos he, List.filter_cons_of_pos he, ih]
      · rw [List.filter_cons_of_neg he, List.filter_cons_of_neg he, ih]

/-- Sorted lists with the same events are equal. -/
theorem Sorted.eq_of_perm {events' : List SchedulerEvent} (h : Sorted events)
    (h' : Sorted events') (hp : events.Perm events') : events = events' :=
  hp.eq_of_pairwise (fun _ _ _ _ hab hba => absurd hab hba.asymm) h.increasing h'.increasing

theorem Sorted.nodup (h : Sorted events) : events.Nodup := List.Nodup.of_map _ h.uids

/-- In a list that permutes to a sorted one, the first event has a uid of its own. -/
theorem new_of_perm {l rest : List SchedulerEvent} (hs : Sorted events)
    (hl : (ev :: l ++ rest).Perm events) : ∀ e ∈ rest, e.key.uid ≠ ev.key.uid := by
  have huids : ((ev :: l ++ rest).map (·.key.uid)).Nodup :=
    ((hl.map (·.key.uid)).nodup_iff).mpr hs.uids
  rw [List.cons_append, List.map_cons, List.nodup_cons] at huids
  intro e he heq
  exact huids.1 (heq ▸ List.mem_map_of_mem (List.mem_append_right l he))

end ListScheduler

/-- Bucket `i` holds the events with hash `i`. -/
def Bucketed (hash : SchedulerEvent → ℕ) (n : ℕ) (buckets : ℕ → List SchedulerEvent)
    (events : List SchedulerEvent) : Prop :=
  ∀ i < n, buckets i = events.filter (fun e => hash e = i)

namespace Bucketed
variable {hash : SchedulerEvent → ℕ} {n : ℕ} {buckets : ℕ → List SchedulerEvent}
variable {events : List SchedulerEvent} {ev : SchedulerEvent}

theorem mem_iff (h : Bucketed hash n buckets events) {i : ℕ} (hi : i < n) {e : SchedulerEvent} :
    e ∈ buckets i ↔ e ∈ events ∧ hash e = i := by
  rw [h i hi, List.mem_filter, decide_eq_true_eq]

theorem nil (hash : SchedulerEvent → ℕ) (n : ℕ) : Bucketed hash n (fun _ => []) [] :=
  fun _ _ => rfl

theorem insert (h : Bucketed hash n buckets events) (hs : Sorted events) :
    Bucketed hash n (Function.update buckets (hash ev) (ListScheduler.insert ev (buckets (hash ev))))
      (ListScheduler.insert ev events) := by
  intro i hi
  by_cases heq : i = hash ev
  · subst heq
    rw [Function.update_self, h _ hi, insert_filter hs.increasing (by simp)]
  · rw [Function.update_of_ne heq, h i hi, filter_insert_of_neg (by simp [Ne.symm heq])]

theorem erase (h : Bucketed hash n buckets events) (hs : Sorted events) (ev : SchedulerEvent) :
    Bucketed hash n (Function.update buckets (hash ev) ((buckets (hash ev)).erase ev))
      (events.erase ev) := by
  intro i hi
  have hfilter : (events.filter (fun e => hash e = i)).erase ev =
      (events.erase ev).filter (fun e => hash e = i) := by
    rw [(hs.nodup.filter _).erase_eq_filter, hs.nodup.erase_eq_filter, List.filter_filter,
      List.filter_filter]
    exact List.filter_congr (fun e _ => Bool.and_comm _ _)
  by_cases heq : i = hash ev
  · subst heq
    rw [Function.update_self, h _ hi, hfilter]
  · rw [Function.update_of_ne heq, h i hi, ← hfilter, List.erase_of_not_mem]
    intro hmem
    exact heq (of_decide_eq_true (List.mem_filter.mp hmem).2).symm

/-- The first event of a bucket is the least of those hashed there. -/
theorem front (h : Bucketed hash n buckets events) (hs : Sorted events) {i : ℕ} (hi : i < n)
    {next : SchedulerEvent} {rest : List SchedulerEvent} (hb : buckets i = next :: rest) :
    next ∈ events ∧ hash next = i ∧ ∀ e ∈ events, hash e = i → next.rank ≤ e.rank := by
  have hmem := (h.mem_iff hi).mp (hb ▸ List.mem_cons_self)
  refine ⟨hmem.1, hmem.2, fun e he heq => ?_⟩
  have hbucket : Sorted (next :: rest) := by
    rw [← hb, h i hi]
    exact hs.of_sublist List.filter_sublist
  have hin : e ∈ next :: rest := hb ▸ (h.mem_iff hi).mpr ⟨he, heq⟩
  rcases List.mem_cons.mp hin with rfl | hin
  · exact le_rfl
  · exact (hbucket.front_least e hin).le

theorem empty (h : Bucketed hash n buckets events) {i : ℕ} (hi : i < n) (hb : buckets i = []) :
    ∀ e ∈ events, hash e ≠ i := by
  intro e he heq
  have hin := (h.mem_iff hi).mpr ⟨he, heq⟩
  rw [hb] at hin
  cases hin

/-- The first event of the list is the first one of its bucket. -/
theorem head (h : Bucketed hash n buckets (ev :: events)) (hn : hash ev < n) :
    ∃ rest, buckets (hash ev) = ev :: rest := by
  rw [h _ hn, List.filter_cons_of_pos (by simp)]
  exact ⟨_, rfl⟩

/-- All buckets together hold the list. -/
theorem perm (h : Bucketed hash n buckets events) (hs : Sorted events)
    (hn : ∀ e ∈ events, hash e < n) : ((List.range n).flatMap buckets).Perm events := by
  refine (List.perm_ext_iff_of_nodup ?_ hs.nodup).mpr (fun e => ?_)
  · refine List.nodup_flatMap.mpr ⟨?_, ?_⟩
    · intro i hi
      rw [h i (List.mem_range.mp hi)]
      exact hs.nodup.filter _
    · have hdisjoint : (List.range n).Pairwise (fun i j => i ≠ j) := List.nodup_range
      refine hdisjoint.imp_of_mem ?_
      intro i j hi hj hne e he he'
      rw [h.mem_iff (List.mem_range.mp hi)] at he
      rw [h.mem_iff (List.mem_range.mp hj)] at he'
      exact hne (he.2.symm.trans he'.2)
  · rw [List.mem_flatMap]
    constructor
    · rintro ⟨i, hi, he⟩
      exact ((h.mem_iff (List.mem_range.mp hi)).mp he).1
    · intro he
      exact ⟨hash e, List.mem_range.mpr (hn e he), (h.mem_iff (hn e he)).mpr ⟨he, rfl⟩⟩

end Bucketed

/-- The year of a time stamp, counted in bucket widths. -/
def year (width ts : ℕ) : ℕ := ts / width

theorem lt_top_iff {width ts y : ℕ} (hw : 0 < width) : ts < (y + 1) * width ↔ year width ts ≤ y := by
  rw [year, ← Nat.div_lt_iff_lt_mul hw, Nat.lt_succ_iff]

theorem year_mono (width : ℕ) {a b : SchedulerEvent} (h : a.rank ≤ b.rank) :
    year width a.key.ts ≤ year width b.key.ts := by
  apply Nat.div_le_div_right
  rcases EventKey.rank_le_iff.mp h with hlt | ⟨heq, -⟩
  · exact hlt.le
  · exact heq.le

theorem rank_lt_of_year {width : ℕ} {a b : SchedulerEvent}
    (h : year width a.key.ts < year width b.key.ts) : a.rank < b.rank :=
  not_le.mp (fun hle => absurd h (not_lt.mpr (year_mono width hle)))

theorem year_mul_le (width ts : ℕ) : year width ts * width ≤ ts := Nat.div_mul_le_self ts width

theorem lt_year_mul {width : ℕ} (ts : ℕ) (hw : 0 < width) : ts < (year width ts + 1) * width :=
  (lt_top_iff hw).mpr le_rfl

/-- A limit on the time since `start` tells the year `d` years later from the others that share
its bucket. -/
theorem window_iff {width n start ts d limit : ℕ} (hw : 0 < width) (hn : 0 < n)
    (hmod : year width ts % n = (year width start + d) % n)
    (hle : year width start + d ≤ year width ts)
    (hlo : (d + 1) * width ≤ limit) (hhi : limit ≤ (d + n - 1) * width) :
    ts - start < limit ↔ year width ts = year width start + d := by
  have hstart := year_mul_le width start
  have hstart' := lt_year_mul start hw
  have hts := year_mul_le width ts
  have hts' := lt_year_mul ts hw
  constructor
  · intro hlt
    by_contra hne
    obtain ⟨q, hq⟩ := (Nat.modEq_iff_dvd' hle).mp (show _ ≡ _ [MOD n] from hmod.symm)
    have hq1 : 1 ≤ q := by
      rcases Nat.eq_zero_or_pos q with rfl | hpos
      · omega
      · exact hpos
    have hfar : year width start + d + n ≤ year width ts := by
      have := Nat.mul_le_mul_left n hq1
      omega
    have hmul := Nat.mul_le_mul_right width hfar
    have hsplit : (year width start + d + n) * width =
        (year width start + 1) * width + (d + n - 1) * width := by
      rw [← Nat.add_mul]
      congr 1
      omega
    omega
  · intro heq
    have hsplit : (year width ts + 1) * width = year width start * width + (d + 1) * width := by
      rw [heq, ← Nat.add_mul, Nat.add_assoc]
    have hpos : 0 < (d + 1) * width := Nat.mul_pos d.succ_pos hw
    omega

section YearSearch
variable {width n y : ℕ} {buckets : ℕ → List SchedulerEvent} {events : List SchedulerEvent}

/-- Where nothing is of an earlier year, the first event of the bucket of year `y` is the least
event if it is of that year. -/
theorem Bucketed.first_of_year
    (h : Bucketed (fun e => year width e.key.ts % n) n buckets events)
    (hs : ListScheduler.Sorted events) (hn : 0 < n)
    (hlater : ∀ e ∈ events, y ≤ year width e.key.ts)
    {next : SchedulerEvent} {tail : List SchedulerEvent} (hb : buckets (y % n) = next :: tail)
    (hyear : year width next.key.ts = y) :
    next ∈ events ∧ ∀ e ∈ events, next.rank ≤ e.rank := by
  obtain ⟨hmem, -, hfirst⟩ := h.front hs (Nat.mod_lt y hn) hb
  refine ⟨hmem, fun e he => ?_⟩
  rcases (hlater e he).eq_or_lt with heq | hlt
  · exact hfirst e he (by rw [← heq])
  · exact (rank_lt_of_year (hyear.trans_lt hlt)).le

/-- Where the bucket of year `y` has no event of that year, all events are of later years. -/
theorem later_of_pass (hlater : ∀ e ∈ events, y ≤ year width e.key.ts)
    (hpass : ∀ e ∈ events, year width e.key.ts % n = y % n → year width e.key.ts ≠ y) :
    ∀ e ∈ events, y + 1 ≤ year width e.key.ts := by
  intro e he
  rcases (hlater e he).eq_or_lt with heq | hlt
  · exact absurd heq.symm (hpass e he (by rw [← heq]))
  · exact hlt

/-- The search that starts with year `y` comes to every bucket. -/
theorem exists_round (hn : 0 < n) {y' : ℕ} (h : y ≤ y') : ∃ j < n, y' % n = (y + j) % n :=
  ⟨(y' - y) % n, Nat.mod_lt _ hn, by rw [Nat.add_mod_mod, Nat.add_sub_cancel' h]⟩

end YearSearch

end Ns3Noc
