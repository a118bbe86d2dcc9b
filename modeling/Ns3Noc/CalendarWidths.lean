import Mathlib
import Ns3Noc.CalendarScheduler

/-!
# The widths of the calendar

A resize takes as new width three times the time between its samples, without the gaps of more
than twice the average, and at least one. The result is returned through a 32 bit type: where the
time is a multiple of 2^32 the width is zero, and `Init` divides by it.
-/
namespace Ns3Noc.CalendarScheduler
open PartialRuns

/-- The time from one event to the next. -/
def gaps (samples : List SchedulerEvent) : List ℕ :=
  List.zipWith (fun cur next => next.key.ts - cur.key.ts) samples samples.tail

/-- The time between the samples, without the gaps of more than twice the average. -/
def keptSeparation (samples : List SchedulerEvent) : ℕ :=
  ((gaps samples).filter (· ≤ (gaps samples).sum / (samples.length - 1) * 2)).sum

/-- The width of these samples is lost when it is cut to 32 bits. -/
def Truncates (samples : List SchedulerEvent) : Prop :=
  keptSeparation samples ≠ 0 ∧ 2 ^ 32 ∣ keptSeparation samples

instance (samples : List SchedulerEvent) : Decidable (Truncates samples) :=
  inferInstanceAs (Decidable (_ ∧ _))

/-- In the order of their time stamps, which are in the signed range of time. -/
structure InOrder (samples : List SchedulerEvent) : Prop where
  increasing : samples.Pairwise (fun cur next => cur.key.ts ≤ next.key.ts)
  early : ∀ e ∈ samples, e.key.ts < 2 ^ 63

theorem InOrder.of_sublist {l samples : List SchedulerEvent} (h : InOrder samples)
    (hl : l.Sublist samples) : InOrder l where
  increasing := h.increasing.sublist hl
  early e he := h.early e (hl.subset he)

theorem InOrder.tail {e : SchedulerEvent} {l : List SchedulerEvent} (h : InOrder (e :: l)) :
    InOrder l := h.of_sublist (List.sublist_cons_self e l)

theorem InOrder.head_le {a b : SchedulerEvent} {l : List SchedulerEvent}
    (h : InOrder (a :: b :: l)) : a.key.ts ≤ b.key.ts :=
  (List.pairwise_cons.mp h.increasing).1 b List.mem_cons_self

@[simp] theorem gaps_cons_cons (a b : SchedulerEvent) (l : List SchedulerEvent) :
    gaps (a :: b :: l) = (b.key.ts - a.key.ts) :: gaps (b :: l) := rfl

theorem separations_cons_cons (a b : SchedulerEvent) (l : List SchedulerEvent) :
    separations (a :: b :: l) =
      (b.key.ts + 2 ^ 64 - a.key.ts) % 2 ^ 64 :: separations (b :: l) := rfl

theorem wrap_sub {a b : ℕ} (h : a ≤ b) (hb : b < 2 ^ 63) :
    (b + 2 ^ 64 - a) % 2 ^ 64 = b - a := by
  rw [Nat.sub_add_comm h, Nat.add_mod_right]
  exact Nat.mod_eq_of_lt (by omega)

/-- Between samples in order no difference wraps. -/
theorem InOrder.separations_eq {samples : List SchedulerEvent} (h : InOrder samples) :
    separations samples = gaps samples := by
  induction samples with
  | nil => simp [separations, gaps]
  | cons a l ih =>
    cases l with
    | nil => simp [separations, gaps]
    | cons b l =>
      rw [separations_cons_cons, gaps_cons_cons, ih h.tail, wrap_sub h.head_le (h.early b (by simp))]

theorem InOrder.sum_gaps_lt_of_cons {a : SchedulerEvent} {l : List SchedulerEvent}
    (h : InOrder (a :: l)) : a.key.ts + (gaps (a :: l)).sum < 2 ^ 63 := by
  induction l generalizing a with
  | nil => simpa [gaps] using h.early a List.mem_cons_self
  | cons b l ih =>
    have hle := h.head_le
    have hrest := ih h.tail
    rw [gaps_cons_cons, List.sum_cons]
    omega

theorem InOrder.sum_gaps_lt {samples : List SchedulerEvent} (h : InOrder samples) :
    (gaps samples).sum < 2 ^ 63 := by
  cases samples with
  | nil => simp [gaps]
  | cons a l =>
    have hlt := h.sum_gaps_lt_of_cons
    omega

theorem foldl_sum_eq {l : List ℕ} {total : ℕ} (h : total + l.sum < 2 ^ 64) :
    l.foldl (fun total d => (total + d) % 2 ^ 64) total = total + l.sum := by
  induction l generalizing total with
  | nil => rfl
  | cons d l ih =>
    rw [List.sum_cons] at h ⊢
    have hd : (total + d) % 2 ^ 64 = total + d := Nat.mod_eq_of_lt (by omega)
    rw [List.foldl_cons, hd, ih (by omega), Nat.add_assoc]

theorem sumSeparations_eq {l : List ℕ} (h : l.sum < 2 ^ 64) : sumSeparations l = l.sum := by
  rw [sumSeparations, foldl_sum_eq (by rwa [Nat.zero_add]), Nat.zero_add]

theorem keptSeparation_le (samples : List SchedulerEvent) :
    keptSeparation samples ≤ (gaps samples).sum :=
  List.filter_sublist.sum_le_sum (fun _ _ => Nat.zero_le _)

theorem three_coprime (k : ℕ) : Nat.Coprime (2 ^ k) 3 := Nat.Coprime.pow_left k (by norm_num)

theorem cut_eq_zero_iff {total : ℕ} (h : total < 2 ^ 63) :
    max (total * 3 % 2 ^ 64) 1 % 2 ^ 32 = 0 ↔ total ≠ 0 ∧ 2 ^ 32 ∣ total := by
  rcases Nat.eq_zero_or_pos total with rfl | hpos
  · norm_num
  · have hne : total * 3 % 2 ^ 64 ≠ 0 := by
      intro hzero
      have hdvd : 2 ^ 64 ∣ total :=
        (three_coprime 64).dvd_of_dvd_mul_right (Nat.dvd_of_mod_eq_zero hzero)
      have hle : 2 ^ 64 ≤ total := Nat.le_of_dvd hpos hdvd
      exact absurd (hle.trans_lt h) (by norm_num)
    have hcut : 2 ^ 32 ∣ 2 ^ 64 := Nat.pow_dvd_pow 2 (by norm_num)
    rw [max_eq_left (Nat.one_le_iff_ne_zero.mpr hne), Nat.mod_mod_of_dvd _ hcut,
      ← Nat.dvd_iff_mod_eq_zero, (three_coprime 32).dvd_mul_right]
    exact (and_iff_right hpos.ne').symm

/-- The only widths of zero are those lost in 32 bits. -/
theorem InOrder.averageWidth_eq_zero_iff {samples : List SchedulerEvent} (h : InOrder samples) :
    averageWidth samples.length samples = 0 ↔ Truncates samples := by
  have hsum := h.sum_gaps_lt
  have hkept := keptSeparation_le samples
  have hhalf : (gaps samples).sum / (samples.length - 1) ≤ (gaps samples).sum := Nat.div_le_self _ _
  have hwrap : (gaps samples).sum / (samples.length - 1) * 2 % 2 ^ 64 =
      (gaps samples).sum / (samples.length - 1) * 2 := Nat.mod_eq_of_lt (by omega)
  have hfilter : sumSeparations ((gaps samples).filter
      (· ≤ (gaps samples).sum / (samples.length - 1) * 2)) = keptSeparation samples :=
    sumSeparations_eq (hkept.trans_lt (hsum.trans (by norm_num)))
  have htotal : sumSeparations (gaps samples) = (gaps samples).sum :=
    sumSeparations_eq (hsum.trans (by norm_num))
  rw [averageWidth, h.separations_eq, htotal, hwrap, hfilter]
  exact cut_eq_zero_iff (by omega)

theorem InOrder.sampledWidth_eq_zero_iff {events : List SchedulerEvent} (h : InOrder events) :
    sampledWidth events = 0 ↔ Truncates (events.take (samplesOf events.length)) := by
  have hlength : (events.take (samplesOf events.length)).length = samplesOf events.length := by
    rw [List.length_take, min_eq_left (samplesOf_le events.length)]
  have hzero := (h.of_sublist (List.take_sublist (samplesOf events.length) events)
    ).averageWidth_eq_zero_iff
  rw [hlength] at hzero
  rw [sampledWidth]
  split
  · rename_i hfew
    obtain _ | ⟨e, _ | ⟨e', events⟩⟩ := events
    · simp [Truncates, keptSeparation, gaps]
    · simp [Truncates, keptSeparation, gaps, samplesOf]
    · simp at hfew
  · exact hzero

theorem inOrder_of_sorted {events : List SchedulerEvent} (h : ListScheduler.Sorted events)
    (hts : ∀ e ∈ events, e.key.ts < 2 ^ 63) : InOrder events where
  increasing := by
    refine h.increasing.imp (fun {a b} hlt => ?_)
    rcases EventKey.rank_lt_iff.mp hlt with hlt | ⟨heq, -⟩
    · exact hlt.le
    · exact heq.le
  early := hts

/-- The events that a legal call on time leaves are those a resize samples. -/
theorem Holds.stored_inOrder {s : CalendarScheduler} {events : List SchedulerEvent} {clock : ℕ}
    (h : s.Holds events clock) {call : SchedulerCall} (hl : call.Legal events)
    (hts : ∀ ev, call = .insert ev → ev.key.ts < 2 ^ 63) : InOrder (call.stored events) := by
  apply inOrder_of_sorted (h.stores.sorted.stored hl)
  intro e he
  cases call with
  | insert ev =>
    rcases List.mem_cons.mp ((ListScheduler.insert_perm ev events).subset he) with rfl | he
    · exact hts e rfl
    · exact h.cursor.future e he
  | remove ev => exact h.cursor.future e (List.mem_of_mem_erase he)
  | peekNext => exact h.cursor.future e he
  | removeNext => exact h.cursor.future e (List.mem_of_mem_tail he)

/-- The two divisors of `Hash` and of `Init`. -/
def Divisible (r : SchedulerRun CalendarScheduler) : Prop :=
  ∃ s, r.scheduler = some s ∧ 1 ≤ s.width ∧ 1 ≤ s.nBuckets

/-- A call that resizes samples no events whose width is cut to zero. -/
def KeepsWidth (r : SchedulerRun CalendarScheduler) (call : SchedulerCall) : Prop :=
  ∀ s, r.scheduler = some s → call.Legal r.events →
    Resizes s.nBuckets (call.stored r.events).length call →
      ¬Truncates ((call.stored r.events).take (samplesOf (call.stored r.events).length))

instance (r : SchedulerRun CalendarScheduler) (call : SchedulerCall) :
    Decidable (KeepsWidth r call) :=
  match h : r.scheduler with
  | none => .isTrue (by simp [KeepsWidth, h])
  | some s => decidable_of_iff
      (call.Legal r.events → Resizes s.nBuckets (call.stored r.events).length call →
        ¬Truncates ((call.stored r.events).take (samplesOf (call.stored r.events).length)))
      (by simp [KeepsWidth, h])

/-- The invariant of `refines`. -/
def Running (r : SchedulerRun CalendarScheduler) : Prop :=
  ∃ s, r.scheduler = some s ∧ s.Holds r.events r.clock

theorem Running.divisible {r : SchedulerRun CalendarScheduler} (h : Running r) : Divisible r := by
  obtain ⟨s, hs, h⟩ := h
  exact ⟨s, hs, h.table.width_pos, h.table.pos⟩

/-- A legal call on time leaves a width of zero exactly where it resizes to one. -/
theorem Running.step {r : SchedulerRun CalendarScheduler} {call : SchedulerCall} (h : Running r)
    (hts : call.OnTime 63 r) (hl : call.Legal r.events) :
    ∃ t r', SchedulerRun.step calendarScheduler r call = some r' ∧ r'.scheduler = some t ∧
      (t.width = 0 ↔ ¬KeepsWidth r call) ∧ (t.width ≠ 0 → Running r') := by
  obtain ⟨s, hs, h⟩ := h
  obtain ⟨t, hrun, ht⟩ := apply_spec h hl (by rintro ev rfl; exact hts)
  have hbind : r.scheduler.bind (fun s => calendarScheduler.apply s call) =
      some (call.answer r.events, t) := by rw [hs]; exact hrun
  have hstep := SchedulerRun.step_of_legal (S := calendarScheduler) h.stores.sorted hl
  rw [hbind] at hstep
  refine ⟨t, _, hstep, rfl, ?_, fun hne => ⟨t, rfl, ht.holds hne⟩⟩
  have horder := h.stored_inOrder hl (by rintro ev rfl; exact hts.2)
  rw [ht.zero_iff, horder.sampledWidth_eq_zero_iff]
  constructor
  · rintro ⟨hresizes, hcut⟩ hkeeps
    exact hkeeps s hs hl hresizes hcut
  · intro hno
    simp only [KeepsWidth, not_forall, not_not] at hno
    obtain ⟨s', hs', -, hresizes, hcut⟩ := hno
    obtain rfl := Option.some.inj (hs.symm.trans hs')
    exact ⟨hresizes, hcut⟩

theorem KeepsWidth.of_illegal {r : SchedulerRun CalendarScheduler} {call : SchedulerCall}
    (h : ¬call.Legal r.events) : KeepsWidth r call := fun _ _ hl => absurd hl h

/-- The calendar divides by zero in no state of exactly those runs in which no resize samples
events whose width is lost in 32 bits, and these are all the samples with a width of zero. -/
theorem divisible_iff (calls : List SchedulerCall)
    (hok : Allowed (SchedulerRun.step calendarScheduler) (fun r call => call.OnTime 63 r)
      (SchedulerRun.start calendarScheduler) calls) :
    (Always (SchedulerRun.step calendarScheduler) Divisible
        (SchedulerRun.start calendarScheduler) calls ↔
      Allowed (SchedulerRun.step calendarScheduler) KeepsWidth
        (SchedulerRun.start calendarScheduler) calls) ∧
      ∀ samples, InOrder samples → (averageWidth samples.length samples ≠ 0 ↔
        ¬Truncates samples) := by
  refine ⟨?_, fun samples h => not_congr h.averageWidth_eq_zero_iff⟩
  refine always_iff_allowed_of_legal (fun _ => Running.divisible) ?_ ?_
    ⟨empty, rfl, empty_holds⟩ hok
  · intro r call r' h hts hkeeps hstep
    have hl : call.Legal r.events := by
      obtain ⟨s, hs, h⟩ := h
      exact (SchedulerRun.step_cases h.stores.sorted hstep).1
    obtain ⟨t, r'', hstep', -, hzero, hrunning⟩ := h.step hts hl
    obtain rfl := Option.some.inj (hstep.symm.trans hstep')
    exact hrunning (fun h0 => hzero.mp h0 hkeeps)
  · intro r call h hts hno
    have hl : call.Legal r.events := by
      by_contra hl
      exact hno (KeepsWidth.of_illegal hl)
    obtain ⟨t, r', hstep, ht, hzero, -⟩ := h.step hts hl
    refine ⟨r', hstep, ?_⟩
    rintro ⟨s, hs, hwidth, -⟩
    obtain rfl := Option.some.inj (ht.symm.trans hs)
    have := hzero.mpr hno
    omega

/-- Six insertions, which double the buckets, and three samples. -/
theorem divisible_six :
    Always (SchedulerRun.step calendarScheduler) Divisible (SchedulerRun.start calendarScheduler)
        ([4, 9, 2, 30, 7, 7].zipIdx.map (fun p => SchedulerCall.insert ⟨p.2, ⟨p.1, p.2, 0⟩⟩) ++
          [.removeNext, .removeNext]) ∧
      averageWidth 3 [⟨1, ⟨5, 1, 0⟩⟩, ⟨2, ⟨7, 2, 0⟩⟩, ⟨3, ⟨2 ^ 32, 3, 0⟩⟩] ≠ 0 :=
  (divisible_iff _ (by decide +kernel)).imp (fun h => h.mpr (by decide +kernel)) fun h =>
    (h [⟨1, ⟨5, 1, 0⟩⟩, ⟨2, ⟨7, 2, 0⟩⟩, ⟨3, ⟨2 ^ 32, 3, 0⟩⟩]
      ⟨by decide +kernel, by decide +kernel⟩).mpr (by decide +kernel)

/-- Five events at multiples of 2^30: the table doubles, and the new width is zero. -/
theorem not_divisible :
    ¬∀ calls, Allowed (SchedulerRun.step calendarScheduler) (fun r call => call.OnTime 63 r)
        (SchedulerRun.start calendarScheduler) calls →
      Always (SchedulerRun.step calendarScheduler) Divisible
        (SchedulerRun.start calendarScheduler) calls := by
  intro h
  have hrun : (run (SchedulerRun.step calendarScheduler) (SchedulerRun.start calendarScheduler)
      [.insert ⟨1, ⟨0, 1, 0⟩⟩, .insert ⟨2, ⟨2 ^ 30, 2, 0⟩⟩, .insert ⟨3, ⟨2 * 2 ^ 30, 3, 0⟩⟩,
        .insert ⟨4, ⟨3 * 2 ^ 30, 4, 0⟩⟩, .insert ⟨5, ⟨4 * 2 ^ 30, 5, 0⟩⟩]).map
      (fun r => r.scheduler.map (fun s => (s.width, s.nBuckets))) = some (some (0, 4)) := by
    decide +kernel
  obtain ⟨r, hr, hwidth⟩ := Option.map_eq_some_iff.mp hrun
  obtain ⟨t, ht, hzero⟩ := Option.map_eq_some_iff.mp hwidth
  obtain ⟨s, hs, hpos, -⟩ := (h _ (by decide +kernel)).last hr
  obtain rfl := Option.some.inj (ht.symm.trans hs)
  rw [(Prod.mk.inj hzero).1] at hpos
  exact absurd hpos (by decide)

end Ns3Noc.CalendarScheduler
