import Mathlib.Tactic.NormNum
import Mathlib.Tactic.Positivity
import Ns3Noc.DefaultSimulatorImpl

/-!
# Runs of the simulator

The list holds exactly those events that lie after the current time stamp and uid, apart from the
removed ones, and a flag is set exactly where an event was called off in time.
-/
namespace Ns3Noc

theorem signed_of_bounds {bits : ℕ} {x : ℤ} (hb : 0 < bits) (h0 : 0 ≤ x)
    (h : x < 2 ^ (bits - 1)) : signed bits x = x := by
  obtain ⟨k, rfl⟩ : ∃ k, bits = k + 1 := ⟨bits - 1, by omega⟩
  rw [Nat.add_sub_cancel] at h
  apply Int.bmod_eq_of_le_mul_two
  · have : (0 : ℤ) < ((2 ^ (k + 1) : ℕ) : ℤ) := by positivity
    omega
  · push_cast
    rw [pow_succ]
    omega

theorem timeStep_of_lt {ts : ℕ} (h : ts < 2 ^ 63) : timeStep ts = ts * 2 ^ 64 := by
  rw [timeStep, signed_of_bounds (by norm_num) (by positivity) (by exact_mod_cast h)]

theorem toUint64_of_bounds {x : ℤ} (h0 : 0 ≤ x) (h : x < 2 ^ 64) : (toUint64 x : ℤ) = x := by
  rw [toUint64, Int.emod_eq_of_lt h0 h, Int.toNat_of_nonneg h0]

theorem getTimeStep_of_bounds {time : ℤ} (h0 : 0 ≤ time) (h : time < 2 ^ 63 * 2 ^ 64) :
    getTimeStep time = time / 2 ^ 64 := by
  have hdiv : time.tdiv (2 ^ 64) = time / 2 ^ 64 := Int.tdiv_eq_ediv_of_nonneg h0
  rw [getTimeStep, hdiv]
  apply signed_of_bounds (by norm_num)
  · omega
  · omega

namespace DefaultSimulatorImpl
variable {σ : Type} {S : Scheduler σ} {d : DefaultSimulatorImpl σ}

/-- The time stamp of an event with the given delay. -/
theorem schedule_eq {time : ℤ} {event : ℕ} (h0 : 0 ≤ time) (hts : d.currentTs < 2 ^ 63)
    (h : time + d.currentTs * 2 ^ 64 < 2 ^ 63 * 2 ^ 64) :
    d.schedule S time event =
      d.insertEvent S (d.currentTs + (time / 2 ^ 64).toNat) d.getContext event := by
  have hpos : 0 ≤ time + d.currentTs * 2 ^ 64 := by omega
  have habs : signed 128 (time + timeStep d.currentTs) = time + d.currentTs * 2 ^ 64 := by
    rw [timeStep_of_lt hts]
    exact signed_of_bounds (by norm_num) hpos (by omega)
  have hstep : toUint64 (getTimeStep (time + d.currentTs * 2 ^ 64)) =
      d.currentTs + (time / 2 ^ 64).toNat := by
    rw [getTimeStep_of_bounds hpos h]
    have := toUint64_of_bounds (x := (time + d.currentTs * 2 ^ 64) / 2 ^ 64) (by omega) (by omega)
    omega
  simp only [schedule, habs, hstep]
  rw [if_pos]
  rw [timeStep_of_lt hts]
  exact ⟨hpos, by omega⟩

theorem scheduleWithContext_ts {time : ℤ} (h0 : 0 ≤ time)
    (h : time + d.currentTs * 2 ^ 64 < 2 ^ 63 * 2 ^ 64) :
    toUint64 (d.currentTs + getTimeStep time) = d.currentTs + (time / 2 ^ 64).toNat := by
  rw [getTimeStep_of_bounds h0 (by omega)]
  have := toUint64_of_bounds (x := d.currentTs + time / 2 ^ 64) (by omega) (by omega)
  omega

/-- The key of the running event: what is after it has not run. -/
def current (d : DefaultSimulatorImpl σ) : ℕ ×ₗ ℕ := toLex (d.currentTs, d.currentUid)

theorem rank_le_current_iff {ev : SchedulerEvent} :
    ev.rank ≤ d.current ↔
      ev.key.ts < d.currentTs ∨ ev.key.ts = d.currentTs ∧ ev.key.uid ≤ d.currentUid := by
  rw [SchedulerEvent.rank, EventKey.rank, current, Prod.Lex.toLex_le_toLex]

/-- `IsExpired` compares with the current key and asks the flag. -/
theorem isExpired_iff {id : EventId} {impl : ℕ} (himpl : id.impl = some impl) (huid : id.uid ≠ 2) :
    d.isExpired id = true ↔
      (SimulatorRun.eventOf id).rank ≤ d.current ∨ d.isCancelled impl = true := by
  rw [isExpired, himpl]
  simp only [if_neg huid, rank_le_current_iff, SimulatorRun.eventOf, Bool.or_eq_true,
    Bool.and_eq_true, decide_eq_true_eq, beq_iff_eq]

/-- A new object is not cancelled. -/
theorem getD_append_false (flags : List Bool) (i : ℕ) :
    (flags ++ [false]).getD i false = flags.getD i false := by
  rw [List.getD_eq_getElem?_getD, List.getD_eq_getElem?_getD, List.getElem?_append]
  split
  · rfl
  · rename_i hi
    rw [List.getElem?_eq_none (Nat.not_lt.mp hi)]
    cases h : i - flags.length with
    | zero => rfl
    | succ k => rfl

/-- `EventImpl::Cancel` sets one flag. -/
theorem isCancelled_cancelImpl {impl i : ℕ} (h : impl < d.eventImpls.length) :
    (d.cancelImpl impl).isCancelled i = true ↔ i = impl ∨ d.isCancelled i = true := by
  rw [isCancelled, cancelImpl, List.getD_eq_getElem?_getD]
  by_cases hi : i = impl
  · subst hi
    simp [h]
  · rw [List.getElem?_set_ne (Ne.symm hi), isCancelled, List.getD_eq_getElem?_getD]
    simp [hi]

end DefaultSimulatorImpl

namespace SimulatorRun
open DefaultSimulatorImpl
variable {σ : Type} {S : OrderedScheduler σ} {r r' : SimulatorRun σ}

/-- Called off through some id. -/
def CalledOff (r : SimulatorRun σ) (uid : ℕ) : Prop := ∃ id ∈ r.calledOff, id.uid = uid

/-- What every legal step keeps. -/
structure Inv (S : OrderedScheduler σ) (r : SimulatorRun σ) : Prop where
  valid : S.Valid r.simulator.events
  numbered : ∀ (i : ℕ) ev, r.scheduled[i]? = some ev → ev.impl = i ∧ ev.key.uid = i + 4
  impls : r.simulator.eventImpls.length = r.scheduled.length
  uid : r.simulator.uid = r.scheduled.length + 4
  few : r.scheduled.length < 2 ^ 32 - 5
  times : r.simulator.currentTs < 2 ^ 63
  late : ∀ ev ∈ r.scheduled, ev.key.ts < 2 ^ 63
  stored : ∀ ev ∈ S.stored r.simulator.events, ev ∈ r.scheduled
  future : ∀ ev ∈ S.stored r.simulator.events, r.simulator.current < ev.rank
  past : ∀ ev ∈ r.scheduled, ev ∉ S.stored r.simulator.events →
    ev.rank ≤ r.simulator.current ∨ r.simulator.isCancelled ev.impl = true
  currentUid : r.simulator.currentUid < r.simulator.uid
  ids : ∀ id ∈ r.ids, id.impl = some (eventOf id).impl ∧ eventOf id ∈ r.scheduled
  invoked : ∀ ev ∈ r.invoked, ev ∈ r.scheduled ∧ ev.rank ≤ r.simulator.current ∧
    r.simulator.isCancelled ev.impl = false
  started : ∀ ev ∈ r.scheduled, ev.rank ≤ r.simulator.current →
    r.simulator.isCancelled ev.impl = false → ev ∈ r.invoked
  calledOff : ∀ ev ∈ r.scheduled,
    (r.simulator.isCancelled ev.impl = true ↔ r.CalledOff ev.key.uid)
  named : ∀ id ∈ r.calledOff, eventOf id ∈ r.scheduled
  increasing : r.invoked.Pairwise (fun a b => a.rank < b.rank)
  running : ∀ ev, r.running = some ev → ev.key.ts = r.simulator.currentTs
  unscheduled : r.simulator.unscheduledEvents = signed 32 (S.stored r.simulator.events).card

theorem inv_start (S : OrderedScheduler σ) : Inv S (start S.toScheduler) where
  valid := S.valid_empty
  numbered i ev h := by simp [start] at h
  impls := rfl
  uid := rfl
  few := by simp [start]
  times := by simp [start]
  late ev h := by simp [start] at h
  stored ev h := by simp [start, S.stored_empty] at h
  future ev h := by simp [start, S.stored_empty] at h
  past ev h := by simp [start] at h
  currentUid := by simp [start]
  ids id h := by simp [start] at h
  invoked ev h := by simp [start] at h
  started ev h := by simp [start] at h
  calledOff ev h := by simp [start] at h
  named id h := by simp [start] at h
  increasing := List.Pairwise.nil
  running ev h := by simp [start] at h
  unscheduled := by simp [start, S.stored_empty, signed]

/-- The uid and the object of an event tell its place among the scheduled ones. -/
theorem Inv.place (h : Inv S r) {ev : SchedulerEvent} (hev : ev ∈ r.scheduled) :
    r.scheduled[ev.impl]? = some ev ∧ ev.key.uid = ev.impl + 4 ∧ ev.impl < r.scheduled.length := by
  obtain ⟨i, hi, rfl⟩ := List.mem_iff_getElem.mp hev
  obtain ⟨himpl, huid⟩ := h.numbered i _ (List.getElem?_eq_getElem hi)
  exact ⟨by rw [himpl, List.getElem?_eq_getElem hi], by rw [himpl, huid], by omega⟩

theorem Inv.eq_of_uid (h : Inv S r) {a b : SchedulerEvent} (ha : a ∈ r.scheduled)
    (hb : b ∈ r.scheduled) (huid : a.key.uid = b.key.uid) : a = b := by
  obtain ⟨hpa, hua, -⟩ := h.place ha
  obtain ⟨hpb, hub, -⟩ := h.place hb
  have himpl : a.impl = b.impl := by omega
  rw [himpl, hpb] at hpa
  exact (Option.some.inj hpa).symm

theorem Inv.eq_of_rank (h : Inv S r) {a b : SchedulerEvent} (ha : a ∈ r.scheduled)
    (hb : b ∈ r.scheduled) (hrank : a.rank = b.rank) : a = b :=
  h.eq_of_uid ha hb (EventKey.rank_eq_iff.mp hrank).2

theorem Inv.isExpired_iff (h : Inv S r) {id : EventId} (hid : id ∈ r.ids) :
    r.simulator.isExpired id = true ↔ r.Started id ∨ r.CalledOff id.uid := by
  obtain ⟨himpl, hev⟩ := h.ids id hid
  have huid : id.uid ≠ 2 := by
    have hplace : id.uid = _ := (h.place hev).2.1
    omega
  rw [DefaultSimulatorImpl.isExpired_iff himpl huid, h.calledOff _ hev]
  constructor
  · rintro (hpast | hoff)
    · by_cases hc : r.simulator.isCancelled (eventOf id).impl = true
      · exact Or.inr ((h.calledOff _ hev).mp hc)
      · exact Or.inl ⟨_, h.started _ hev hpast (Bool.eq_false_iff.mpr hc), rfl⟩
    · exact Or.inr hoff
  · rintro (⟨ev, hinv, heq⟩ | hoff)
    · obtain ⟨hsched, hpast, -⟩ := h.invoked ev hinv
      exact Or.inl (h.eq_of_uid hsched hev heq ▸ hpast)
    · exact Or.inr hoff

theorem Inv.stored_uid (h : Inv S r) {ev : SchedulerEvent}
    (hev : ev ∈ S.stored r.simulator.events) : ev.key.uid ≠ r.simulator.uid := by
  obtain ⟨-, huid, hlt⟩ := h.place (h.stored ev hev)
  have := h.uid
  omega

/-- What the schedule functions do to the simulator. -/
structure Inserted (S : OrderedScheduler σ) (d d' : DefaultSimulatorImpl σ)
    (new : SchedulerEvent) : Prop where
  valid : S.Valid d'.events
  stored : S.stored d'.events = insert new (S.stored d.events)
  uid : d'.uid = (d.uid + 1) % 2 ^ 32
  currentUid : d'.currentUid = d.currentUid
  currentTs : d'.currentTs = d.currentTs
  flags : ∀ i, d'.isCancelled i = d.isCancelled i
  impls : d'.eventImpls.length = d.eventImpls.length + 1
  unscheduled : d'.unscheduledEvents = signed 32 (d.unscheduledEvents + 1)

theorem Inserted.current {d d' : DefaultSimulatorImpl σ} {new : SchedulerEvent}
    (h : Inserted S d d' new) : d'.current = d.current := by
  rw [DefaultSimulatorImpl.current, h.currentTs, h.currentUid, ← DefaultSimulatorImpl.current]

theorem insertEvent_spec {d : DefaultSimulatorImpl σ} (hv : S.Valid d.events)
    (hnew : ∀ e ∈ S.stored d.events, e.key.uid ≠ d.uid) (ts context : ℕ) :
    ∃ d', d.makeEvent.2.insertEvent S.toScheduler ts context d.makeEvent.1 =
        some (⟨some d.eventImpls.length, ts, context, d.uid⟩, d') ∧
      Inserted S d d' ⟨d.eventImpls.length, ts, d.uid, context⟩ := by
  obtain ⟨events, hins, hvalid, hstored⟩ :=
    S.insert_spec d.events ⟨d.eventImpls.length, ts, d.uid, context⟩ hv hnew
  have hrun : d.makeEvent.2.insertEvent S.toScheduler ts context d.makeEvent.1 =
      some (⟨some d.eventImpls.length, ts, context, d.uid⟩, { d.makeEvent.2 with
        events := events
        uid := (d.uid + 1) % 2 ^ 32
        unscheduledEvents := signed 32 (d.unscheduledEvents + 1) }) := by
    simp only [insertEvent, makeEvent, hins, Option.bind_eq_bind, Option.bind_some]
  exact ⟨_, hrun, ⟨hvalid, hstored, rfl, rfl, rfl, fun i => getD_append_false _ i,
    by simp [makeEvent], rfl⟩⟩

theorem signed_add_one (n : ℕ) : signed 32 (signed 32 n + 1) = signed 32 ((n + 1 : ℕ) : ℤ) := by
  rw [signed, signed, signed, Int.bmod_add_bmod, Nat.cast_succ]

theorem signed_sub_one {n : ℕ} (h : 0 < n) :
    signed 32 (signed 32 n - 1) = signed 32 ((n - 1 : ℕ) : ℤ) := by
  rw [signed, signed, signed, Int.bmod_sub_bmod, Nat.cast_sub h, Nat.cast_one]

/-- A new event goes into the list behind everything that has run. -/
theorem Inv.inserted (h : Inv S r) {d : DefaultSimulatorImpl σ} {new : SchedulerEvent}
    (hd : Inserted S r.simulator d new) (himpl : new.impl = r.scheduled.length)
    (huid : new.key.uid = r.simulator.uid) (hts : r.simulator.currentTs ≤ new.key.ts)
    (hlate : new.key.ts < 2 ^ 63) (hfew : r.scheduled.length + 1 < 2 ^ 32 - 5) (ids : List EventId)
    (hids : ∀ id ∈ ids, id ∈ r.ids ∨ id.impl = some new.impl ∧ eventOf id = new) :
    Inv S { r with simulator := d, ids := ids, scheduled := r.scheduled ++ [new] } := by
  have hcount := h.uid
  have hlater : r.simulator.current < new.rank := by
    have := h.currentUid
    rw [DefaultSimulatorImpl.current, SchedulerEvent.rank, EventKey.rank, Prod.Lex.toLex_lt_toLex]
    omega
  have hfresh : new ∉ S.stored r.simulator.events := fun hmem => h.stored_uid hmem huid
  have hunset : r.simulator.isCancelled new.impl = false := by
    rw [isCancelled, List.getD_eq_getElem?_getD, List.getElem?_eq_none]
    · rfl
    · rw [h.impls, himpl]
  have hmem : ∀ {ev : SchedulerEvent}, ev ∈ r.scheduled ++ [new] ↔ ev ∈ r.scheduled ∨ ev = new := by
    intro ev
    rw [List.mem_append, List.mem_singleton]
  constructor
  case valid => exact hd.valid
  case numbered =>
    intro i ev hi
    rcases Nat.lt_or_ge i r.scheduled.length with hlt | hge
    · rw [List.getElem?_append_left hlt] at hi
      exact h.numbered i ev hi
    · rw [List.getElem?_append_right hge, List.getElem?_singleton] at hi
      split at hi
      · obtain rfl := Option.some.inj hi
        omega
      · cases hi
  case impls => rw [hd.impls, h.impls, List.length_append, List.length_singleton]
  case uid =>
    rw [hd.uid, List.length_append, List.length_singleton]
    omega
  case few =>
    rw [List.length_append, List.length_singleton]
    exact hfew
  case times => exact hd.currentTs ▸ h.times
  case late =>
    intro ev hev
    rcases hmem.mp hev with hev | rfl
    · exact h.late ev hev
    · exact hlate
  case stored =>
    intro ev hev
    rw [hd.stored, Finset.mem_insert] at hev
    rcases hev with rfl | hev
    · exact hmem.mpr (Or.inr rfl)
    · exact hmem.mpr (Or.inl (h.stored ev hev))
  case future =>
    intro ev hev
    rw [hd.stored, Finset.mem_insert] at hev
    rw [hd.current]
    rcases hev with rfl | hev
    · exact hlater
    · exact h.future ev hev
  case past =>
    intro ev hev hout
    rw [hd.stored, Finset.mem_insert, not_or] at hout
    rw [hd.current, hd.flags]
    rcases hmem.mp hev with hev | rfl
    · exact h.past ev hev hout.2
    · exact absurd rfl hout.1
  case currentUid =>
    rw [hd.currentUid, hd.uid]
    have := h.currentUid
    omega
  case ids =>
    intro id hid
    rcases hids id hid with hid | ⟨hsome, heq⟩
    · obtain ⟨hsome, hev⟩ := h.ids id hid
      exact ⟨hsome, hmem.mpr (Or.inl hev)⟩
    · exact ⟨by rw [heq]; exact hsome, hmem.mpr (Or.inr heq)⟩
  case invoked =>
    intro ev hev
    obtain ⟨hsched, hpast, hflag⟩ := h.invoked ev hev
    exact ⟨hmem.mpr (Or.inl hsched), by rw [hd.current]; exact hpast, by rw [hd.flags]; exact hflag⟩
  case started =>
    intro ev hev hpast hflag
    rw [hd.current] at hpast
    rw [hd.flags] at hflag
    rcases hmem.mp hev with hev | rfl
    · exact h.started ev hev hpast hflag
    · exact absurd hpast (not_le.mpr hlater)
  case calledOff =>
    intro ev hev
    rw [hd.flags]
    rcases hmem.mp hev with hev | rfl
    · exact h.calledOff ev hev
    · rw [hunset]
      refine iff_of_false Bool.false_ne_true ?_
      rintro ⟨id, hid, heq⟩
      obtain ⟨-, hold, hlt⟩ := h.place (h.named id hid)
      have hsame : (eventOf id).key.uid = id.uid := rfl
      omega
  case named => exact fun id hid => hmem.mpr (Or.inl (h.named id hid))
  case increasing => exact h.increasing
  case running =>
    intro ev hev
    rw [hd.currentTs]
    exact h.running ev hev
  case unscheduled =>
    rw [hd.unscheduled, h.unscheduled, hd.stored, Finset.card_insert_of_notMem hfresh,
      signed_add_one]

/-- Taking the least event off the list moves the current key to it. -/
theorem Inv.processed (h : Inv S r) {next : SchedulerEvent} {events : σ}
    (hnext : next ∈ S.stored r.simulator.events)
    (hleast : ∀ e ∈ S.stored r.simulator.events, next.rank ≤ e.rank) (hv : S.Valid events)
    (hs : S.stored events = (S.stored r.simulator.events).erase next) :
    Inv S { r with
      simulator := { r.simulator with
        events := events
        unscheduledEvents := signed 32 (r.simulator.unscheduledEvents - 1)
        currentTs := next.key.ts
        currentContext := next.key.context
        currentUid := next.key.uid }
      invoked := if !r.simulator.isCancelled next.impl then r.invoked ++ [next] else r.invoked
      running := if !r.simulator.isCancelled next.impl then some next else none } := by
  have hsched := h.stored next hnext
  have hfuture := h.future next hnext
  have hinvoked : ∀ ev, ev ∈ (if !r.simulator.isCancelled next.impl then r.invoked ++ [next]
      else r.invoked) ↔ ev ∈ r.invoked ∨ ev = next ∧ r.simulator.isCancelled next.impl = false := by
    intro ev
    cases r.simulator.isCancelled next.impl <;> simp
  constructor
  case valid => exact hv
  case numbered => exact h.numbered
  case impls => exact h.impls
  case uid => exact h.uid
  case few => exact h.few
  case times => exact h.late next hsched
  case late => exact h.late
  case stored =>
    intro ev hev
    rw [hs] at hev
    exact h.stored ev (Finset.mem_of_mem_erase hev)
  case future =>
    intro ev hev
    rw [hs, Finset.mem_erase] at hev
    refine lt_of_le_of_ne (hleast ev hev.2) (fun heq => hev.1 ?_)
    exact (h.eq_of_rank hsched (h.stored ev hev.2) heq).symm
  case past =>
    intro ev hev hout
    rw [hs, Finset.mem_erase, not_and_or, not_not] at hout
    rcases hout with rfl | hout
    · exact Or.inl le_rfl
    · exact (h.past ev hev hout).imp_left (fun hpast => hpast.trans hfuture.le)
  case currentUid =>
    have := h.uid
    have := h.place hsched
    show next.key.uid < r.simulator.uid
    omega
  case ids => exact h.ids
  case invoked =>
    intro ev hev
    rcases (hinvoked ev).mp hev with hev | ⟨rfl, hflag⟩
    · obtain ⟨hmem, hpast, hflag⟩ := h.invoked ev hev
      exact ⟨hmem, hpast.trans hfuture.le, hflag⟩
    · exact ⟨hsched, le_rfl, hflag⟩
  case started =>
    -- an event up to the new key is an old one, or the least one itself
    intro ev hev hpast hflag
    have hunset : r.simulator.isCancelled ev.impl = false := hflag
    apply (hinvoked ev).mpr
    by_cases hold : ev.rank ≤ r.simulator.current
    · exact Or.inl (h.started ev hev hold hunset)
    · have hin : ev ∈ S.stored r.simulator.events := by
        by_contra hout
        rcases h.past ev hev hout with hpast' | hset
        · exact hold hpast'
        · rw [hset] at hunset
          cases hunset
      obtain rfl := h.eq_of_rank hev hsched (le_antisymm hpast (hleast ev hin))
      exact Or.inr ⟨rfl, hunset⟩
  case calledOff => exact h.calledOff
  case named => exact h.named
  case increasing =>
    show (if !r.simulator.isCancelled next.impl then r.invoked ++ [next] else r.invoked).Pairwise _
    split
    · refine List.pairwise_append.mpr ⟨h.increasing, List.pairwise_singleton _ _, ?_⟩
      intro a ha b hb
      rw [List.mem_singleton.mp hb]
      exact (h.invoked a ha).2.1.trans_lt hfuture
    · exact h.increasing
  case running =>
    intro ev hev
    simp only at hev
    split at hev
    · rw [← Option.some.inj hev]
    · cases hev
  case unscheduled =>
    show signed 32 (r.simulator.unscheduledEvents - 1) = _
    rw [h.unscheduled, signed_sub_one (Finset.card_pos.mpr ⟨next, hnext⟩), hs,
      Finset.card_erase_of_mem hnext]

/-- A call for an event that has started or was called off before changes nothing. -/
theorem Inv.ignored (h : Inv S r) {id : EventId} (hid : id ∈ r.ids)
    (hexp : r.simulator.isExpired id = true) : Inv S { r with calledOff := r.callOff id } := by
  by_cases hstarted : r.Started id
  · rw [callOff, if_pos hstarted]
    exact h
  · rw [callOff, if_neg hstarted]
    have hoff : r.CalledOff id.uid := ((h.isExpired_iff hid).mp hexp).resolve_left hstarted
    refine { h with calledOff := ?_, named := ?_ }
    · intro ev hev
      rw [h.calledOff ev hev]
      constructor
      · rintro ⟨id', hid', heq⟩
        exact ⟨id', List.mem_cons_of_mem id hid', heq⟩
      · rintro ⟨id', hid', heq⟩
        rcases List.mem_cons.mp hid' with rfl | hid'
        · exact heq ▸ hoff
        · exact ⟨id', hid', heq⟩
    · intro id' hid'
      rcases List.mem_cons.mp hid' with rfl | hid'
      · exact (h.ids id' hid).2
      · exact h.named id' hid'

/-- The flag of an event that has not started is set. -/
theorem Inv.flagged (h : Inv S r) {id : EventId} (hid : id ∈ r.ids)
    (hexp : r.simulator.isExpired id = false) :
    Inv S { r with
      simulator := r.simulator.cancelImpl (eventOf id).impl, calledOff := r.callOff id } := by
  obtain ⟨hsome, hev⟩ := h.ids id hid
  have hlive := mt (h.isExpired_iff hid).mpr (Bool.eq_false_iff.mp hexp)
  rw [not_or] at hlive
  rw [callOff, if_neg hlive.1]
  have hlt : (eventOf id).impl < r.simulator.eventImpls.length := h.impls ▸ (h.place hev).2.2
  have hflag : ∀ i, (r.simulator.cancelImpl (eventOf id).impl).isCancelled i = true ↔
      i = (eventOf id).impl ∨ r.simulator.isCancelled i = true :=
    fun i => isCancelled_cancelImpl hlt
  have hunset : ∀ {ev}, ev ∈ r.scheduled →
      ((r.simulator.cancelImpl (eventOf id).impl).isCancelled ev.impl = false ↔
        ev ≠ eventOf id ∧ r.simulator.isCancelled ev.impl = false) := by
    intro ev hmem
    rw [← Bool.not_eq_true, hflag, not_or, Bool.not_eq_true]
    refine and_congr_left' (not_congr ⟨fun himpl => ?_, fun heq => congrArg _ heq⟩)
    have hu := (h.place hmem).2.1
    have hu' := (h.place hev).2.1
    exact h.eq_of_uid hmem hev (by omega)
  refine { h with impls := ?_, past := ?_, invoked := ?_, started := ?_, calledOff := ?_, named := ?_ }
  · rw [cancelImpl, List.length_set, h.impls]
  · intro ev hmem hout
    exact (h.past ev hmem hout).imp_right (fun hset => (hflag _).mpr (Or.inr hset))
  · intro ev hmem
    obtain ⟨hsched, hpast, hold⟩ := h.invoked ev hmem
    refine ⟨hsched, hpast, (hunset hsched).mpr ⟨?_, hold⟩⟩
    rintro rfl
    exact hlive.1 ⟨_, hmem, rfl⟩
  · intro ev hmem hpast hnew
    exact h.started ev hmem hpast ((hunset hmem).mp hnew).2
  · intro ev hmem
    rw [hflag, h.calledOff ev hmem]
    constructor
    · rintro (himpl | ⟨id', hid', heq⟩)
      · have hu := (h.place hmem).2.1
        have hu' : id.uid = _ := (h.place hev).2.1
        exact ⟨id, List.mem_cons_self, by omega⟩
      · exact ⟨id', List.mem_cons_of_mem id hid', heq⟩
    · rintro ⟨id', hid', heq⟩
      rcases List.mem_cons.mp hid' with rfl | hid'
      · exact Or.inl (congrArg _ (h.eq_of_uid hmem hev heq.symm))
      · exact Or.inr ⟨id', hid', heq⟩
  · intro id' hid'
    rcases List.mem_cons.mp hid' with rfl | hid'
    · exact hev
    · exact h.named id' hid'

/-- A cancelled event leaves the list. -/
theorem Inv.dropped (h : Inv S r) {ev : SchedulerEvent} {events : σ}
    (hev : ev ∈ S.stored r.simulator.events) (hset : r.simulator.isCancelled ev.impl = true)
    (hv : S.Valid events) (hs : S.stored events = (S.stored r.simulator.events).erase ev) :
    Inv S { r with simulator := { r.simulator with
      events := events
      unscheduledEvents := signed 32 (r.simulator.unscheduledEvents - 1) } } := by
  refine { h with valid := hv, stored := ?_, future := ?_, past := ?_, unscheduled := ?_ }
  · intro e he
    rw [hs] at he
    exact h.stored e (Finset.mem_of_mem_erase he)
  · intro e he
    rw [hs] at he
    exact h.future e (Finset.mem_of_mem_erase he)
  · intro e he hout
    rw [hs, Finset.mem_erase, not_and_or, not_not] at hout
    rcases hout with rfl | hout
    · exact Or.inr hset
    · exact h.past e he hout
  · show signed 32 (r.simulator.unscheduledEvents - 1) = _
    rw [h.unscheduled, signed_sub_one (Finset.card_pos.mpr ⟨ev, hev⟩), hs,
      Finset.card_erase_of_mem hev]

/-- A schedule function with the given event succeeds. -/
theorem Inv.scheduled_spec (h : Inv S r) (ts : ℕ) {context : ℕ} (hts : r.simulator.currentTs ≤ ts)
    (hlate : ts < 2 ^ 63) (hfew : r.scheduled.length + 1 < 2 ^ 32 - 5) :
    ∃ d, r.simulator.makeEvent.2.insertEvent S.toScheduler ts context r.simulator.makeEvent.1 =
        some (⟨some r.simulator.eventImpls.length, ts, context, r.simulator.uid⟩, d) ∧
      d.currentTs = r.simulator.currentTs ∧
      ∀ ids : List EventId, (∀ id ∈ ids, id ∈ r.ids ∨
          id = ⟨some r.simulator.eventImpls.length, ts, context, r.simulator.uid⟩) →
        Inv S { r with simulator := d, ids := ids, scheduled := r.scheduled ++
          [⟨r.simulator.eventImpls.length, ts, r.simulator.uid, context⟩] } := by
  obtain ⟨d, hrun, hd⟩ := insertEvent_spec h.valid (fun e he => h.stored_uid he) ts context
  refine ⟨d, hrun, hd.currentTs, fun ids hids => ?_⟩
  apply h.inserted hd h.impls rfl hts hlate hfew
  intro id hid
  refine (hids id hid).imp_right ?_
  rintro rfl
  exact ⟨rfl, rfl⟩

/-- A legal step succeeds, keeps the invariant and never sets the clock back. -/
theorem Inv.step (h : Inv S r) {l : SimulatorStep} (hl : Legal S.toScheduler r l) :
    ∃ r', step S.toScheduler r l = some r' ∧ Inv S r' ∧
      r.simulator.currentTs ≤ r'.simulator.currentTs := by
  cases l with
  | processOneEvent =>
    have hne : S.stored r.simulator.events ≠ ∅ := by
      intro hempty
      rw [Legal, (S.isEmpty_iff _ h.valid).mpr hempty] at hl
      cases hl
    obtain ⟨next, events, hrun, hnext, hleast, hv, hs⟩ := S.removeNext_spec _ h.valid hne
    have hts : r.simulator.currentTs ≤ next.key.ts := by
      have hlt := h.future next hnext
      rw [DefaultSimulatorImpl.current, SchedulerEvent.rank, EventKey.rank,
        Prod.Lex.toLex_lt_toLex] at hlt
      omega
    refine ⟨_, ?_, h.processed hnext hleast hv hs, hts⟩
    simp only [SimulatorRun.step, processOneEvent, hrun, Option.bind_eq_bind, Option.bind_some,
      if_pos hts]
  | schedule time =>
    obtain ⟨h0, hlate, hfew⟩ := hl
    obtain ⟨d, hrun, hts, hinv⟩ := h.scheduled_spec
      (r.simulator.currentTs + (time / 2 ^ 64).toNat) (Nat.le_add_right _ _) (by omega) hfew
    have hcall : r.simulator.makeEvent.2.schedule S.toScheduler time r.simulator.makeEvent.1 = _ :=
      (schedule_eq (d := r.simulator.makeEvent.2) h0 h.times hlate).trans hrun
    refine ⟨_, ?_, hinv _ (fun id hid => (List.mem_cons.mp hid).symm), hts.ge⟩
    simp only [SimulatorRun.step, hcall, Option.bind_eq_bind, Option.bind_some]
    rfl
  | scheduleNow =>
    obtain ⟨d, hrun, hts, hinv⟩ := h.scheduled_spec _ le_rfl
      h.times hl
    have hcall : r.simulator.makeEvent.2.scheduleNow S.toScheduler r.simulator.makeEvent.1 = _ :=
      hrun
    refine ⟨_, ?_, hinv _ (fun id hid => (List.mem_cons.mp hid).symm), hts.ge⟩
    simp only [SimulatorRun.step, hcall, Option.bind_eq_bind, Option.bind_some]
    rfl
  | scheduleWithContext context time =>
    obtain ⟨h0, hlate, hfew⟩ := hl
    have hkey := scheduleWithContext_ts h0 hlate
    obtain ⟨d, hrun, hts, hinv⟩ := h.scheduled_spec
      (toUint64 (r.simulator.currentTs + getTimeStep time)) (by omega) (by omega) hfew
    have hcall : r.simulator.makeEvent.2.scheduleWithContext S.toScheduler context time
        r.simulator.makeEvent.1 = some d := congrArg (Option.map Prod.snd) hrun
    refine ⟨_, ?_, hinv r.ids (fun id hid => Or.inl hid), hts.ge⟩
    simp only [SimulatorRun.step, hcall, Option.bind_eq_bind, Option.bind_some]
    rfl
  | cancel id =>
    cases hexp : r.simulator.isExpired id with
    | true =>
      refine ⟨_, ?_, h.ignored hl hexp, le_rfl⟩
      simp only [SimulatorRun.step, cancel, hexp]
      rfl
    | false =>
      refine ⟨_, ?_, h.flagged hl hexp, le_rfl⟩
      simp only [SimulatorRun.step, cancel, hexp, (h.ids id hl).1]
      rfl
  | remove id =>
    obtain ⟨hsome, hev⟩ := h.ids id hl
    have huid : id.uid ≠ 2 := by
      have hplace : id.uid = _ := (h.place hev).2.1
      omega
    cases hexp : r.simulator.isExpired id with
    | true =>
      refine ⟨_, ?_, h.ignored hl hexp, le_rfl⟩
      simp only [SimulatorRun.step, remove, if_neg huid, hexp]
      rfl
    | false =>
      have hlive := mt (DefaultSimulatorImpl.isExpired_iff hsome huid).mpr
        (Bool.eq_false_iff.mp hexp)
      rw [not_or] at hlive
      have hin : eventOf id ∈ S.stored r.simulator.events := by
        by_contra hout
        exact (h.past _ hev hout).elim hlive.1 hlive.2
      obtain ⟨events, hrun, hv, hs⟩ := S.remove_spec _ h.valid _ hin
      have hset : (r.simulator.cancelImpl (eventOf id).impl).isCancelled (eventOf id).impl = true :=
        (isCancelled_cancelImpl (h.impls ▸ (h.place hev).2.2)).mpr (Or.inl rfl)
      refine ⟨_, ?_, (h.flagged hl hexp).dropped hin hset hv hs, le_rfl⟩
      have hcall : S.remove r.simulator.events ⟨(eventOf id).impl, id.ts, id.uid, id.context⟩ =
        some events := hrun
      simp only [SimulatorRun.step, remove, if_neg huid, hexp, hsome, Option.bind_eq_bind,
        Option.bind_some, hcall]
      rfl
  | isExpired id => exact ⟨r, rfl, h, le_rfl⟩

/-- What a user of the simulator sees after any part of a run: handlers start in increasing order
of their keys, hence each at most once, and the assertion at the end of `Run` holds. -/
structure Faithful (S : Scheduler σ) (stored : σ → Finset SchedulerEvent) (r : SimulatorRun σ) :
    Prop where
  increasing : r.invoked.Pairwise (fun a b => a.key.less b.key = true)
  now : ∀ ev, r.running = some ev → r.simulator.now = ev.key.ts * 2 ^ 64
  calledOff : ∀ id ∈ r.calledOff, ¬r.Started id
  others : S.isEmpty r.simulator.events = true → ∀ ev ∈ r.scheduled, ¬r.CalledOff ev.key.uid →
    r.invoked.count ev = 1
  expired : ∀ id ∈ r.ids,
    (r.simulator.isExpired id = true ↔ r.Started id ∨ r.CalledOff id.uid)
  consistent : S.isEmpty r.simulator.events = true → r.simulator.unscheduledEvents = 0
  unscheduled : (stored r.simulator.events).card < 2 ^ 31 →
    r.simulator.unscheduledEvents = (stored r.simulator.events).card

theorem Inv.faithful (h : Inv S r) : Faithful S.toScheduler S.stored r where
  increasing := h.increasing.imp (fun hlt => EventKey.less_iff.mpr hlt)
  now ev hev := by
    rw [now, timeStep_of_lt h.times, h.running ev hev]
  calledOff id hid := by
    rintro ⟨ev, hev, heq⟩
    obtain ⟨hsched, -, hunset⟩ := h.invoked ev hev
    rw [(h.calledOff ev hsched).mpr ⟨id, hid, heq.symm⟩] at hunset
    cases hunset
  others hempty ev hev hnot := by
    have hout : ev ∉ S.stored r.simulator.events := by
      rw [(S.isEmpty_iff _ h.valid).mp hempty]
      exact Finset.notMem_empty ev
    have hunset := mt (h.calledOff ev hev).mp hnot
    have hpast := (h.past ev hev hout).resolve_right hunset
    have hnodup : r.invoked.Nodup := h.increasing.imp (fun hlt heq => hlt.ne (congrArg _ heq))
    exact List.count_eq_one_of_mem hnodup (h.started ev hev hpast (Bool.eq_false_iff.mpr hunset))
  expired id hid := h.isExpired_iff hid
  consistent hempty := by
    rw [h.unscheduled, (S.isEmpty_iff _ h.valid).mp hempty, Finset.card_empty]
    exact signed_of_bounds (by norm_num) le_rfl (by norm_num)
  unscheduled hfew := by
    rw [h.unscheduled]
    have hlt : ((S.stored r.simulator.events).card : ℤ) < 2 ^ 31 := by exact_mod_cast hfew
    exact signed_of_bounds (by norm_num) (Int.natCast_nonneg _) hlt

end SimulatorRun

namespace OrderedScheduler
open PartialRuns SimulatorRun
variable {σ : Type}

/-- No assertion fails on a legal run, and every state it goes through is as a user of the
simulator expects; the clock never goes back. -/
theorem run_faithful (S : OrderedScheduler σ) (steps more : List SimulatorStep)
    (h : Allowed (step S.toScheduler) (Legal S.toScheduler) (start S.toScheduler) (steps ++ more)) :
    ∃ r r', run (step S.toScheduler) (start S.toScheduler) steps = some r ∧
      run (step S.toScheduler) r more = some r' ∧ Faithful S.toScheduler S.stored r ∧
      r.simulator.currentTs ≤ r'.simulator.currentTs := by
  obtain ⟨r, hr, hinv, hmore⟩ := run_of_allowed (fun s l hs hl => by
    obtain ⟨s', hstep, hs', -⟩ := Inv.step hs hl
    exact ⟨s', hstep, hs'⟩) (inv_start S) h
  have hlater : ∀ s l, Inv S s ∧ r.simulator.currentTs ≤ s.simulator.currentTs →
      Legal S.toScheduler s l → ∃ s', step S.toScheduler s l = some s' ∧
        Inv S s' ∧ r.simulator.currentTs ≤ s'.simulator.currentTs := by
    intro s l hs hl
    obtain ⟨s', hstep, hs', hts⟩ := hs.1.step hl
    exact ⟨s', hstep, hs', hs.2.trans hts⟩
  obtain ⟨r', hr', hinv', -⟩ :=
    run_of_allowed hlater ⟨hinv, le_rfl⟩ (by rw [List.append_nil]; exact hmore)
  exact ⟨r, r', hr, hr', hinv.faithful, hinv'.2⟩

/-- Two events for the same time, of which the second is cancelled by the first. -/
theorem run_faithful_cancel :
    ∃ r r', run (step listScheduler) (start listScheduler)
        [.schedule (5 * 2 ^ 64), .schedule (5 * 2 ^ 64), .processOneEvent,
          .cancel ⟨some 1, 5, 0xffffffff, 5⟩] = some r ∧
      run (step listScheduler) r [.processOneEvent] = some r' ∧
      Faithful listScheduler List.toFinset r ∧
      r.simulator.currentTs ≤ r'.simulator.currentTs :=
  run_faithful orderedListScheduler _ _ (by decide +kernel)

/-- A run of `ScheduleNow` calls leaves every event in the list. -/
theorem scheduleNow_run (S : OrderedScheduler σ) (n : ℕ) {r : SimulatorRun σ} (h : Inv S r)
    (hfew : r.scheduled.length + n < 2 ^ 32 - 5) :
    Allowed (step S.toScheduler) (Legal S.toScheduler) r (List.replicate n .scheduleNow) ∧
      ∃ r', run (step S.toScheduler) r (List.replicate n .scheduleNow) = some r' ∧ Inv S r' ∧
        (S.stored r'.simulator.events).card = (S.stored r.simulator.events).card + n := by
  induction n generalizing r with
  | zero => exact ⟨True.intro, r, rfl, h, rfl⟩
  | succ n ih =>
    obtain ⟨d, hrun, hd⟩ := insertEvent_spec h.valid (fun e he => h.stored_uid he)
      r.simulator.currentTs r.simulator.getContext
    have hinv := h.inserted hd h.impls rfl le_rfl h.times (by omega)
      (⟨some r.simulator.eventImpls.length, r.simulator.currentTs, r.simulator.getContext,
        r.simulator.uid⟩ :: r.ids)
      (fun id hid => (List.mem_cons.mp hid).symm.imp_right (by rintro rfl; exact ⟨rfl, rfl⟩))
    have hcall : r.simulator.makeEvent.2.scheduleNow S.toScheduler r.simulator.makeEvent.1 = _ :=
      hrun
    have hstep : step S.toScheduler r .scheduleNow = some { r with
        simulator := d
        ids := ⟨some r.simulator.eventImpls.length, r.simulator.currentTs, r.simulator.getContext,
          r.simulator.uid⟩ :: r.ids
        scheduled := r.scheduled ++ [⟨r.simulator.eventImpls.length, r.simulator.currentTs,
          r.simulator.uid, r.simulator.getContext⟩] } := by
      simp only [step, hcall, Option.bind_eq_bind, Option.bind_some]
      rfl
    obtain ⟨hallowed, r', hr', hinv', hcard⟩ := ih hinv (by
      rw [List.length_append, List.length_singleton]
      omega)
    rw [List.replicate_succ]
    refine ⟨⟨by show r.scheduled.length + 1 < _; omega, fun s hs => ?_⟩, r', ?_, hinv', ?_⟩
    · rw [hstep] at hs
      exact Option.some.inj hs ▸ hallowed
    · rw [run_cons, hstep]
      exact hr'
    · rw [hcard, hd.stored, Finset.card_insert_of_notMem, Nat.add_assoc, Nat.add_comm 1]
      exact fun hmem => h.stored_uid hmem rfl

/-- With `2 ^ 31` events in the list the counter has overflowed. -/
theorem unscheduledEvents_overflow :
    ¬∀ steps, Allowed (step listScheduler) (Legal listScheduler) (start listScheduler) steps →
      ∃ r, run (step listScheduler) (start listScheduler) steps = some r ∧
        r.simulator.unscheduledEvents = r.simulator.events.toFinset.card := by
  intro h
  have hstart : (start listScheduler).scheduled.length + 2 ^ 31 < 2 ^ 32 - 5 := by
    show 0 + 2 ^ 31 < 2 ^ 32 - 5
    norm_num
  obtain ⟨hallowed, r', hr', hinv, hcard⟩ :=
    scheduleNow_run orderedListScheduler (2 ^ 31) (inv_start orderedListScheduler) hstart
  obtain ⟨r, hr, heq⟩ := h _ hallowed
  obtain rfl := Option.some.inj (hr.symm.trans hr')
  have hall : r.simulator.events.toFinset.card = 2 ^ 31 := hcard.trans (Nat.zero_add (2 ^ 31))
  have hcounter : r.simulator.unscheduledEvents = signed 32 r.simulator.events.toFinset.card :=
    hinv.unscheduled
  rw [heq, hall] at hcounter
  exact absurd hcounter (by decide)

end OrderedScheduler

end Ns3Noc
