import Mathlib.Data.Finset.Card
import Mathlib.Data.Int.ModEq
import Ns3Noc.Scheduler

/-!
# DefaultSimulatorImpl

The event loop over any scheduler that is a set of events ordered by their keys. Handlers are not
given as programs: a run is any order of events taken off the list and calls by whoever is
running, so it covers every program. A failed assertion gives `none`.
-/
namespace Ns3Noc

/-- A scheduler whose valid states hold a finite set of events. -/
structure OrderedScheduler (σ : Type) extends Scheduler σ where
  Valid : σ → Prop
  stored : σ → Finset SchedulerEvent
  valid_empty : Valid empty
  stored_empty : stored empty = ∅
  isEmpty_iff : ∀ s, Valid s → (isEmpty s = true ↔ stored s = ∅)
  insert_spec : ∀ s ev, Valid s → (∀ e ∈ stored s, e.key.uid ≠ ev.key.uid) →
    ∃ s', insert s ev = some s' ∧ Valid s' ∧ stored s' = Insert.insert ev (stored s)
  remove_spec : ∀ s, Valid s → ∀ ev ∈ stored s,
    ∃ s', remove s ev = some s' ∧ Valid s' ∧ stored s' = (stored s).erase ev
  removeNext_spec : ∀ s, Valid s → stored s ≠ ∅ →
    ∃ ev s', removeNext s = some (ev, s') ∧ ev ∈ stored s ∧
      (∀ e ∈ stored s, ev.rank ≤ e.rank) ∧ Valid s' ∧ stored s' = (stored s).erase ev

/-- The sorted list is such a set. -/
def orderedListScheduler : OrderedScheduler (List SchedulerEvent) where
  toScheduler := listScheduler
  Valid := ListScheduler.Sorted
  stored := List.toFinset
  valid_empty := ListScheduler.sorted_nil
  stored_empty := rfl
  isEmpty_iff events _ := by simp [listScheduler]
  insert_spec events ev h hnew := by
    have hnew' : ∀ e ∈ events, e.key.uid ≠ ev.key.uid :=
      fun e he => hnew e (List.mem_toFinset.mpr he)
    refine ⟨_, rfl, h.insert hnew', ?_⟩
    ext e
    simp [(ListScheduler.insert_perm ev events).mem_iff]
  remove_spec events h ev hev := by
    have hmem := List.mem_toFinset.mp hev
    refine ⟨_, ListScheduler.remove_of_mem h hmem, h.of_sublist List.erase_sublist, ?_⟩
    have hnodup : events.Nodup := List.Nodup.of_map _ h.uids
    ext e
    simp [hnodup.mem_erase_iff]
  removeNext_spec events h hne := by
    cases events with
    | nil => exact absurd rfl hne
    | cons next rest =>
      have hnodup : (next :: rest).Nodup := List.Nodup.of_map _ h.uids
      refine ⟨next, rest, rfl, by simp, ?_, h.of_sublist (List.sublist_cons_self next rest), ?_⟩
      · intro e he
        rcases List.mem_cons.mp (List.mem_toFinset.mp he) with rfl | he
        · exact le_rfl
        · exact (h.front_least e he).le
      · rw [List.toFinset_cons, Finset.erase_insert]
        exact fun hmem => (List.nodup_cons.mp hnodup).1 (List.mem_toFinset.mp hmem)

structure EventId where
  impl : Option ℕ
  ts : ℕ
  context : ℕ
  uid : ℕ
  deriving DecidableEq, Repr

/-- The value of a signed integer of the given width. -/
def signed (bits : ℕ) (x : ℤ) : ℤ := x.bmod (2 ^ bits)

/-- `TimeStep (ts)`: times are 128 bit numbers with 64 bits behind the point. -/
def timeStep (ts : ℕ) : ℤ := signed 64 ts * 2 ^ 64

def getTimeStep (time : ℤ) : ℤ := signed 64 (time.tdiv (2 ^ 64))

/-- The conversion to `uint64_t`. -/
def toUint64 (x : ℤ) : ℕ := (x % 2 ^ 64).toNat

/-- `eventImpls` holds the flags `m_cancel` of the `EventImpl` objects made so far. -/
structure DefaultSimulatorImpl (σ : Type) where
  destroyEvents : List EventId := []
  events : σ
  uid : ℕ := 4
  currentUid : ℕ := 0
  currentTs : ℕ := 0
  currentContext : ℕ := 0xffffffff
  unscheduledEvents : ℤ := 0
  eventImpls : List Bool := []

namespace DefaultSimulatorImpl
variable {σ : Type} (S : Scheduler σ) (d : DefaultSimulatorImpl σ)

def isCancelled (impl : ℕ) : Bool := d.eventImpls.getD impl false

/-- `MakeEvent` gives every call of `Schedule` an object of its own. -/
def makeEvent : ℕ × DefaultSimulatorImpl σ :=
  (d.eventImpls.length, { d with eventImpls := d.eventImpls ++ [false] })

def now : ℤ := timeStep d.currentTs

def getContext : ℕ := d.currentContext

/-- What the three ways to schedule do with the key they have computed. -/
def insertEvent (ts context event : ℕ) : Option (EventId × DefaultSimulatorImpl σ) := do
  let ev : SchedulerEvent := ⟨event, ts, d.uid, context⟩
  let events ← S.insert d.events ev
  some (⟨some event, ts, context, d.uid⟩, { d with
    events := events
    uid := (d.uid + 1) % 2 ^ 32
    unscheduledEvents := signed 32 (d.unscheduledEvents + 1) })

def schedule (time : ℤ) (event : ℕ) : Option (EventId × DefaultSimulatorImpl σ) :=
  let tAbsolute := signed 128 (time + timeStep d.currentTs)
  if 0 ≤ tAbsolute ∧ timeStep d.currentTs ≤ tAbsolute then
    d.insertEvent S (toUint64 (getTimeStep tAbsolute)) d.getContext event
  else none

def scheduleWithContext (context : ℕ) (time : ℤ) (event : ℕ) :
    Option (DefaultSimulatorImpl σ) :=
  (d.insertEvent S (toUint64 (d.currentTs + getTimeStep time)) context event).map Prod.snd

def scheduleNow (event : ℕ) : Option (EventId × DefaultSimulatorImpl σ) :=
  d.insertEvent S d.currentTs d.getContext event

/-- The event taken off the list, whether its handler is called, and the state it is called in. -/
def processOneEvent : Option (SchedulerEvent × Bool × DefaultSimulatorImpl σ) := do
  let (next, events) ← S.removeNext d.events
  if d.currentTs ≤ next.key.ts then
    some (next, !d.isCancelled next.impl, { d with
      events := events
      unscheduledEvents := signed 32 (d.unscheduledEvents - 1)
      currentTs := next.key.ts
      currentContext := next.key.context
      currentUid := next.key.uid })
  else none

def isExpired (ev : EventId) : Bool :=
  match ev.impl with
  | none => true
  | some impl =>
    if ev.uid = 2 then d.isCancelled impl || !d.destroyEvents.contains ev
    else ev.ts < d.currentTs || (ev.ts == d.currentTs && ev.uid ≤ d.currentUid) ||
      d.isCancelled impl

def cancelImpl (impl : ℕ) : DefaultSimulatorImpl σ :=
  { d with eventImpls := d.eventImpls.set impl true }

def cancel (id : EventId) : Option (DefaultSimulatorImpl σ) :=
  if !d.isExpired id then id.impl.map d.cancelImpl else some d

def remove (id : EventId) : Option (DefaultSimulatorImpl σ) :=
  if id.uid = 2 then some { d with destroyEvents := d.destroyEvents.erase id }
  else if d.isExpired id then some d
  else do
    let impl ← id.impl
    let events ← S.remove d.events ⟨impl, id.ts, id.uid, id.context⟩
    let d := d.cancelImpl impl
    some { d with
      events := events
      unscheduledEvents := signed 32 (d.unscheduledEvents - 1) }

end DefaultSimulatorImpl

inductive SimulatorStep where
  | processOneEvent
  | schedule (time : ℤ)
  | scheduleNow
  | scheduleWithContext (context : ℕ) (time : ℤ)
  | cancel (id : EventId)
  | remove (id : EventId)
  | isExpired (id : EventId)
  deriving DecidableEq, Repr

/-- A simulator with the history of its run: the ids that were given out, the events scheduled,
those whose handlers have started, the one whose handler runs, and the ids through which an event
was cancelled or removed before it started. -/
structure SimulatorRun (σ : Type) where
  simulator : DefaultSimulatorImpl σ
  ids : List EventId
  scheduled : List SchedulerEvent
  invoked : List SchedulerEvent
  running : Option SchedulerEvent
  calledOff : List EventId

namespace SimulatorRun
variable {σ : Type}

def start (S : Scheduler σ) : SimulatorRun σ := ⟨{ events := S.empty }, [], [], [], none, []⟩

/-- The event of an id has started. -/
def Started (r : SimulatorRun σ) (id : EventId) : Prop :=
  ∃ ev ∈ r.invoked, ev.key.uid = id.uid

instance (r : SimulatorRun σ) (id : EventId) : Decidable (r.Started id) :=
  inferInstanceAs (Decidable (∃ ev ∈ r.invoked, ev.key.uid = id.uid))

/-- The ids called off after one more call of `Cancel` or `Remove`. -/
def callOff (r : SimulatorRun σ) (id : EventId) : List EventId :=
  if r.Started id then r.calledOff else id :: r.calledOff

/-- The event that the id names. -/
def eventOf (id : EventId) : SchedulerEvent := ⟨id.impl.getD 0, id.ts, id.uid, id.context⟩

def step (S : Scheduler σ) (r : SimulatorRun σ) : SimulatorStep → Option (SimulatorRun σ)
  | .processOneEvent => do
    let (next, handled, d) ← r.simulator.processOneEvent S
    some { r with
      simulator := d
      invoked := if handled then r.invoked ++ [next] else r.invoked
      running := if handled then some next else none }
  | .schedule time => do
    let (event, d) := r.simulator.makeEvent
    let (id, d) ← d.schedule S time event
    some { r with
      simulator := d, ids := id :: r.ids, scheduled := r.scheduled ++ [eventOf id] }
  | .scheduleNow => do
    let (event, d) := r.simulator.makeEvent
    let (id, d) ← d.scheduleNow S event
    some { r with
      simulator := d, ids := id :: r.ids, scheduled := r.scheduled ++ [eventOf id] }
  | .scheduleWithContext context time => do
    let (event, d) := r.simulator.makeEvent
    let ts := toUint64 (d.currentTs + getTimeStep time)
    let uid := d.uid
    let d ← d.scheduleWithContext S context time event
    some { r with simulator := d, scheduled := r.scheduled ++ [⟨event, ts, uid, context⟩] }
  | .cancel id => do
    let d ← r.simulator.cancel id
    some { r with simulator := d, calledOff := r.callOff id }
  | .remove id => do
    let d ← r.simulator.remove S id
    some { r with simulator := d, calledOff := r.callOff id }
  | .isExpired _ => some r

/-- The loop of `Run` goes on while the list is not empty; delays are not negative, times stay
below `2 ^ 63`, fewer than `2 ^ 32 - 5` events are scheduled, and calls are made with ids that
were given out. -/
def Legal (S : Scheduler σ) (r : SimulatorRun σ) : SimulatorStep → Prop
  | .processOneEvent => S.isEmpty r.simulator.events = false
  | .schedule time => 0 ≤ time ∧ time + r.simulator.currentTs * 2 ^ 64 < 2 ^ 63 * 2 ^ 64 ∧
      r.scheduled.length + 1 < 2 ^ 32 - 5
  | .scheduleNow => r.scheduled.length + 1 < 2 ^ 32 - 5
  | .scheduleWithContext _ time => 0 ≤ time ∧
      time + r.simulator.currentTs * 2 ^ 64 < 2 ^ 63 * 2 ^ 64 ∧
      r.scheduled.length + 1 < 2 ^ 32 - 5
  | .cancel id => id ∈ r.ids
  | .remove id => id ∈ r.ids
  | .isExpired id => id ∈ r.ids

instance (S : Scheduler σ) (r : SimulatorRun σ) (l : SimulatorStep) : Decidable (Legal S r l) := by
  cases l <;> unfold Legal <;> infer_instance

end SimulatorRun

end Ns3Noc
