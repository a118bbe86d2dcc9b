import Mathlib.Data.List.Basic
import Mathlib.Data.List.Nodup
import Mathlib.Data.List.Perm.Basic
import Mathlib.Data.Prod.Lex
import Ns3Noc.PartialRuns

/-!
# Scheduler

The event list of the simulator: its keys, the calls of its interface and the sorted list that
every implementation is compared with. A call gives `none` where an assertion fails or the list
that has to have a front is empty. `PeekNext` returns the scheduler too, since an implementation
may move its search cursor there.
-/
namespace Ns3Noc

structure EventKey where
  ts : ℕ
  uid : ℕ
  context : ℕ
  deriving DecidableEq, Repr

namespace EventKey

/-- `operator <` -/
def less (a b : EventKey) : Bool :=
  if a.ts < b.ts then true
  else if a.ts = b.ts ∧ a.uid < b.uid then true
  else false

/-- Time stamp first, then uid. -/
def rank (a : EventKey) : ℕ ×ₗ ℕ := toLex (a.ts, a.uid)

theorem less_iff {a b : EventKey} : a.less b = true ↔ a.rank < b.rank := by
  rw [rank, rank, Prod.Lex.toLex_lt_toLex, less]
  split
  · simp [*]
  · split <;> simp [*]

theorem less_eq_false_iff {a b : EventKey} : a.less b = false ↔ b.rank ≤ a.rank := by
  rw [← not_lt, ← less_iff, Bool.not_eq_true]

theorem rank_eq_iff {a b : EventKey} : a.rank = b.rank ↔ a.ts = b.ts ∧ a.uid = b.uid := by
  rw [rank, rank, toLex_inj, Prod.mk.injEq]

theorem rank_le_iff {a b : EventKey} :
    a.rank ≤ b.rank ↔ a.ts < b.ts ∨ a.ts = b.ts ∧ a.uid ≤ b.uid := by
  rw [rank, rank, Prod.Lex.toLex_le_toLex]

theorem rank_lt_iff {a b : EventKey} :
    a.rank < b.rank ↔ a.ts < b.ts ∨ a.ts = b.ts ∧ a.uid < b.uid := by
  rw [rank, rank, Prod.Lex.toLex_lt_toLex]

end EventKey

/-- `impl` is the address of the `EventImpl`. -/
structure SchedulerEvent where
  impl : ℕ
  key : EventKey
  deriving DecidableEq, Repr

namespace SchedulerEvent

def rank (ev : SchedulerEvent) : ℕ ×ₗ ℕ := ev.key.rank

end SchedulerEvent

structure Scheduler (σ : Type) where
  empty : σ
  insert : σ → SchedulerEvent → Option σ
  isEmpty : σ → Bool
  peekNext : σ → Option (SchedulerEvent × σ)
  removeNext : σ → Option (SchedulerEvent × σ)
  remove : σ → SchedulerEvent → Option σ

inductive SchedulerCall where
  | insert (ev : SchedulerEvent)
  | remove (ev : SchedulerEvent)
  | peekNext
  | removeNext
  deriving DecidableEq, Repr

namespace Scheduler
variable {σ : Type} (S : Scheduler σ)

/-- One call with the event it returns. -/
def apply (s : σ) : SchedulerCall → Option (Option SchedulerEvent × σ)
  | .insert ev => (S.insert s ev).map (fun s' => (none, s'))
  | .remove ev => (S.remove s ev).map (fun s' => (none, s'))
  | .peekNext => (S.peekNext s).map (fun r => (some r.1, r.2))
  | .removeNext => (S.removeNext s).map (fun r => (some r.1, r.2))

end Scheduler

namespace ListScheduler

def insert (ev : SchedulerEvent) : List SchedulerEvent → List SchedulerEvent
  | [] => [ev]
  | e :: events =>
    if ev.key.less e.key then ev :: e :: events else e :: insert ev events

def removeNext : List SchedulerEvent → Option (SchedulerEvent × List SchedulerEvent)
  | [] => none
  | next :: events => some (next, events)

def remove (ev : SchedulerEvent) : List SchedulerEvent → Option (List SchedulerEvent)
  | [] => none
  | e :: events =>
    if e.key.uid = ev.key.uid then (if ev.impl = e.impl then some events else none)
    else (remove ev events).map (e :: ·)

end ListScheduler

def listScheduler : Scheduler (List SchedulerEvent) where
  empty := []
  insert events ev := some (ListScheduler.insert ev events)
  isEmpty events := events.isEmpty
  peekNext events := events.head?.map (fun ev => (ev, events))
  removeNext := ListScheduler.removeNext
  remove events ev := ListScheduler.remove ev events

namespace ListScheduler

/-- What the sorted list keeps: increasing keys and one event for each uid. -/
structure Sorted (events : List SchedulerEvent) : Prop where
  increasing : events.Pairwise (fun a b => a.rank < b.rank)
  uids : (events.map (·.key.uid)).Nodup

theorem sorted_nil : Sorted [] := ⟨List.Pairwise.nil, List.nodup_nil⟩

theorem insert_perm (ev : SchedulerEvent) (events : List SchedulerEvent) :
    (insert ev events).Perm (ev :: events) := by
  induction events with
  | nil => exact List.Perm.refl _
  | cons e events ih =>
    rw [insert]
    split
    · exact List.Perm.refl _
    · exact (ih.cons e).trans (List.Perm.swap ev e events)

theorem insert_increasing {ev : SchedulerEvent} {events : List SchedulerEvent}
    (hi : events.Pairwise (fun a b => a.rank < b.rank))
    (hnew : ∀ e ∈ events, e.key.uid ≠ ev.key.uid) :
    (insert ev events).Pairwise (fun a b => a.rank < b.rank) := by
  induction events with
  | nil => exact List.pairwise_singleton _ _
  | cons e events ih =>
    rw [List.pairwise_cons] at hi
    rw [insert]
    split
    · rename_i hless
      have hlt : ev.rank < e.rank := EventKey.less_iff.mp hless
      refine List.pairwise_cons.mpr ⟨?_, List.pairwise_cons.mpr hi⟩
      intro b hb
      rcases List.mem_cons.mp hb with rfl | hb
      · exact hlt
      · exact hlt.trans (hi.1 b hb)
    · rename_i hless
      have hle : e.rank ≤ ev.rank := EventKey.less_eq_false_iff.mp (Bool.eq_false_iff.mpr hless)
      have hne : e.rank ≠ ev.rank := by
        intro heq
        exact hnew e List.mem_cons_self (EventKey.rank_eq_iff.mp heq).2
      refine List.pairwise_cons.mpr ⟨?_, ih hi.2 (fun x hx => hnew x (List.mem_cons_of_mem e hx))⟩
      intro b hb
      rcases List.mem_cons.mp ((insert_perm ev events).subset hb) with rfl | hb
      · exact lt_of_le_of_ne hle hne
      · exact hi.1 b hb

theorem Sorted.insert {ev : SchedulerEvent} {events : List SchedulerEvent} (h : Sorted events)
    (hnew : ∀ e ∈ events, e.key.uid ≠ ev.key.uid) : Sorted (insert ev events) := by
  refine ⟨insert_increasing h.increasing hnew, ?_⟩
  rw [((insert_perm ev events).map _).nodup_iff, List.map_cons, List.nodup_cons]
  refine ⟨?_, h.uids⟩
  intro hmem
  obtain ⟨e, he, heq⟩ := List.mem_map.mp hmem
  exact hnew e he heq

theorem Sorted.of_sublist {events rest : List SchedulerEvent} (h : Sorted events)
    (hs : rest.Sublist events) : Sorted rest :=
  ⟨h.increasing.sublist hs, h.uids.sublist (hs.map _)⟩

/-- Two stored events with one uid are one event. -/
theorem Sorted.eq_of_uid {events : List SchedulerEvent} (h : Sorted events) {a b : SchedulerEvent}
    (ha : a ∈ events) (hb : b ∈ events) (huid : a.key.uid = b.key.uid) : a = b :=
  List.inj_on_of_nodup_map h.uids ha hb huid

theorem remove_of_mem {ev : SchedulerEvent} {events : List SchedulerEvent} (h : Sorted events)
    (hev : ev ∈ events) : remove ev events = some (events.erase ev) := by
  induction events with
  | nil => cases hev
  | cons e events ih =>
    rw [remove]
    by_cases huid : e.key.uid = ev.key.uid
    · obtain rfl := h.eq_of_uid List.mem_cons_self hev huid
      rw [if_pos rfl, if_pos rfl, List.erase_cons_head]
    · have hne : e ≠ ev := fun heq => huid (congrArg (·.key.uid) heq)
      have hmem : ev ∈ events := (List.mem_cons.mp hev).resolve_left (fun heq => hne heq.symm)
      rw [if_neg huid, ih (h.of_sublist (List.sublist_cons_self e events)) hmem,
        List.erase_cons_tail (by simpa using hne)]
      rfl

/-- The front is the least event. -/
theorem Sorted.front_least {ev : SchedulerEvent} {events : List SchedulerEvent}
    (h : Sorted (ev :: events)) : ∀ e ∈ events, ev.rank < e.rank :=
  (List.pairwise_cons.mp h.increasing).1

/-- An event that is as early as every stored one is the front. -/
theorem Sorted.front_eq {ev front : SchedulerEvent} {events : List SchedulerEvent}
    (h : Sorted (front :: events)) (hev : ev ∈ front :: events)
    (hleast : ∀ e ∈ front :: events, ev.rank ≤ e.rank) : ev = front := by
  rcases List.mem_cons.mp hev with rfl | hmem
  · rfl
  · exact absurd (hleast front List.mem_cons_self) (not_le.mpr (h.front_least ev hmem))

end ListScheduler

namespace SchedulerCall

/-- What the interface asks of its caller: no uid twice, only stored events are removed, and
only a scheduler that is not empty is asked for its next event. -/
def Legal (events : List SchedulerEvent) : SchedulerCall → Prop
  | insert ev => ∀ e ∈ events, e.key.uid ≠ ev.key.uid
  | remove ev => ev ∈ events
  | peekNext => events ≠ []
  | removeNext => events ≠ []

instance (events : List SchedulerEvent) (call : SchedulerCall) :
    Decidable (call.Legal events) :=
  match call with
  | insert ev => inferInstanceAs (Decidable (∀ e ∈ events, e.key.uid ≠ ev.key.uid))
  | remove ev => inferInstanceAs (Decidable (ev ∈ events))
  | peekNext | removeNext => inferInstanceAs (Decidable (events ≠ []))

/-- The events stored after a legal call. -/
def stored (events : List SchedulerEvent) : SchedulerCall → List SchedulerEvent
  | insert ev => ListScheduler.insert ev events
  | remove ev => events.erase ev
  | peekNext => events
  | removeNext => events.tail

/-- The event a legal call returns. -/
def answer (events : List SchedulerEvent) : SchedulerCall → Option SchedulerEvent
  | insert _ => none
  | remove _ => none
  | peekNext => events.head?
  | removeNext => events.head?

end SchedulerCall

namespace ListScheduler

/-- No legal call fails on the sorted list. -/
theorem apply_of_legal {events : List SchedulerEvent} (h : Sorted events) {call : SchedulerCall}
    (hl : call.Legal events) :
    listScheduler.apply events call = some (call.answer events, call.stored events) := by
  cases call with
  | insert ev => rfl
  | remove ev =>
    show (remove ev events).map (fun s' => (none, s')) = _
    rw [remove_of_mem h hl]
    rfl
  | peekNext =>
    cases events with
    | nil => exact absurd rfl hl
    | cons e events => rfl
  | removeNext =>
    cases events with
    | nil => exact absurd rfl hl
    | cons e events => rfl

theorem Sorted.stored {events : List SchedulerEvent} (h : Sorted events) {call : SchedulerCall}
    (hl : call.Legal events) : Sorted (call.stored events) := by
  cases call with
  | insert ev => exact h.insert hl
  | remove ev => exact h.of_sublist List.erase_sublist
  | peekNext => exact h
  | removeNext => exact h.of_sublist (List.tail_sublist events)

end ListScheduler

/-- A scheduler and the sorted list after the same calls, with what the last call returned from
both and the time stamp of the last event that `RemoveNext` returned. -/
structure SchedulerRun (σ : Type) where
  scheduler : Option σ
  events : List SchedulerEvent
  returned : Option SchedulerEvent
  expected : Option SchedulerEvent
  clock : ℕ

namespace SchedulerRun
variable {σ : Type}

def start (S : Scheduler σ) : SchedulerRun σ := ⟨some S.empty, [], none, none, 0⟩

/-- The clock after a call on the sorted list. -/
def clockAfter (clock : ℕ) (events : List SchedulerEvent) : SchedulerCall → ℕ
  | .removeNext => (events.head?.map (·.key.ts)).getD clock
  | _ => clock

/-- One legal call on both. A failure of the scheduler stays visible in the run. -/
def step (S : Scheduler σ) (r : SchedulerRun σ) (call : SchedulerCall) :
    Option (SchedulerRun σ) :=
  if call.Legal r.events then do
    let (expected, events) ← listScheduler.apply r.events call
    let result := r.scheduler.bind (fun s => S.apply s call)
    some ⟨result.map Prod.snd, events, result.bind Prod.fst, expected,
      clockAfter r.clock r.events call⟩
  else none

/-- The scheduler has not failed, and it returned what the sorted list returned, which no stored
event precedes. -/
structure Agrees (r : SchedulerRun σ) : Prop where
  running : r.scheduler.isSome
  same : r.returned = r.expected
  least : ∀ ev, r.returned = some ev → ∀ e ∈ r.events, e.key.less ev.key = false

end SchedulerRun

namespace SchedulerCall

/-- No stored event precedes the answer of the sorted list. -/
theorem answer_least {events : List SchedulerEvent} (hs : ListScheduler.Sorted events)
    (call : SchedulerCall) {ev : SchedulerEvent} (hev : call.answer events = some ev) :
    ∀ e ∈ call.stored events, e.key.less ev.key = false := by
  have hfront : events.head? = some ev → ∀ e ∈ events, e.key.less ev.key = false := by
    intro hhead e he
    obtain ⟨rest, rfl⟩ := List.head?_eq_some_iff.mp hhead
    apply EventKey.less_eq_false_iff.mpr
    rcases List.mem_cons.mp he with rfl | he
    · exact le_rfl
    · exact (hs.front_least e he).le
  cases call with
  | insert ev' => cases hev
  | remove ev' => cases hev
  | peekNext => exact hfront hev
  | removeNext => exact fun e he => hfront hev e (List.mem_of_mem_tail he)

end SchedulerCall

namespace SchedulerRun
variable {σ : Type} {S : Scheduler σ} {r r' : SchedulerRun σ} {call : SchedulerCall}

/-- A step is a legal call, and the sorted list never fails on it. -/
theorem step_cases (hs : ListScheduler.Sorted r.events) (h : step S r call = some r') :
    call.Legal r.events ∧
      r' = ⟨(r.scheduler.bind (fun s => S.apply s call)).map Prod.snd, call.stored r.events,
        (r.scheduler.bind (fun s => S.apply s call)).bind Prod.fst, call.answer r.events,
        clockAfter r.clock r.events call⟩ := by
  rw [step] at h
  split at h
  · rename_i hl
    rw [ListScheduler.apply_of_legal hs hl] at h
    exact ⟨hl, (Option.some.inj h).symm⟩
  · cases h

theorem step_of_legal (hs : ListScheduler.Sorted r.events) (hl : call.Legal r.events) :
    step S r call = some ⟨(r.scheduler.bind (fun s => S.apply s call)).map Prod.snd,
      call.stored r.events, (r.scheduler.bind (fun s => S.apply s call)).bind Prod.fst,
      call.answer r.events, clockAfter r.clock r.events call⟩ := by
  rw [step, if_pos hl, ListScheduler.apply_of_legal hs hl]
  rfl

end SchedulerRun

end Ns3Noc
