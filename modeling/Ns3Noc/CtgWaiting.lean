import Ns3Noc.CtgVolume
import Ns3Noc.NocCtgApplicationHelper

/-!
# What an application waits for

The volumes that an application counts into `m_totalData` come from the same communications as
the volumes that the applications send, but the volumes between two tasks of one node are only
on the receiving side.
-/
namespace Ns3Noc

namespace NocCtgApplication
variable (a : NocCtgApplication)

def Reachable (s : CtgState) : Prop :=
  ∃ now ls, PartialRuns.run a.step (a.startApplication now) ls = some s

/-- `SendFlit` events for one iteration, one after another. -/
def sendFlits (i now n : ℕ) (s : CtgState) : Option CtgState :=
  PartialRuns.walk (fun s => a.sendFlit s now i) n s

/-- A state where the application has sent an iteration. -/
def HasSent (i : ℕ) (s : CtgState) : Prop :=
  (∃ t now n, a.Reachable t ∧ a.sendFlits i now n t = some s) ∧ a.AllSent i s

end NocCtgApplication

/-- Every application can send its iterations from any state, and once all have sent an
iteration, its payload for the node `v` makes up what the applications of `v` wait for. -/
structure WaitsForSentData (apps : List NocCtgApplication) (v : ℕ) : Prop where
  sends : ∀ a ∈ apps, ∀ s, a.Reachable s → ∀ i now,
    ∃ n s', a.sendFlits i now n s = some s' ∧ a.AllSent i s'
  waits : ∀ i states, List.Forall₂ (fun a s => a.HasSent i s) apps states →
    ∀ a ∈ apps, a.nodeId = v →
      a.totalData ≤ (states.map (fun s => ((s.injectedBits i v : ℕ) : ℚ))).sum

namespace NocCtgApplicationHelper
variable (m : NocCtgApplicationHelper)

/-- The flit size has room for the header, as `SendFlit` asserts, and all volumes are positive
and fit into the 32 bit counters. -/
def Sendable (base : NocCtgApplication) : Prop :=
  base.headerSize ≤ base.flitSize ∧
    ∀ c ∈ m.communication, 0 < c.volume ∧ c.volume + (base.flitSize * 8 : ℕ) ≤ 2 ^ 32

instance (base : NocCtgApplication) : Decidable (m.Sendable base) :=
  inferInstanceAs (Decidable (_ ∧ ∀ _ ∈ _, _))

/-- Both tasks are on the node. -/
def Within (v : ℕ) (c : Communication) : Prop :=
  m.nodeIdOf c.source = v ∧ m.nodeIdOf c.destination = v

/-- The communication comes to the node from another one. -/
def Arriving (v : ℕ) (c : Communication) : Prop :=
  m.nodeIdOf c.destination = v ∧ m.nodeIdOf c.source ≠ v

instance (v : ℕ) (c : Communication) : Decidable (m.Within v c) :=
  inferInstanceAs (Decidable (_ ∧ _))

instance (v : ℕ) (c : Communication) : Decidable (m.Arriving v c) :=
  inferInstanceAs (Decidable (_ ∧ _))

def volumeWithin (v : ℕ) : ℚ :=
  ((m.communication.filter (fun c => m.Within v c)).map Communication.volume).sum

def volumeArriving (v : ℕ) : ℚ :=
  ((m.communication.filter (fun c => m.Arriving v c)).map Communication.volume).sum

/-- The number of communications that come from other nodes. -/
def arrivals (v : ℕ) : ℕ := (m.communication.filter (fun c => m.Arriving v c)).length

theorem sum_destination (v : ℕ) :
    (m.communication.map (fun c => if m.nodeIdOf c.destination = v then c.volume else 0)).sum =
      m.volumeArriving v + m.volumeWithin v := by
  rw [volumeArriving, volumeWithin, KeyedLists.sum_filter, KeyedLists.sum_filter,
    ← List.sum_map_add]
  congr 2
  funext c
  by_cases hd : m.nodeIdOf c.destination = v
  · by_cases hs : m.nodeIdOf c.source = v
    · simp [Arriving, Within, hd, hs]
    · simp [Arriving, Within, hd, hs]
  · simp [Arriving, Within, hd]

end NocCtgApplicationHelper

namespace TaskMapping
open NocCtgApplication NocCtgApplicationHelper
variable {m : TaskMapping} {base : NocCtgApplication} {e : MapEntry}

theorem senderNodeId_eq (he : e ∈ m.map) {d : DependentTaskData}
    (hd : d ∈ (m.application base e).localTaskList) : d.senderNodeId = e.node := by
  simp only [application, install, taskLists_eq, List.mem_map, List.mem_flatMap, List.mem_filter,
    decide_eq_true_eq] at hd
  obtain ⟨c, ⟨k, hk, -, rfl⟩, rfl⟩ := hd
  exact m.nodeIdOf_eq he (by simpa [tasksOf] using hk)

theorem sendable_application (h : m.Sendable base) (e : MapEntry) :
    (m.application base e).Sendable := by
  refine ⟨h.1, ?_⟩
  intro d hd
  simp only [application, install, taskLists_eq, List.mem_map, List.mem_flatMap,
    List.mem_filter] at hd
  obtain ⟨c, ⟨-, -, hc, -⟩, rfl⟩ := hd
  exact h.2 c hc

/-- What the applications send to other tasks on the node `v`, one communication after another. -/
theorem sum_arriving (m : TaskMapping) (base : NocCtgApplication) (v : ℕ)
    (f : DependentTaskData → ℚ) :
    (m.map.map (fun e => ((m.application base e).localTaskList.map (fun d =>
      if d.receivingNodeId = v ∧ (m.application base e).nodeId ≠ d.receivingNodeId then f d
      else 0)).sum)).sum =
      ((m.communication.filter (fun c => m.Arriving v c)).map
        (fun c => f (m.dependentTaskData c))).sum := by
  have hsender : ∀ e ∈ m.map, ((m.application base e).localTaskList.map (fun d =>
      if d.receivingNodeId = v ∧ (m.application base e).nodeId ≠ d.receivingNodeId then f d
      else 0)).sum = ((m.application base e).localTaskList.map (fun d =>
      if d.receivingNodeId = v ∧ d.senderNodeId ≠ d.receivingNodeId then f d else 0)).sum := by
    intro e he
    congr 1
    apply List.map_congr_left
    intro d hd
    rw [senderNodeId_eq he hd]
    rfl
  rw [List.map_congr_left hsender, m.sum_localTaskList base, KeyedLists.sum_filter]
  congr 2
  funext c
  by_cases hd : m.nodeIdOf c.destination = v
  · by_cases hs : m.nodeIdOf c.source = v
    · simp [Arriving, dependentTaskData, hd, hs]
    · simp [Arriving, dependentTaskData, hd, hs]
  · simp [Arriving, dependentTaskData, hd]

theorem counted_of_hasSent (h : m.Sendable base) {i : ℕ} {s : CtgState}
    (hs : (m.application base e).HasSent i s) : (m.application base e).Counted s := by
  have ha := sendable_application h e
  obtain ⟨⟨t, now, n, ⟨start, ls, hrun⟩, hwalk⟩, -⟩ := hs
  have ht : (m.application base e).Counted t :=
    PartialRuns.invariant (fun _ _ _ h hs => h.step ha hs) (counted_startApplication ha start) hrun
  exact ht.walk ha hwalk

theorem sends_application (h : m.Sendable base) {s : CtgState}
    (hs : (m.application base e).Reachable s) (i now : ℕ) :
    ∃ n s', (m.application base e).sendFlits i now n s = some s' ∧
      (m.application base e).AllSent i s' := by
  have ha := sendable_application h e
  obtain ⟨start, ls, hrun⟩ := hs
  have hcounted : (m.application base e).Counted s :=
    PartialRuns.invariant (fun _ _ _ h hs => h.step ha hs) (counted_startApplication ha start) hrun
  exact hcounted.allSent ha now i

theorem volumeArriving_le (h : m.Sendable base) {i : ℕ} {states : List CtgState}
    (hstates : List.Forall₂ (fun a s => a.HasSent i s) (m.map.map (m.application base)) states)
    (v : ℕ) : m.volumeArriving v ≤ (states.map (fun s => ((s.injectedBits i v : ℕ) : ℚ))).sum := by
  have hsum := m.sum_arriving base v DependentTaskData.data
  rw [volumeArriving, show Communication.volume = fun c => (m.dependentTaskData c).data from rfl,
    ← hsum]
  apply List.Forall₂.sum_le_sum
  rw [List.forall₂_map_left_iff, List.forall₂_map_right_iff]
  rw [List.forall₂_map_left_iff] at hstates
  exact hstates.imp (fun e s hs => (counted_of_hasSent h hs).volumeTo_le hs.2 v)

/-- The rounding adds less than a flit to each communication. -/
theorem sum_injectedBits_le (h : m.Sendable base) {i : ℕ} {states : List CtgState}
    (hstates : List.Forall₂ (fun a s => a.HasSent i s) (m.map.map (m.application base)) states)
    (v : ℕ) : (states.map (fun s => ((s.injectedBits i v : ℕ) : ℚ))).sum ≤
      m.volumeArriving v + m.arrivals v * (base.flitSize * 8 : ℕ) := by
  have hsum := m.sum_arriving base v (fun d => d.data + (base.flitSize * 8 : ℕ))
  rw [List.sum_map_add, List.map_const', List.sum_replicate, nsmul_eq_mul] at hsum
  change _ = m.volumeArriving v + m.arrivals v * (base.flitSize * 8 : ℕ) at hsum
  rw [← hsum]
  apply List.Forall₂.sum_le_sum
  rw [List.forall₂_map_left_iff, List.forall₂_map_right_iff]
  rw [List.forall₂_map_left_iff] at hstates
  apply List.Forall₂.flip
  apply hstates.imp
  intro e s hs
  have hle := (counted_of_hasSent h hs).injectedBits_le hs.2 v
  push_cast
  exact hle

theorem totalData_le (h : m.Sendable base) (he : e ∈ m.map)
    (hwithin : ∀ c ∈ m.communication, ¬m.Within e.node c) :
    (m.application base e).totalData ≤ m.volumeArriving e.node := by
  have hnone : m.communication.filter (fun c => m.Within e.node c) = [] := by
    simpa [List.filter_eq_nil_iff] using hwithin
  have hsum := m.sum_destination e.node
  rw [volumeWithin, hnone, List.map_nil, List.sum_nil, add_zero] at hsum
  rw [m.totalData_application base he, ← hsum]
  apply List.sum_le_sum
  intro c hc
  have hpos := (h.2 c hc).1
  split
  · next htask => rw [if_pos (m.nodeIdOf_eq he htask)]
  · split
    · exact hpos.le
    · exact le_rfl

/-- The only core of a node waits for everything that is meant for the node. -/
theorem totalData_eq (he : e ∈ m.map) (honly : ∀ e' ∈ m.map, e'.node = e.node → e' = e) :
    (m.application base e).totalData = m.volumeArriving e.node + m.volumeWithin e.node := by
  rw [m.totalData_application base he, ← m.sum_destination e.node]
  congr 1
  apply List.map_congr_left
  intro c hc
  obtain ⟨-, e', he', htask'⟩ := m.tasks_mapped c hc
  by_cases htask : c.destination ∈ m.tasksOf e
  · rw [if_pos htask, if_pos (m.nodeIdOf_eq he htask)]
  · have hother : m.nodeIdOf c.destination ≠ e.node := by
      rw [m.nodeIdOf_eq he' htask']
      intro hnode
      exact htask (honly e' he' hnode ▸ htask')
    rw [if_neg htask, if_neg hother]

/-- A task on node 0 that sends eight bits to a task on the given node. -/
def pair (node : Fin 2) : TaskMapping where
  nodes := 2
  communication := [⟨"producer", "consumer", 8⟩]
  core := [⟨"first", [⟨"producer", 0⟩]⟩, ⟨"second", [⟨"consumer", 0⟩]⟩]
  map := [⟨0, "first"⟩, ⟨node, "second"⟩]
  uids_nodup := by decide
  uid_ne := by decide
  tasks_nodup := by decide
  map_nodup := by revert node; decide
  map_known := by revert node; decide
  tasks_mapped := by revert node; decide

/-- The attributes of the applications. -/
def attributes : NocCtgApplication := NocCtgApplication.plain

end TaskMapping
end Ns3Noc
