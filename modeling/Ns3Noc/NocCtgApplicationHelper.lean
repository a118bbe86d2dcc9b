import Mathlib.Data.List.Nodup
import Mathlib.Data.List.Pairwise
import Ns3Noc.KeyedTables
import Ns3Noc.NocCtgApplication

/-!
# NocCtgApplicationHelper

What the helper reads from the XML files of one task graph, and the lists that it builds for the
application of each mapped core. Node ids are decimal strings in the files and numbers here.
-/
namespace Ns3Noc

/-- An edge of the communication task graph; the volume is in bits. -/
structure Communication where
  source : String
  destination : String
  volume : ℚ
  deriving DecidableEq, Repr

/-- A core and the tasks that the APCG assigns to it. -/
structure ApcgCore where
  uid : String
  task : List TaskData
  deriving DecidableEq, Repr

structure MapEntry where
  node : ℕ
  core : String
  deriving DecidableEq, Repr

/-- `nodes` is the size of the node container. -/
structure NocCtgApplicationHelper where
  nodes : ℕ
  communication : List Communication
  core : List ApcgCore
  map : List MapEntry
  deriving DecidableEq, Repr

/-- The lists that `Initialize` builds for one core. -/
structure CtgTaskLists where
  taskList : List TaskData := []
  remoteTaskList : List DependentTaskData := []
  localTaskList : List DependentTaskData := []
  deriving DecidableEq, Repr

namespace NocCtgApplicationHelper
variable (m : NocCtgApplicationHelper)

/-- A core without uid and tasks stands for a core that is not found. -/
def findCoreInApcg (coreId : String) : ApcgCore :=
  (m.core.find? (fun c => c.uid = coreId)).getD ⟨"", []⟩

def findNodeIdForTask (taskId : String) : Option ℕ :=
  m.core.findSome? (fun c => c.task.findSome? (fun t =>
    if taskId = t.id then (m.map.find? (fun e => e.core = c.uid)).map MapEntry.node else none))

/-- A node id that is not found is only logged, and the variable keeps what it held. -/
def nodeIdOf (taskId : String) : ℕ := (m.findNodeIdForTask taskId).getD 0

def dependentTaskData (c : Communication) : DependentTaskData :=
  ⟨c.source, m.nodeIdOf c.source, c.volume, c.destination, m.nodeIdOf c.destination⟩

/-- A communication is looked at once for each task of the core. -/
def addCommunication (t : TaskData) (lists : CtgTaskLists) (c : Communication) : CtgTaskLists :=
  { lists with
    remoteTaskList := if c.destination = t.id then lists.remoteTaskList ++ [m.dependentTaskData c]
      else lists.remoteTaskList
    localTaskList := if c.source = t.id then lists.localTaskList ++ [m.dependentTaskData c]
      else lists.localTaskList }

def addTask (lists : CtgTaskLists) (t : TaskData) : CtgTaskLists :=
  m.communication.foldl (m.addCommunication t) { lists with taskList := lists.taskList ++ [t] }

def taskLists (core : ApcgCore) : CtgTaskLists := core.task.foldl m.addTask {}

/-- `Install` on a node; `base` has the attributes that all applications share. -/
def install (base : NocCtgApplication) (node : ℕ) (lists : CtgTaskLists) : NocCtgApplication :=
  { base with
    nodeId := node
    taskList := lists.taskList
    remoteTaskList := lists.remoteTaskList
    localTaskList := lists.localTaskList }

/-- The application for one entry of the mapping. -/
def application (base : NocCtgApplication) (e : MapEntry) : NocCtgApplication :=
  install base e.node (m.taskLists (m.findCoreInApcg e.core))

/-- `Initialize`, with its assertions about cores and nodes. -/
def initializeApplications (base : NocCtgApplication) : Option (List NocCtgApplication) :=
  m.map.mapM (fun e =>
    if (m.findCoreInApcg e.core).uid = "" ∨ m.nodes ≤ e.node then none
    else some (m.application base e))

/-- The ids of the tasks on the core of an entry. -/
def tasksOf (e : MapEntry) : List String := (m.findCoreInApcg e.core).task.map TaskData.id

end NocCtgApplicationHelper

/-- An assignment of tasks to cores and of cores to nodes: every task is on one core and every
core on one node, and all communicating tasks are mapped. -/
structure TaskMapping extends NocCtgApplicationHelper where
  uids_nodup : (core.map ApcgCore.uid).Nodup
  uid_ne : ∀ c ∈ core, c.uid ≠ ""
  tasks_nodup : (core.flatMap (fun c => c.task.map TaskData.id)).Nodup
  map_nodup : (map.map MapEntry.core).Nodup
  map_known : ∀ e ∈ map, (∃ c ∈ core, c.uid = e.core) ∧ e.node < nodes
  tasks_mapped : ∀ c ∈ communication,
    (∃ e ∈ map, c.source ∈ toNocCtgApplicationHelper.tasksOf e) ∧
    ∃ e ∈ map, c.destination ∈ toNocCtgApplicationHelper.tasksOf e

namespace NocCtgApplicationHelper
variable (m : NocCtgApplicationHelper)

theorem addTask_eq (lists : CtgTaskLists) (t : TaskData) :
    m.addTask lists t =
      ⟨lists.taskList ++ [t],
        lists.remoteTaskList ++
          (m.communication.filter (fun c => c.destination = t.id)).map m.dependentTaskData,
        lists.localTaskList ++
          (m.communication.filter (fun c => c.source = t.id)).map m.dependentTaskData⟩ := by
  have hfold : ∀ (cs : List Communication) (lists : CtgTaskLists),
      cs.foldl (m.addCommunication t) lists =
        ⟨lists.taskList,
          lists.remoteTaskList ++
            (cs.filter (fun c => c.destination = t.id)).map m.dependentTaskData,
          lists.localTaskList ++
            (cs.filter (fun c => c.source = t.id)).map m.dependentTaskData⟩ := by
    intro cs
    induction cs with
    | nil => simp
    | cons c cs ih =>
      intro lists
      rw [List.foldl_cons, ih]
      by_cases hd : c.destination = t.id <;> by_cases hs : c.source = t.id <;>
        simp [addCommunication, hd, hs]
  rw [addTask, hfold]

theorem taskLists_eq (core : ApcgCore) :
    m.taskLists core =
      ⟨core.task,
        ((core.task.map TaskData.id).flatMap (fun k =>
          m.communication.filter (fun c => c.destination = k))).map m.dependentTaskData,
        ((core.task.map TaskData.id).flatMap (fun k =>
          m.communication.filter (fun c => c.source = k))).map m.dependentTaskData⟩ := by
  have hfold : ∀ (ts : List TaskData) (lists : CtgTaskLists),
      ts.foldl m.addTask lists =
        ⟨lists.taskList ++ ts,
          lists.remoteTaskList ++ ((ts.map TaskData.id).flatMap (fun k =>
            m.communication.filter (fun c => c.destination = k))).map m.dependentTaskData,
          lists.localTaskList ++ ((ts.map TaskData.id).flatMap (fun k =>
            m.communication.filter (fun c => c.source = k))).map m.dependentTaskData⟩ := by
    intro ts
    induction ts with
    | nil => simp
    | cons t ts ih =>
      intro lists
      rw [List.foldl_cons, ih, addTask_eq]
      simp
  rw [taskLists, hfold]
  simp

end NocCtgApplicationHelper

namespace TaskMapping
open NocCtgApplicationHelper
variable (m : TaskMapping) {e : MapEntry}

theorem findCoreInApcg_mem (he : e ∈ m.map) :
    m.findCoreInApcg e.core ∈ m.core ∧ (m.findCoreInApcg e.core).uid = e.core := by
  obtain ⟨⟨c, hc, huid⟩, -⟩ := m.map_known e he
  rw [findCoreInApcg, ← huid, KeyedLists.find?_key ApcgCore.uid m.uids_nodup hc]
  exact ⟨hc, rfl⟩

/-- No assertion of `Initialize` fails. -/
theorem initializeApplications_eq (base : NocCtgApplication) :
    m.initializeApplications base = some (m.map.map (m.application base)) := by
  have hall : ∀ es : List MapEntry, (∀ e ∈ es, e ∈ m.map) →
      es.mapM (fun e =>
        if (m.findCoreInApcg e.core).uid = "" ∨ m.nodes ≤ e.node then none
        else some (m.application base e)) = some (es.map (m.application base)) := by
    intro es hes
    induction es with
    | nil => rfl
    | cons e es ih =>
      have he := hes e List.mem_cons_self
      have huid := m.uid_ne _ (m.findCoreInApcg_mem he).1
      have hnode := (m.map_known e he).2
      rw [List.mapM_cons, if_neg (by simp [huid, hnode]),
        ih (fun e h => hes e (List.mem_cons_of_mem _ h))]
      rfl
  exact hall m.map (fun _ h => h)

/-- A task of a mapped core is found on the node of the core. -/
theorem findNodeIdForTask_eq (he : e ∈ m.map) {taskId : String} (ht : taskId ∈ m.tasksOf e) :
    m.findNodeIdForTask taskId = some e.node := by
  obtain ⟨hcore, huid⟩ := m.findCoreInApcg_mem he
  obtain ⟨before, after, hsplit⟩ := List.append_of_mem hcore
  have hnodup := m.tasks_nodup
  rw [hsplit, List.flatMap_append, List.nodup_append] at hnodup
  rw [findNodeIdForTask, List.findSome?_eq_some_iff]
  refine ⟨before, _, after, hsplit, ?_, ?_⟩
  · have hfound : ∀ ts : List TaskData, taskId ∈ ts.map TaskData.id →
        ts.findSome? (fun t => if taskId = t.id then
          (m.map.find? (fun e' => e'.core = (m.findCoreInApcg e.core).uid)).map MapEntry.node
          else none) = some e.node := by
      intro ts hts
      rw [huid, KeyedLists.find?_key MapEntry.core m.map_nodup he]
      induction ts with
      | nil => simp at hts
      | cons t ts ih =>
        by_cases hid : taskId = t.id
        · simp [hid]
        · simp only [List.map_cons, List.mem_cons, hid, false_or] at hts
          simp only [List.findSome?_cons, hid, if_false]
          exact ih hts
    exact hfound _ ht
  · intro c hc
    rw [List.findSome?_eq_none_iff]
    intro t htask
    have hother : taskId ≠ t.id := by
      rintro rfl
      have hbefore : t.id ∈ before.flatMap (fun c => c.task.map TaskData.id) :=
        List.mem_flatMap.mpr ⟨c, hc, List.mem_map_of_mem htask⟩
      have hown : t.id ∈ (m.findCoreInApcg e.core :: after).flatMap
          (fun c => c.task.map TaskData.id) :=
        List.mem_flatMap.mpr ⟨_, List.mem_cons_self, ht⟩
      exact hnodup.2.2 _ hbefore _ hown rfl
    rw [if_neg hother]

theorem nodeIdOf_eq (he : e ∈ m.map) {taskId : String} (ht : taskId ∈ m.tasksOf e) :
    m.nodeIdOf taskId = e.node := by
  rw [nodeIdOf, m.findNodeIdForTask_eq he ht, Option.getD_some]

theorem tasksOf_nodup (he : e ∈ m.map) : (m.tasksOf e).Nodup :=
  (List.nodup_flatMap.mp m.tasks_nodup).1 _ (m.findCoreInApcg_mem he).1

/-- The volumes that go to the tasks of a core are what its application waits for. -/
theorem totalData_application (base : NocCtgApplication) (he : e ∈ m.map) :
    (m.application base e).totalData =
      (m.communication.map (fun c => if c.destination ∈ m.tasksOf e then c.volume else 0)).sum := by
  have hremote : (m.application base e).remoteTaskList = ((m.tasksOf e).flatMap (fun k =>
      m.communication.filter (fun c => c.destination = k))).map m.dependentTaskData := by
    simp only [application, install, taskLists_eq, tasksOf]
  have hcontains : ∀ d ∈ (m.application base e).remoteTaskList,
      (m.application base e).taskListContainsTask d.receivingTaskId = true := by
    intro d hd
    rw [hremote] at hd
    simp only [List.mem_map, List.mem_flatMap, List.mem_filter, decide_eq_true_eq] at hd
    obtain ⟨c, ⟨k, hk, -, rfl⟩, rfl⟩ := hd
    simp only [NocCtgApplication.taskListContainsTask, application, install, taskLists_eq,
      List.any_eq_true, beq_iff_eq, dependentTaskData]
    simpa [tasksOf] using hk
  have hfold : ∀ (ds : List DependentTaskData) (total : ℚ),
      (∀ d ∈ ds, (m.application base e).taskListContainsTask d.receivingTaskId = true) →
      ds.foldl (fun totalData d =>
        if (m.application base e).taskListContainsTask d.receivingTaskId then totalData + d.data
        else totalData) total = total + (ds.map DependentTaskData.data).sum := by
    intro ds
    induction ds with
    | nil => simp
    | cons d ds ih =>
      intro total hds
      rw [List.foldl_cons, if_pos (hds d List.mem_cons_self),
        ih _ (fun d h => hds d (List.mem_cons_of_mem _ h)), List.map_cons, List.sum_cons, add_assoc]
  rw [NocCtgApplication.totalData, hfold _ 0 hcontains, zero_add, hremote, List.map_map]
  exact KeyedLists.sum_grouped Communication.destination Communication.volume m.communication
    (m.tasksOf_nodup he)

theorem map_list_nodup : m.map.Nodup := m.map_nodup.of_map MapEntry.core

theorem tasksOf_unique {e e' : MapEntry} (he : e ∈ m.map) (he' : e' ∈ m.map) {taskId : String}
    (ht : taskId ∈ m.tasksOf e) (ht' : taskId ∈ m.tasksOf e') : e' = e := by
  obtain ⟨hcore, huid⟩ := m.findCoreInApcg_mem he
  obtain ⟨hcore', huid'⟩ := m.findCoreInApcg_mem he'
  have hsame : m.findCoreInApcg e'.core = m.findCoreInApcg e.core := by
    by_contra hne
    have hsymm : Std.Symm (Function.onFun List.Disjoint (fun c : ApcgCore => c.task.map TaskData.id)) :=
      ⟨fun _ _ h _ hc hc' => h hc' hc⟩
    exact (List.nodup_flatMap.mp m.tasks_nodup).2.forall hcore' hcore hne ht' ht
  exact List.inj_on_of_nodup_map m.map_nodup he' he (by rw [← huid', ← huid, hsame])

/-- Every communication is in the local task list of exactly one application. -/
theorem sum_localTaskList (base : NocCtgApplication) (f : DependentTaskData → ℚ) :
    (m.map.map (fun e => ((m.application base e).localTaskList.map f).sum)).sum =
      (m.communication.map (fun c => f (m.dependentTaskData c))).sum := by
  have hgroup : ∀ e ∈ m.map, ((m.application base e).localTaskList.map f).sum =
      (m.communication.map (fun c =>
        if c.source ∈ m.tasksOf e then f (m.dependentTaskData c) else 0)).sum := by
    intro e he
    simp only [application, install, taskLists_eq, List.map_map]
    exact KeyedLists.sum_grouped Communication.source (f ∘ m.dependentTaskData) m.communication
      (m.tasksOf_nodup he)
  rw [List.map_congr_left hgroup]
  apply KeyedLists.sum_owned (fun e (c : Communication) => c.source ∈ m.tasksOf e)
    (fun c => f (m.dependentTaskData c)) m.map_list_nodup
  intro c hc
  obtain ⟨⟨e, he, hsource⟩, -⟩ := m.tasks_mapped c hc
  refine ⟨e, he, ?_⟩
  intro e' he'
  exact ⟨fun h => m.tasksOf_unique he he' hsource h, fun h => h ▸ hsource⟩

end TaskMapping
end Ns3Noc
