import Mathlib
import Ns3Noc.PartialRuns

/-!
# Fault insertion

`NocFaultInsertionHelper` looks for a node of its container and sets the `Faulty` attribute of that
node or of its router. The four operations differ only in the target and in the value. A read of
the router of a faulty node stops the program, as does a missing router.
-/
namespace Ns3Noc.FaultInsertion
open PartialRuns

inductive FaultTarget | node | router
  deriving DecidableEq

/-- A `NocFaultyNode`; `router` is the `Faulty` attribute of the installed router, if any. -/
structure NocFaultyNode where
  id : UInt32
  faulty : Bool
  router : Option Bool
  deriving DecidableEq

/-- `NocFaultyNode::GetRouter`, which asserts that the node is not faulty. -/
def NocFaultyNode.getRouter (node : NocFaultyNode) : Option Bool :=
  if node.faulty then none else node.router

def getAttribute : FaultTarget → NocFaultyNode → Option Bool
  | .node, node => some node.faulty
  | .router, node => node.getRouter

def setAttribute : FaultTarget → Bool → NocFaultyNode → NocFaultyNode
  | .node, faulty, node => { node with faulty := faulty }
  | .router, faulty, node => { node with router := some faulty }

/-- The search loop from position `i` on. The cursor stays on the last node looked at, whether or
not that node has the id. -/
def searchNode (nodeId : UInt32) : List NocFaultyNode → ℕ → Option ℕ → Option ℕ
  | [], _, node => node
  | n :: container, i, _ =>
    if n.id = nodeId then some i else searchNode nodeId container (i + 1) (some i)

def setFaulty (target : FaultTarget) (value : Bool) (container : List NocFaultyNode)
    (nodeId : UInt32) : Option (List NocFaultyNode) :=
  match searchNode nodeId container 0 none with
  | none => some container -- only a warning
  | some i => do
    let node ← container[i]?
    let faulty ← getAttribute target node
    if faulty = value then some container
    else some (container.set i (setAttribute target value node))

def setNodeAsFaulty := setFaulty .node true

def setNodeAsNotFaulty := setFaulty .node false

def setNodeRouterAsFaulty := setFaulty .router true

def setNodeRouterAsNotFaulty := setFaulty .router false

inductive Call
  | setNodeAsFaulty (nodeId : UInt32)
  | setNodeAsNotFaulty (nodeId : UInt32)
  | setNodeRouterAsFaulty (nodeId : UInt32)
  | setNodeRouterAsNotFaulty (nodeId : UInt32)
  deriving DecidableEq

namespace Call

def nodeId : Call → UInt32
  | .setNodeAsFaulty i | .setNodeAsNotFaulty i => i
  | .setNodeRouterAsFaulty i | .setNodeRouterAsNotFaulty i => i

def target : Call → FaultTarget
  | .setNodeAsFaulty _ | .setNodeAsNotFaulty _ => .node
  | .setNodeRouterAsFaulty _ | .setNodeRouterAsNotFaulty _ => .router

def value : Call → Bool
  | .setNodeAsFaulty _ | .setNodeRouterAsFaulty _ => true
  | .setNodeAsNotFaulty _ | .setNodeRouterAsNotFaulty _ => false

def act (container : List NocFaultyNode) : Call → Option (List NocFaultyNode)
  | .setNodeAsFaulty i => FaultInsertion.setNodeAsFaulty container i
  | .setNodeAsNotFaulty i => FaultInsertion.setNodeAsNotFaulty container i
  | .setNodeRouterAsFaulty i => FaultInsertion.setNodeRouterAsFaulty container i
  | .setNodeRouterAsNotFaulty i => FaultInsertion.setNodeRouterAsNotFaulty container i

theorem act_eq (c : Call) (container : List NocFaultyNode) :
    c.act container = setFaulty c.target c.value container c.nodeId := by
  cases c <;> rfl

end Call

/-- The container and the calls made so far, the newest first. -/
structure FaultHistory where
  container : List NocFaultyNode
  calls : List Call
  deriving DecidableEq

def step (s : FaultHistory) (c : Call) : Option FaultHistory :=
  (c.act s.container).map fun container => ⟨container, c :: s.calls⟩

/-- What the last call that names the id asked for. -/
def lastNaming (calls : List Call) (target : FaultTarget) (nodeId : UInt32) : Option Bool :=
  (calls.find? fun c => c.target = target ∧ c.nodeId = nodeId).map Call.value

/-- The node as the calls that name it ask for; what no call names stays as it was. -/
def NocFaultyNode.after (calls : List Call) (node : NocFaultyNode) : NocFaultyNode where
  id := node.id
  faulty := (lastNaming calls .node node.id).getD node.faulty
  router := node.router.map (lastNaming calls .router node.id).getD

/-- Every node and every router is as the calls so far ask for. -/
def FollowsCalls (container : List NocFaultyNode) (s : FaultHistory) : Prop :=
  s.container = container.map (NocFaultyNode.after s.calls)

instance (container : List NocFaultyNode) : DecidablePred (FollowsCalls container) :=
  fun s => inferInstanceAs (Decidable (s.container = _))

/-- The node the search ends on: the one with the id, else the last of the container. -/
def cursor (container : List NocFaultyNode) (nodeId : UInt32) : Option NocFaultyNode :=
  (container.find? fun n => n.id = nodeId).or container.getLast?

/-- The attribute can be read where the search ends, and it is the one named or has the value
already. -/
def HitsTarget (s : FaultHistory) (c : Call) : Prop :=
  ∀ node ∈ cursor s.container c.nodeId, ∃ faulty ∈ getAttribute c.target node,
    node.id = c.nodeId ∨ faulty = c.value

/-! ## The search -/

theorem cursor_cons_of_ne {n : NocFaultyNode} {container : List NocFaultyNode} {nodeId : UInt32}
    (hn : n.id ≠ nodeId) (hne : container ≠ []) :
    cursor (n :: container) nodeId = cursor container nodeId := by
  obtain ⟨m, container, rfl⟩ := List.exists_cons_of_ne_nil hne
  simp [cursor, hn, List.getLast?_cons_cons]

/-- In a container with nodes the search ends on the position of the cursor. -/
theorem searchNode_spec (nodeId : UInt32) (container : List NocFaultyNode) (i : ℕ)
    (node : Option ℕ) (hne : container ≠ []) :
    ∃ j, searchNode nodeId container i node = some (i + j) ∧
      container[j]? = cursor container nodeId := by
  induction container generalizing i node with
  | nil => exact absurd rfl hne
  | cons n container ih =>
    by_cases hn : n.id = nodeId
    · exact ⟨0, by simp [searchNode, hn], by simp [cursor, hn]⟩
    · by_cases hc : container = []
      · subst hc
        exact ⟨0, by simp [searchNode, hn], by simp [cursor, hn]⟩
      · obtain ⟨j, hj, hcur⟩ := ih (i + 1) (some i) hc
        refine ⟨j + 1, ?_, ?_⟩
        · rw [searchNode, if_neg hn, hj]
          congr 1
          omega
        · rw [List.getElem?_cons_succ, hcur, cursor_cons_of_ne hn hc]

theorem cursor_isSome {container : List NocFaultyNode} (hne : container ≠ []) (nodeId : UInt32) :
    ∃ node, cursor container nodeId = some node := by
  cases h : container.find? fun n => n.id = nodeId with
  | none => exact ⟨container.getLast hne, by simp [cursor, h, List.getLast?_eq_some_getLast hne]⟩
  | some n => exact ⟨n, by simp [cursor, h]⟩

theorem cursor_mem {container : List NocFaultyNode} {nodeId : UInt32} {node : NocFaultyNode}
    (h : cursor container nodeId = some node) : node ∈ container := by
  cases hf : container.find? fun n => n.id = nodeId with
  | none =>
    rw [cursor, hf, Option.none_or] at h
    exact List.mem_of_getLast? h
  | some n =>
    rw [cursor, hf, Option.some_or] at h
    obtain rfl := Option.some.inj h
    exact List.mem_of_find?_eq_some hf

/-- The search ends on a node with another id only where no node has the id looked for. -/
theorem id_ne_of_cursor {container : List NocFaultyNode} {nodeId : UInt32} {node : NocFaultyNode}
    (h : cursor container nodeId = some node) (hne : node.id ≠ nodeId) {n : NocFaultyNode}
    (hn : n ∈ container) : n.id ≠ nodeId := by
  cases hf : container.find? fun n => n.id = nodeId with
  | none => simpa using List.find?_eq_none.mp hf n hn
  | some m =>
    rw [cursor, hf, Option.some_or] at h
    obtain rfl := Option.some.inj h
    exact absurd (by simpa using List.find?_some hf) hne

/-! ## One call -/

@[simp] theorem setAttribute_id (target : FaultTarget) (value : Bool) (n : NocFaultyNode) :
    (setAttribute target value n).id = n.id := by
  cases target <;> rfl

theorem setAttribute_of_getAttribute {target : FaultTarget} {value : Bool} {n : NocFaultyNode}
    (h : getAttribute target n = some value) : setAttribute target value n = n := by
  cases target with
  | node => simp [getAttribute] at h; simp [setAttribute, ← h]
  | router =>
    simp only [getAttribute, NocFaultyNode.getRouter] at h
    split at h
    · cases h
    · simp [setAttribute, ← h]

theorem eq_of_id_eq {nodes : List NocFaultyNode} (hids : (nodes.map (·.id)).Nodup)
    {n m : NocFaultyNode} (hn : n ∈ nodes) (hm : m ∈ nodes) (h : n.id = m.id) : n = m :=
  List.inj_on_of_nodup_map hids hn hm h

/-- With distinct ids, a change of the node at one position is a change of the node with its id. -/
theorem set_eq_map {container : List NocFaultyNode} (hids : (container.map (·.id)).Nodup) {i : ℕ}
    {node : NocFaultyNode} (hi : container[i]? = some node) (f : NocFaultyNode → NocFaultyNode) :
    container.set i (f node) = container.map fun n => if n.id = node.id then f n else n := by
  apply List.ext_getElem?
  intro j
  obtain ⟨hlt, hi⟩ := List.getElem?_eq_some_iff.mp hi
  rw [List.getElem?_set, List.getElem?_map]
  by_cases hij : i = j
  · subst hij
    simp [hlt, hi]
  · rw [if_neg hij]
    cases hj : container[j]? with
    | none => rfl
    | some n =>
      obtain ⟨hjlt, hj⟩ := List.getElem?_eq_some_iff.mp hj
      have hne : n.id ≠ node.id := by
        intro h
        have hnode : container[i] = container[j] :=
          eq_of_id_eq hids (List.getElem_mem hlt) (List.getElem_mem hjlt) (by rw [hi, hj, h])
        exact hij ((List.Nodup.of_map _ hids).getElem_inj_iff.mp hnode)
      simp [hne]

theorem setFaulty_nil (target : FaultTarget) (value : Bool) (nodeId : UInt32) :
    setFaulty target value [] nodeId = some [] := rfl

/-- A call sets the attribute where the search ends, and stops where it cannot be read. -/
theorem setFaulty_of_cursor {container : List NocFaultyNode} (hids : (container.map (·.id)).Nodup)
    {nodeId : UInt32} {node : NocFaultyNode} (hc : cursor container nodeId = some node)
    (target : FaultTarget) (value : Bool) :
    setFaulty target value container nodeId = (getAttribute target node).map fun _ =>
      container.map fun n => if n.id = node.id then setAttribute target value n else n := by
  have hne : container ≠ [] := List.ne_nil_of_mem (cursor_mem hc)
  obtain ⟨i, hi, hcur⟩ := searchNode_spec nodeId container 0 none hne
  rw [hc] at hcur
  rw [Nat.zero_add] at hi
  have hset := set_eq_map hids hcur (setAttribute target value)
  cases ha : getAttribute target node with
  | none => simp [setFaulty, hi, hcur, ha]
  | some faulty =>
    by_cases hv : faulty = value
    · subst hv
      obtain ⟨hlt, rfl⟩ := List.getElem?_eq_some_iff.mp hcur
      rw [setAttribute_of_getAttribute ha, List.set_getElem_self] at hset
      simp [setFaulty, hi, hcur, ha, ← hset]
    · simp [setFaulty, hi, hcur, ha, hv, hset]

theorem getAttribute_setAttribute {target : FaultTarget} {faulty : Bool} {n : NocFaultyNode}
    (h : getAttribute target n = some faulty) (value : Bool) :
    getAttribute target (setAttribute target value n) = some value := by
  cases target with
  | node => rfl
  | router =>
    have hn : n.faulty = false := by
      by_contra hf
      simp [getAttribute, NocFaultyNode.getRouter, hf] at h
    simp [getAttribute, setAttribute, NocFaultyNode.getRouter, hn]

/-! ## What the calls ask for -/

@[simp] theorem after_id (calls : List Call) (n : NocFaultyNode) : (n.after calls).id = n.id := rfl

@[simp] theorem after_nil (n : NocFaultyNode) : n.after [] = n := by
  cases n with
  | mk id faulty router => cases router <;> rfl

theorem lastNaming_cons (c : Call) (calls : List Call) (target : FaultTarget) (nodeId : UInt32) :
    lastNaming (c :: calls) target nodeId =
      if c.target = target ∧ c.nodeId = nodeId then some c.value
      else lastNaming calls target nodeId := by
  by_cases h : c.target = target ∧ c.nodeId = nodeId <;> simp [lastNaming, h]

theorem after_cons_of_ne {c : Call} {n : NocFaultyNode} (h : n.id ≠ c.nodeId) (calls : List Call) :
    n.after (c :: calls) = n.after calls := by
  simp [NocFaultyNode.after, lastNaming_cons, h.symm]

theorem after_cons_of_eq {c : Call} {n : NocFaultyNode} (h : n.id = c.nodeId) {calls : List Call}
    {faulty : Bool} (hread : getAttribute c.target (n.after calls) = some faulty) :
    n.after (c :: calls) = setAttribute c.target c.value (n.after calls) := by
  cases ht : c.target with
  | node => simp [NocFaultyNode.after, setAttribute, lastNaming_cons, h, ht]
  | router =>
    rw [ht, getAttribute, NocFaultyNode.getRouter] at hread
    split at hread
    · cases hread
    · obtain ⟨router, hrouter, -⟩ := Option.map_eq_some_iff.mp hread
      simp [NocFaultyNode.after, setAttribute, lastNaming_cons, h, ht, hrouter]

theorem followsCalls_start (container : List NocFaultyNode) :
    FollowsCalls container ⟨container, []⟩ := by
  have hid : NocFaultyNode.after [] = id := funext after_nil
  rw [FollowsCalls, hid, List.map_id]

variable {container : List NocFaultyNode}

theorem FollowsCalls.nodup_ids {s : FaultHistory} (hs : FollowsCalls container s)
    (hids : (container.map (·.id)).Nodup) : (s.container.map (·.id)).Nodup := by
  rw [hs, List.map_map]
  exact hids

/-- A call that names no node of the container changes nothing, where the states before and after
it follow the calls. -/
theorem FollowsCalls.unchanged {s s' : FaultHistory} {c : Call} (hs : FollowsCalls container s)
    (hs' : FollowsCalls container s') (hcalls : s'.calls = c :: s.calls)
    (hunknown : ∀ n ∈ container, n.id ≠ c.nodeId) : s'.container = s.container := by
  rw [hs, hs', hcalls]
  exact List.map_congr_left fun n hn => after_cons_of_ne (hunknown n hn) s.calls

theorem step_of_cursor {s : FaultHistory} (hids : (s.container.map (·.id)).Nodup) {c : Call}
    {node : NocFaultyNode} (hc : cursor s.container c.nodeId = some node) {faulty : Bool}
    (hread : getAttribute c.target node = some faulty) :
    step s c = some ⟨s.container.map fun n =>
      if n.id = node.id then setAttribute c.target c.value n else n, c :: s.calls⟩ := by
  simp [step, Call.act_eq, setFaulty_of_cursor hids hc, hread]

theorem step_of_hitsTarget (hids : (container.map (·.id)).Nodup) {s : FaultHistory} {c : Call}
    (hs : FollowsCalls container s) (hok : HitsTarget s c) :
    ∃ s', step s c = some s' ∧ FollowsCalls container s' := by
  have hids' := hs.nodup_ids hids
  by_cases hne : s.container = []
  · have hnil : container = [] := by simpa [FollowsCalls, hne] using hs
    refine ⟨⟨[], c :: s.calls⟩, ?_, by simp [FollowsCalls, hnil]⟩
    simp [step, Call.act_eq, hne, setFaulty_nil]
  · obtain ⟨node, hc⟩ := cursor_isSome hne c.nodeId
    obtain ⟨faulty, hread, hhit⟩ := hok node hc
    refine ⟨_, step_of_cursor hids' hc hread, ?_⟩
    show s.container.map _ = container.map _
    rw [hs, List.map_map]
    apply List.map_congr_left
    intro n hn
    have hmem : n.after s.calls ∈ s.container := hs ▸ List.mem_map_of_mem hn
    simp only [Function.comp_apply]
    by_cases hnode : (n.after s.calls).id = node.id
    · have heq : n.after s.calls = node := eq_of_id_eq hids' hmem (cursor_mem hc) hnode
      rw [if_pos hnode]
      rcases Decidable.em (node.id = c.nodeId) with hid | hid
      · have hid' : n.id = c.nodeId := hnode.trans hid
        rw [← heq] at hread
        exact (after_cons_of_eq hid' hread).symm
      · obtain rfl := hhit.resolve_left hid
        have hne' : n.id ≠ c.nodeId := fun h => hid (hnode.symm.trans h)
        rw [after_cons_of_ne hne', heq, setAttribute_of_getAttribute hread]
    · rw [if_neg hnode, after_cons_of_ne]
      intro hid
      exact id_ne_of_cursor hc (fun h => hnode (hid.trans h.symm)) hmem hid

theorem not_followsCalls_of_miss (hids : (container.map (·.id)).Nodup) {s s' : FaultHistory}
    {c : Call} (hs : FollowsCalls container s) (hmiss : ¬HitsTarget s c)
    (hstep : step s c = some s') : ¬FollowsCalls container s' := by
  have hids' := hs.nodup_ids hids
  simp only [HitsTarget, not_forall, not_exists, not_and, not_or] at hmiss
  obtain ⟨node, hc, hmiss⟩ := hmiss
  cases hread : getAttribute c.target node with
  | none => simp [step, Call.act_eq, setFaulty_of_cursor hids' hc, hread] at hstep
  | some faulty =>
    obtain ⟨hid, hvalue⟩ := hmiss faulty hread
    rw [step_of_cursor hids' hc hread] at hstep
    obtain rfl := Option.some.inj hstep
    intro hs'
    -- the call names no node, yet the node the search ended on has changed
    have hunknown : ∀ n ∈ container, n.id ≠ c.nodeId := by
      intro n hn
      have hmem : n.after s.calls ∈ s.container := hs ▸ List.mem_map_of_mem hn
      rw [← after_id s.calls n]
      exact id_ne_of_cursor hc hid hmem
    have hsame := hs.unchanged hs' rfl hunknown
    have hnode := List.map_inj_left.mp (hsame.trans (List.map_id _).symm) node (cursor_mem hc)
    rw [if_pos rfl, id] at hnode
    have hset := getAttribute_setAttribute hread c.value
    rw [hnode, hread] at hset
    exact hvalue (Option.some.inj hset)

/-- The calls run through, with every node and every router as they ask for exactly when each of
them reads the attribute it looks for and finds it on the node it names, or finds its value there
already. -/
theorem faults_follow_calls_iff (container : List NocFaultyNode)
    (hids : (container.map (·.id)).Nodup) (calls : List Call) :
    (run step ⟨container, []⟩ calls).isSome ∧
        Always step (FollowsCalls container) ⟨container, []⟩ calls ↔
      Allowed step HitsTarget ⟨container, []⟩ calls :=
  completes_iff_allowed (fun _ h => h) (fun _ _ => step_of_hitsTarget hids)
    (fun _ _ hs hmiss _ => not_followsCalls_of_miss hids hs hmiss)
    (followsCalls_start container) calls

theorem faults_follow_calls_iff_two_nodes :
    ((run step ⟨[⟨0, false, some false⟩, ⟨1, true, some false⟩], []⟩
        [.setNodeAsFaulty 0, .setNodeAsNotFaulty 1]).isSome ∧
      Always step (FollowsCalls [⟨0, false, some false⟩, ⟨1, true, some false⟩])
        ⟨[⟨0, false, some false⟩, ⟨1, true, some false⟩], []⟩
        [.setNodeAsFaulty 0, .setNodeAsNotFaulty 1]) ↔
    Allowed step HitsTarget ⟨[⟨0, false, some false⟩, ⟨1, true, some false⟩], []⟩
      [.setNodeAsFaulty 0, .setNodeAsNotFaulty 1] :=
  faults_follow_calls_iff _ (by decide) _

/-- A call with an unknown id makes the last node of the container faulty. -/
theorem faults_miss_unknown_id :
    ¬∀ (container : List NocFaultyNode), (container.map (·.id)).Nodup → ∀ calls : List Call,
      (run step ⟨container, []⟩ calls).isSome →
        Always step (FollowsCalls container) ⟨container, []⟩ calls := by
  intro h
  have hlast := h [⟨0, false, some false⟩, ⟨1, false, some false⟩] (by decide)
    [.setNodeAsFaulty 5] (by decide)
  revert hlast
  decide

end Ns3Noc.FaultInsertion
