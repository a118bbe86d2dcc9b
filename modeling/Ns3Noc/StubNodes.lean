import Ns3Noc.GlobalRouteManager

/-!
# Stub nodes

A router with one link to another router gets a default route instead of the shortest path tree.
In the tree every vertex inherits the exit of that link, so that all routes leave by it; but its
next hop is taken from the neighbour's first link record with the id of the root, of whatever type.
-/
namespace Ns3Noc.GlobalRouting
open StaticRouting

/-- The route leaves by an exit whose interface was found. -/
structure Via (exit : Ipv4Address × ℤ) (route : Installed) : Prop where
  gateway : route.entry.gateway = exit.1
  interface : route.entry.interface = asUnsigned exit.2
  found : 0 ≤ exit.2

/-- All root exits of a vertex are the same one, and no network is next to the root. -/
structure SPFVertex.Leaves (exit : Ipv4Address × ℤ) (v : SPFVertex) : Prop where
  exits : ∀ x ∈ v.ecmpRootExits, x = exit
  network : v.lsa.isRouter = false → 0 ∉ v.parents

structure Calculation.Leaves (exit : Ipv4Address × ℤ) (s : Calculation) : Prop where
  vertices : ∀ v ∈ s.vertices, v.Leaves exit
  candidates : 0 ∉ s.candidates
  installed : ∀ route ∈ s.installed, Via exit route

section Vertices
variable {exit : Ipv4Address × ℤ} {v w w' : SPFVertex} {lsa : GlobalRoutingLSA}

namespace SPFVertex

theorem leaves_create (lsa : GlobalRoutingLSA) : (create lsa).Leaves exit where
  exits _ hx := absurd hx List.not_mem_nil
  network _ h := absurd h List.not_mem_nil

theorem Leaves.exit_of_getRootExitDirection (h : v.Leaves exit) {x : Ipv4Address × ℤ}
    (hx : v.getRootExitDirection = some x) : x = exit := by
  refine h.exits x ?_
  rw [getRootExitDirection] at hx
  split at hx
  · next y hy =>
    rw [hy, Option.some.inj hx]
    exact List.mem_singleton_self x
  · cases hx

theorem Leaves.mergeRootExitDirections (h : v.Leaves exit) (hw : w.Leaves exit) :
    (v.mergeRootExitDirections w).Leaves exit where
  exits x hx := by
    have hmem := (List.destutter_sublist _ _).mem hx
    rw [List.mem_mergeSort, List.mem_append] at hmem
    exact hmem.elim (h.exits x) (hw.exits x)
  network := h.network

theorem Leaves.mergeParent (h : v.Leaves exit) (address : ℕ → ℕ) (hw : 0 ∉ w.parents) :
    (v.mergeParent address w).Leaves exit where
  exits := h.exits
  network hlsa hx := by
    have hmem := (List.destutter_sublist _ _).mem hx
    rw [List.mem_mergeSort, List.mem_append] at hmem
    exact hmem.elim (h.network hlsa) hw

end SPFVertex

open Calculation in
/-- Behind the root, exits are inherited. -/
theorem exits_of_nexthop {nodes : List Node} {number : ℕ} {l : Option GlobalRoutingLinkRecord}
    (hv : v.Leaves exit) (hnumber : number ≠ 0) (hw' : nexthop nodes v w number l = some w') :
    (∀ x ∈ w'.ecmpRootExits, x = exit) ∧ w'.lsa = w.lsa := by
  rw [nexthop, if_neg hnumber] at hw'
  split at hw'
  · next hlsa =>
    rw [if_neg fun hhead => hv.network hlsa (List.mem_of_head? hhead)] at hw'
    obtain ⟨x, hx, hw'⟩ := Option.bind_eq_some_iff.mp hw'
    obtain rfl := Option.some.inj hw'
    refine ⟨fun y hy => ?_, rfl⟩
    rw [List.mem_singleton.mp hy]
    exact hv.exit_of_getRootExitDirection hx
  · obtain rfl := Option.some.inj hw'
    exact ⟨hv.exits, rfl⟩

end Vertices

/-! ## Steps behind the root -/

section Steps
variable {exit : Ipv4Address × ℤ} {s s' : Calculation} {nodes : List Node} {v w : ℕ}
  {l : Option GlobalRoutingLinkRecord} {distance : UInt32} {lsa : GlobalRoutingLSA}

namespace Calculation

theorem Leaves.get (h : s.Leaves exit) {i : ℕ} {v : SPFVertex} (hv : s.vertices[i]? = some v) :
    v.Leaves exit :=
  h.vertices v (List.mem_of_getElem? hv)

theorem Leaves.update (h : s.Leaves exit) {i : ℕ} {f : SPFVertex → SPFVertex}
    (hf : ∀ v, v.Leaves exit → (f v).Leaves exit) : (s.update i f).Leaves exit where
  vertices v hv := by
    obtain ⟨j, hj⟩ := List.mem_iff_getElem?.mp hv
    rw [Calculation.update, List.getElem?_modify] at hj
    obtain ⟨u, hu, rfl⟩ := Option.map_eq_some_iff.mp hj
    split
    · exact hf u (h.get hu)
    · exact h.get hu
  candidates := h.candidates
  installed := h.installed

theorem Leaves.allocate (h : s.Leaves exit) (lsa : GlobalRoutingLSA) :
    (s.allocate lsa).Leaves exit where
  vertices v hv := by
    rcases List.mem_append.mp hv with hv | hv
    · exact h.vertices v hv
    · rw [List.mem_singleton.mp hv]
      exact SPFVertex.leaves_create lsa
  candidates := h.candidates
  installed := h.installed

theorem Leaves.setStatus (h : s.Leaves exit) (lsa : GlobalRoutingLSA) (status : SPFStatus) :
    (s.setStatus lsa status).Leaves exit :=
  ⟨h.vertices, h.candidates, h.installed⟩

theorem Leaves.push (h : s.Leaves exit) (hw : w ≠ 0) : (s.push w).Leaves exit where
  vertices := h.vertices
  candidates hmem := by
    rcases List.mem_append.mp hmem with hmem | hmem
    · exact h.candidates (List.takeWhile_prefix _ |>.mem hmem)
    · rcases List.mem_cons.mp hmem with hmem | hmem
      · exact hw hmem.symm
      · exact h.candidates ((List.dropWhile_suffix _).mem hmem)
  installed := h.installed

theorem Leaves.reorder (h : s.Leaves exit) : s.reorder.Leaves exit where
  vertices := h.vertices
  candidates hmem := h.candidates (List.mem_mergeSort.mp hmem)
  installed := h.installed

theorem Leaves.nexthopCalculation (h : s.Leaves exit) (hv : v ≠ 0)
    (hs' : s.spfNexthopCalculation nodes v w l distance = some s') :
    s'.Leaves exit ∧ ∀ u, s'.vertices[w]? = some u → u.parents = [v] := by
  obtain ⟨parent, hparent, hs'⟩ := Option.bind_eq_some_iff.mp hs'
  obtain ⟨child, hchild, hs'⟩ := Option.bind_eq_some_iff.mp hs'
  obtain ⟨child', hnexthop, hs'⟩ := Option.bind_eq_some_iff.mp hs'
  obtain rfl := Option.some.inj hs'
  obtain ⟨hexits, -⟩ := exits_of_nexthop (h.get hparent) hv hnexthop
  refine ⟨h.update fun _ _ => ⟨hexits, fun _ hmem => ?_⟩, fun u hu => ?_⟩
  · exact hv (List.mem_singleton.mp hmem).symm
  · rw [Calculation.update, List.getElem?_modify_eq] at hu
    obtain ⟨-, -, rfl⟩ := Option.map_eq_some_iff.mp hu
    rfl

theorem Leaves.find_ne_zero (h : s.Leaves exit) {addr : Ipv4Address} (hw : s.find addr = some w) :
    w ≠ 0 := by
  rintro rfl
  exact h.candidates (List.mem_of_find?_eq_some hw)

theorem Leaves.considerNew (h : s.Leaves exit) (hv : v ≠ 0) (hroot : s.vertices ≠ [])
    (hs' : (s.allocate lsa).spfNexthopCalculation nodes v s.vertices.length l distance = some s')
    (status : SPFStatus) : ((s'.setStatus lsa status).push s.vertices.length).Leaves exit :=
  (((h.allocate lsa).nexthopCalculation hv hs').1.setStatus lsa status).push
    (List.length_pos_of_ne_nil hroot).ne'

theorem Leaves.consider (h : s.Leaves exit) (address : ℕ → ℕ) (hv : v ≠ 0)
    (hs' : consider nodes address v s (l, lsa) = some s') : s'.Leaves exit := by
  obtain ⟨vertex, hvertex, hs'⟩ := Option.bind_eq_some_iff.mp hs'
  have hroot : s.vertices ≠ [] := List.ne_nil_of_mem (List.mem_of_getElem? hvertex)
  dsimp only at hs'
  split at hs'
  · obtain rfl := Option.some.inj hs'
    exact h
  · obtain ⟨s₁, hs₁, hs'⟩ := Option.bind_eq_some_iff.mp hs'
    obtain rfl := Option.some.inj hs'
    exact h.considerNew hv hroot hs₁ .candidate
  · obtain ⟨cw, hcw, hs'⟩ := Option.bind_eq_some_iff.mp hs'
    obtain ⟨known, -, hs'⟩ := Option.bind_eq_some_iff.mp hs'
    split_ifs at hs' with hless hequal
    · obtain rfl := Option.some.inj hs'
      exact h
    · obtain ⟨s₁, hs₁, hs'⟩ := Option.bind_eq_some_iff.mp hs'
      obtain ⟨merged, hmerged, hs'⟩ := Option.bind_eq_some_iff.mp hs'
      obtain rfl := Option.some.inj hs'
      obtain ⟨h₁, hparents⟩ := (h.allocate lsa).nexthopCalculation hv hs₁
      refine h₁.update fun u hu =>
        (hu.mergeRootExitDirections (h₁.get hmerged)).mergeParent address ?_
      rw [hparents merged hmerged]
      exact fun hmem => hv (List.mem_singleton.mp hmem).symm
    · obtain ⟨s₁, hs₁, hs'⟩ := Option.bind_eq_some_iff.mp hs'
      obtain rfl := Option.some.inj hs'
      exact (h.nexthopCalculation hv hs₁).1.reorder

theorem Leaves.considerAll (h : s.Leaves exit) (address : ℕ → ℕ) (hv : v ≠ 0)
    (others : List (Option GlobalRoutingLinkRecord × GlobalRoutingLSA))
    (hs' : others.foldlM (Calculation.consider nodes address v) s = some s') :
    s'.Leaves exit := by
  induction others generalizing s with
  | nil =>
    obtain rfl := Option.some.inj hs'
    exact h
  | cons link others ih =>
    rw [List.foldlM_cons] at hs'
    obtain ⟨s₁, hs₁, hs'⟩ := Option.bind_eq_some_iff.mp hs'
    exact ih (h.consider address hv hs₁) hs'

theorem Leaves.spfNext (h : s.Leaves exit) {db : GlobalRouteManagerLSDB} (address : ℕ → ℕ)
    (hv : v ≠ 0) (hs' : s.spfNext db nodes address v = some s') : s'.Leaves exit := by
  obtain ⟨vertex, -, hs'⟩ := Option.bind_eq_some_iff.mp hs'
  obtain ⟨others, -, hs'⟩ := Option.bind_eq_some_iff.mp hs'
  exact h.considerAll address hv others hs'

theorem Leaves.foldl {β : Type} {f : Calculation → β → Calculation}
    (hf : ∀ s x, s.Leaves exit → (f s x).Leaves exit) (xs : List β) (h : s.Leaves exit) :
    (xs.foldl f s).Leaves exit := by
  induction xs generalizing s with
  | nil => exact h
  | cons x xs ih => exact ih (hf s x h)

theorem Leaves.spfVertexAddParent (h : s.Leaves exit) (v : ℕ) :
    (s.spfVertexAddParent v).Leaves exit := by
  rw [Calculation.spfVertexAddParent]
  split
  · refine Leaves.foldl (fun s parent hs => ?_) _ h
    exact hs.update fun _ hu => ⟨hu.exits, hu.network⟩
  · exact h

theorem Leaves.install (h : s.Leaves exit) {routes : List Installed}
    (hroutes : ∀ route ∈ routes, Via exit route) :
    Calculation.Leaves exit { s with installed := s.installed ++ routes } where
  vertices := h.vertices
  candidates := h.candidates
  installed route hmem :=
    (List.mem_append.mp hmem).elim (h.installed route) (hroutes route)

end Calculation

end Steps

/-! ## Routes -/

section Routes
variable {exit : Ipv4Address × ℤ} {v : SPFVertex} {nodes : List Node} {id : Ipv4Address}
  {node : ℕ} {route : Installed}

theorem via_of_mem_routesVia (hv : v.Leaves exit) {add : Ipv4Address → ℤ → Installed}
    (hadd : ∀ nextHop outIf, (add nextHop outIf).entry.gateway = nextHop ∧
      (add nextHop outIf).entry.interface = asUnsigned outIf)
    (hroute : route ∈ routesVia v.ecmpRootExits add) : Via exit route := by
  obtain ⟨x, hx, rfl⟩ := List.mem_map.mp hroute
  obtain ⟨hmem, hfound⟩ := List.mem_filter.mp hx
  obtain rfl := hv.exits x hmem
  exact ⟨(hadd x.1 x.2).1, (hadd x.1 x.2).2, of_decide_eq_true hfound⟩

theorem via_of_mem_intraAddRouter (hv : v.Leaves exit) (hroute : route ∈ intraAddRouter node v) :
    Via exit route := by
  obtain ⟨lr, -, hmem⟩ := List.mem_flatMap.mp hroute
  exact via_of_mem_routesVia hv (fun _ _ => ⟨rfl, rfl⟩) hmem

theorem via_of_mem_intraAdd (hv : v.Leaves exit) (hroute : route ∈ intraAdd nodes id v) :
    Via exit route := by
  rw [intraAdd] at hroute
  split at hroute
  · cases hnode : rootNode nodes id with
    | none =>
      rw [hnode] at hroute
      exact absurd hroute List.not_mem_nil
    | some node =>
      rw [hnode] at hroute
      exact via_of_mem_intraAddRouter hv hroute
  · obtain ⟨node, -, hmem⟩ := List.mem_flatMap.mp hroute
    exact via_of_mem_routesVia hv (fun _ _ => ⟨rfl, rfl⟩) hmem

theorem intraAdd_router {linkStateId : Ipv4Address} {n i : ℕ}
    {records : List GlobalRoutingLinkRecord} (hrouter : v.lsa = .routerLSA linkStateId n records)
    (hi : rootNode nodes id = some i) : intraAdd nodes id v = intraAddRouter i v := by
  rw [intraAdd, hi]
  simp [hrouter]

theorem via_of_mem_stubRoutes (hv : v.Leaves exit) (hroute : route ∈ stubRoutes nodes id v) :
    Via exit route := by
  rw [stubRoutes] at hroute
  split at hroute
  · exact absurd hroute List.not_mem_nil
  · cases hnode : rootNode nodes id with
    | none =>
      rw [hnode] at hroute
      exact absurd hroute List.not_mem_nil
    | some node =>
      rw [hnode] at hroute
      obtain ⟨l, -, hmem⟩ := List.mem_flatMap.mp hroute
      exact via_of_mem_routesVia hv (fun _ _ => ⟨rfl, rfl⟩) hmem

theorem via_of_mem_externalRoutes (hv : v.Leaves exit) {extlsa : ASExternalLSA}
    (hroute : route ∈ externalRoutes nodes id extlsa v) : Via exit route := by
  rw [externalRoutes] at hroute
  split at hroute
  · cases hnode : rootNode nodes id with
    | none =>
      rw [hnode] at hroute
      exact absurd hroute List.not_mem_nil
    | some node =>
      rw [hnode] at hroute
      exact via_of_mem_routesVia hv (fun _ _ => ⟨rfl, rfl⟩) hroute
  · exact absurd hroute List.not_mem_nil

end Routes

/-! ## The run behind the root -/

section Runs
variable {exit : Ipv4Address × ℤ} {s : Calculation} {nodes : List Node}

namespace Calculation

theorem Leaves.process {routes : SPFVertex → List Installed}
    (hroutes : ∀ v : SPFVertex, v.Leaves exit → ∀ route ∈ routes v, Via exit route) (fuel : ℕ)
    (h : s.Leaves exit) (v : ℕ) : (process routes fuel s v).Leaves exit := by
  induction fuel generalizing s v with
  | zero => exact h
  | succ fuel ih =>
    rw [Calculation.process]
    split
    · exact h
    · next vertex hvertex =>
      refine Leaves.foldl (fun s child hs => ?_) _ (h.install (hroutes vertex (h.get hvertex)))
      split
      · exact hs
      · exact (ih hs child).update fun _ hu => ⟨hu.exits, hu.network⟩

theorem Leaves.clearVertexProcessed (fuel : ℕ) (h : s.Leaves exit) (v : ℕ) :
    (clearVertexProcessed fuel s v).Leaves exit := by
  induction fuel generalizing s v with
  | zero => exact h
  | succ fuel ih =>
    rw [Calculation.clearVertexProcessed]
    split
    · exact h
    · exact (Leaves.foldl (fun _ child hs => ih hs child) _ h).update
        fun _ hu => ⟨hu.exits, hu.network⟩

theorem Leaves.secondStage (h : s.Leaves exit) (db : GlobalRouteManagerLSDB) (id : Ipv4Address)
    (fuel : ℕ) : (secondStage db nodes id fuel s).Leaves exit := by
  have hstubs := h.process (fun v hv route (hroute : route ∈ stubRoutes nodes id v) =>
    via_of_mem_stubRoutes hv hroute) fuel 0
  refine Leaves.foldl (fun s extlsa hs => ?_) _ hstubs
  exact (hs.clearVertexProcessed fuel 0).process
    (fun v hv route hroute => via_of_mem_externalRoutes hv hroute) fuel 0

/-- The loop behind the root: whatever is installed leaves by the one exit. -/
theorem Leaves.next (h : s.Leaves exit) (id : Ipv4Address) {w : ℕ} {rest : List ℕ}
    (hcandidates : s.candidates = w :: rest) {vertex : SPFVertex}
    (hvertex : s.vertices[w]? = some vertex) :
    Calculation.Leaves exit
      { ({ s with candidates := rest }.setStatus vertex.lsa .inSpfTree).spfVertexAddParent w with
        installed := (({ s with candidates := rest }.setStatus vertex.lsa
          .inSpfTree).spfVertexAddParent w).installed ++ intraAdd nodes id vertex } := by
  have hrest : Calculation.Leaves exit { s with candidates := rest } :=
    ⟨h.vertices, fun hmem => h.candidates (hcandidates ▸ List.mem_cons_of_mem w hmem),
      h.installed⟩
  exact ((hrest.setStatus vertex.lsa .inSpfTree).spfVertexAddParent w).install
    fun route hroute => via_of_mem_intraAdd (h.get hvertex) hroute

theorem Leaves.loop (h : s.Leaves exit) (db : GlobalRouteManagerLSDB) (address : ℕ → ℕ)
    (id : Ipv4Address) (fuel : ℕ) {v : ℕ} (hv : v ≠ 0) :
    (loop db nodes address id fuel s v).Leaves exit := by
  induction fuel generalizing s v with
  | zero => exact h
  | succ fuel ih =>
    rw [Calculation.loop]
    split
    · exact h
    · next s₁ hs₁ =>
      have h₁ := h.spfNext address hv hs₁
      split
      · exact h₁.secondStage db id fuel
      · next w rest hcandidates =>
        have hw : w ≠ 0 := by
          rintro rfl
          exact h₁.candidates (hcandidates ▸ List.mem_cons_self)
        split
        · exact h₁
        · next vertex hvertex => exact ih (h₁.next id hcandidates hvertex) hw

end Calculation

end Runs

/-! ## The root -/

/-- The routes of the whole calculation that match a destination leave as the default route does. -/
def Agrees (db : GlobalRouteManagerLSDB) (nodes : List Node) (address : ℕ → ℕ)
    (root : Ipv4Address) (defaultRoute : Installed) : Prop :=
  ∀ fuel s, spfCalculate db nodes address root fuel = some s → ∀ route ∈ s.installed,
    ∀ dest, route.Matches dest → route.entry.gateway = defaultRoute.entry.gateway ∧
      route.entry.interface = defaultRoute.entry.interface

/-- The links of a router that are not to stub networks -/
def transitLinks (db : GlobalRouteManagerLSDB) (root : Ipv4Address) :
    List GlobalRoutingLinkRecord :=
  ((db.getLSA root).elim [] (·.linkRecords)).filter (·.linkType ≠ .stubNetwork)

/-- The first record of a neighbour with the id of the root, of any type -/
def firstRecord (db : GlobalRouteManagerLSDB) (root neighbor : Ipv4Address) :
    Option GlobalRoutingLinkRecord :=
  (db.getLSA neighbor).bind fun w_lsa => w_lsa.linkRecords.find? (·.linkId = root)

/-- The first one that is for a point-to-point link -/
def firstPointToPoint (db : GlobalRouteManagerLSDB) (root neighbor : Ipv4Address) :
    Option GlobalRoutingLinkRecord :=
  (db.getLSA neighbor).bind fun w_lsa =>
    w_lsa.linkRecords.find? fun lr => lr.linkType = .pointToPoint && lr.linkId = root

/-- The neighbour's first record with the id of the root has the address of the neighbour on the
link, if any route can be installed at all. -/
def ClearNextHop (db : GlobalRouteManagerLSDB) (nodes : List Node) (root : Ipv4Address) : Prop :=
  ∀ l ∈ transitLinks db root, l.linkId = root ∨
    findOutgoingInterfaceId nodes root l.linkData Ipv4Mask.getOnes < 0 ∨
    (firstRecord db root l.linkId).map (·.linkData) =
      (firstPointToPoint db root l.linkId).map (·.linkData)

/-- What `CheckForStubNode` has seen when it adds a default route. -/
structure StubNode (db : GlobalRouteManagerLSDB) (nodes : List Node) (root : Ipv4Address)
    (defaultRoute : Installed) (node : ℕ) (linkRecords : List GlobalRoutingLinkRecord)
    (l lr : GlobalRoutingLinkRecord) (w_lsa : GlobalRoutingLSA) : Prop where
  self : db.getLSA root = some (.routerLSA root node linkRecords)
  links : linkRecords.filter (·.linkType ≠ .stubNetwork) = [l]
  neighbor : db.getLSA l.linkId = some w_lsa
  back : w_lsa.linkRecords.find? (fun lr => lr.linkType = .pointToPoint && lr.linkId = root) =
    some lr
  route : defaultRoute = addNetworkRouteTo node 0 0 lr.linkData
    (findOutgoingInterfaceId nodes root l.linkData Ipv4Mask.getOnes)

section Root
variable {db : GlobalRouteManagerLSDB} {nodes : List Node} {root : Ipv4Address}
  {defaultRoute : Installed} {node : ℕ} {linkRecords : List GlobalRoutingLinkRecord}
  {l lr first : GlobalRoutingLinkRecord} {w_lsa : GlobalRoutingLSA}

theorem linkStateId_of_getLSA {addr : Ipv4Address} {lsa : GlobalRoutingLSA}
    (h : db.getLSA addr = some lsa) : lsa.linkStateId = addr := by
  simpa using List.find?_some h

theorem exists_stubNode (h : checkForStubNode db nodes root = some (true, some defaultRoute)) :
    ∃ node linkRecords l lr w_lsa,
      StubNode db nodes root defaultRoute node linkRecords l lr w_lsa := by
  cases hroot : db.getLSA root with
  | none => simp [checkForStubNode, hroot] at h
  | some rlsa =>
    obtain rfl := linkStateId_of_getLSA hroot
    cases rlsa with
    | networkLSA linkStateId mask attachedRouters => simp [checkForStubNode, hroot] at h
    | routerLSA myRouterId node linkRecords =>
      simp only [checkForStubNode, hroot] at h
      split at h
      · cases h
      · next l hlinks =>
        split_ifs at h with htype
        · cases h
        · obtain ⟨w_lsa, hneighbor, h⟩ := Option.bind_eq_some_iff.mp h
          split at h
          · next lr hback =>
            cases h
            exact ⟨node, linkRecords, l, lr, w_lsa, hroot, hlinks, hneighbor, hback, rfl⟩
          · cases h
      · cases h

theorem getNextLink_first (id : Ipv4Address) (records : List GlobalRoutingLinkRecord) :
    getNextLink id false true records = records.find? (·.linkId = id) := by
  induction records with
  | nil => rfl
  | cons l rest ih =>
    rw [getNextLink]
    by_cases hl : l.linkId = id
    · rw [if_neg (not_not_intro hl), if_neg Bool.true_eq_false_eq_False, if_pos rfl]
      exact (List.find?_cons_of_pos (by simpa using hl)).symm
    · rw [if_pos hl, ih, List.find?_cons_of_neg (by simpa using hl)]

namespace Calculation
variable {s : Calculation} {address : ℕ → ℕ} {v : ℕ} {vertex w : SPFVertex}
  {link : Option GlobalRoutingLinkRecord}

theorem consider_inSpfTree (hvertex : s.vertices[v]? = some vertex)
    (hstatus : s.status w_lsa.linkStateId = .inSpfTree) :
    consider nodes address v s (link, w_lsa) = some s := by
  rw [consider]
  simp [hvertex, hstatus]

theorem consider_notExplored (hvertex : s.vertices[v]? = some vertex)
    (hstatus : s.status w_lsa.linkStateId = .notExplored) :
    consider nodes address v s (link, w_lsa) =
      ((s.allocate w_lsa).spfNexthopCalculation nodes v s.vertices.length link
        (vertex.distanceFromRoot + link.elim 0 (·.metric.toUInt32))).bind fun s' =>
          some ((s'.setStatus w_lsa .candidate).push s.vertices.length) := by
  rw [consider]
  simp [hvertex, hstatus]

theorem nexthop_root (hrouter : ∃ node records, w.lsa = .routerLSA w.vertexId node records)
    (hfirst : spfGetNextLink w vertex false = some first) :
    nexthop nodes vertex w 0 (some l) = some (w.setRootExitDirection (first.linkData,
      findOutgoingInterfaceId nodes vertex.vertexId l.linkData Ipv4Mask.getOnes)) := by
  obtain ⟨node, records, hrouter⟩ := hrouter
  rw [nexthop, if_pos rfl]
  simp [hrouter, hfirst]

end Calculation

/-- The vertex of the neighbour, with the exit of the link -/
def neighborVertex (nodes : List Node) (root : Ipv4Address) (l first : GlobalRoutingLinkRecord)
    (w_lsa : GlobalRoutingLSA) : SPFVertex :=
  { SPFVertex.create w_lsa with
    distanceFromRoot := l.metric.toUInt32
    ecmpRootExits := [(first.linkData,
      findOutgoingInterfaceId nodes root l.linkData Ipv4Mask.getOnes)]
    parents := [0] }

namespace StubNode

theorem links_root (h : StubNode db nodes root defaultRoute node linkRecords l lr w_lsa) :
    Calculation.links db (.routerLSA root node linkRecords) = some [(some l, w_lsa)] := by
  rw [Calculation.links, h.links, List.mapM_cons, h.neighbor]
  rfl

theorem isRouter (h : StubNode db nodes root defaultRoute node linkRecords l lr w_lsa) :
    ∃ node' records, w_lsa = .routerLSA w_lsa.linkStateId node' records := by
  have hmem := List.mem_of_find?_eq_some h.back
  cases w_lsa with
  | routerLSA linkStateId node' records => exact ⟨node', records, rfl⟩
  | networkLSA linkStateId mask attachedRouters => exact absurd hmem List.not_mem_nil

/-- A link of the root to itself leads nowhere. -/
theorem spfNext_self (h : StubNode db nodes root defaultRoute node linkRecords l lr w_lsa)
    (hself : l.linkId = root) (address : ℕ → ℕ) :
    (Calculation.start (.routerLSA root node linkRecords)).spfNext db nodes address 0 =
      some (.start (.routerLSA root node linkRecords)) := by
  have hid : w_lsa.linkStateId = root := (linkStateId_of_getLSA h.neighbor).trans hself
  change (Calculation.links db (.routerLSA root node linkRecords)).bind _ = _
  rw [h.links_root, Option.bind_some, List.foldlM_cons,
    Calculation.consider_inSpfTree rfl (by rw [hid]; exact Function.update_self ..)]
  rfl

theorem spfNexthopCalculation_start
    (h : StubNode db nodes root defaultRoute node linkRecords l lr w_lsa)
    (hfirst : w_lsa.linkRecords.find? (·.linkId = root) = some first) :
    ((Calculation.start (.routerLSA root node linkRecords)).allocate w_lsa).spfNexthopCalculation
        nodes 0 1 (some l) (0 + l.metric.toUInt32) =
      some (((Calculation.start (.routerLSA root node linkRecords)).allocate w_lsa).update 1
        fun _ => neighborVertex nodes root l first w_lsa) := by
  have hlink : spfGetNextLink (.create w_lsa) (.createRoot (.routerLSA root node linkRecords))
      false = some first := (getNextLink_first root _).trans hfirst
  have hnexthop : Calculation.nexthop nodes (.createRoot (.routerLSA root node linkRecords))
      (.create w_lsa) 0 (some l) = _ := Calculation.nexthop_root h.isRouter hlink
  change (Calculation.nexthop nodes (.createRoot _) (.create w_lsa) 0 (some l)).bind _ = _
  rw [hnexthop, Option.bind_some, UInt32.zero_add]
  rfl

/-- The root gives its exit to the neighbour. -/
theorem spfNext_start (h : StubNode db nodes root defaultRoute node linkRecords l lr w_lsa)
    (hother : l.linkId ≠ root) (hfirst : w_lsa.linkRecords.find? (·.linkId = root) = some first)
    (address : ℕ → ℕ) : ∃ s, (Calculation.start (.routerLSA root node linkRecords)).spfNext
      db nodes address 0 = some s ∧ s.candidates = [1] ∧ s.installed = [] ∧
      s.vertices = [.createRoot (.routerLSA root node linkRecords),
        neighborVertex nodes root l first w_lsa] := by
  have hid : w_lsa.linkStateId ≠ root := fun heq =>
    hother ((linkStateId_of_getLSA h.neighbor).symm.trans heq)
  have hnext : (Calculation.start (.routerLSA root node linkRecords)).spfNext db nodes address 0 =
      some ((((((Calculation.start (.routerLSA root node linkRecords)).allocate w_lsa).update 1
        fun _ => neighborVertex nodes root l first w_lsa).setStatus w_lsa .candidate).push 1)) := by
    change (Calculation.links db (.routerLSA root node linkRecords)).bind _ = _
    rw [h.links_root, Option.bind_some, List.foldlM_cons,
      Calculation.consider_notExplored rfl (Function.update_of_ne hid _ _)]
    change ((((Calculation.start (.routerLSA root node linkRecords)).allocate
      w_lsa).spfNexthopCalculation nodes 0 1 (some l) (0 + l.metric.toUInt32)).bind _).bind _ = _
    rw [h.spfNexthopCalculation_start hfirst]
    rfl
  exact ⟨_, hnext, rfl, rfl, rfl⟩

/-- The neighbour's records contain one with the id of the root. -/
theorem exists_first (h : StubNode db nodes root defaultRoute node linkRecords l lr w_lsa) :
    ∃ first, w_lsa.linkRecords.find? (·.linkId = root) = some first := by
  refine Option.isSome_iff_exists.mp
    (List.find?_isSome.mpr ⟨lr, List.mem_of_find?_eq_some h.back, ?_⟩)
  have hback := List.find?_some h.back
  simp only [Bool.and_eq_true] at hback
  exact hback.2

theorem leaves_start (exit : Ipv4Address × ℤ) (rlsa : GlobalRoutingLSA) :
    (Calculation.start rlsa).Leaves exit := by
  refine ⟨fun v hv => ?_, List.not_mem_nil, fun _ hmem => absurd hmem List.not_mem_nil⟩
  rw [List.mem_singleton.mp hv]
  exact ⟨fun _ hx => absurd hx List.not_mem_nil, fun _ hx => absurd hx List.not_mem_nil⟩

/-- Nothing is reached by a link of the root to itself, so that no route leaves by another exit. -/
theorem leaves_loop_self (h : StubNode db nodes root defaultRoute node linkRecords l lr w_lsa)
    (hself : l.linkId = root) (exit : Ipv4Address × ℤ) (address : ℕ → ℕ) (fuel : ℕ) :
    (Calculation.loop db nodes address root fuel
      (.start (.routerLSA root node linkRecords)) 0).Leaves exit := by
  have hstart := leaves_start exit (.routerLSA root node linkRecords)
  cases fuel with
  | zero => exact hstart
  | succ fuel =>
    rw [Calculation.loop, h.spfNext_self hself]
    exact hstart.secondStage db root fuel

theorem leaves_neighborVertex
    (h : StubNode db nodes root defaultRoute node linkRecords l lr w_lsa) :
    (neighborVertex nodes root l first w_lsa).Leaves (first.linkData,
      findOutgoingInterfaceId nodes root l.linkData Ipv4Mask.getOnes) where
  exits _ hx := List.mem_singleton.mp hx
  network hlsa := by
    obtain ⟨node', records, hrouter⟩ := h.isRouter
    rw [show (neighborVertex nodes root l first w_lsa).lsa = w_lsa from rfl, hrouter] at hlsa
    cases hlsa

/-- All routes leave by the neighbour's first record. -/
theorem leaves_loop (h : StubNode db nodes root defaultRoute node linkRecords l lr w_lsa)
    (hother : l.linkId ≠ root) (hfirst : w_lsa.linkRecords.find? (·.linkId = root) = some first)
    (address : ℕ → ℕ) (fuel : ℕ) : (Calculation.loop db nodes address root fuel
      (.start (.routerLSA root node linkRecords)) 0).Leaves (first.linkData,
        findOutgoingInterfaceId nodes root l.linkData Ipv4Mask.getOnes) := by
  cases fuel with
  | zero => exact leaves_start _ _
  | succ fuel =>
    obtain ⟨s, hs, hcandidates, hinstalled, hvertices⟩ := h.spfNext_start hother hfirst address
    have hvertex : s.vertices[1]? = some (neighborVertex nodes root l first w_lsa) := by
      rw [hvertices]
      rfl
    have hleaves : s.Leaves (first.linkData,
        findOutgoingInterfaceId nodes root l.linkData Ipv4Mask.getOnes) := by
      refine ⟨fun v hv => ?_, ?_, ?_⟩
      · rw [hvertices] at hv
        rcases List.mem_cons.mp hv with rfl | hv
        · exact (leaves_start _ (.routerLSA root node linkRecords)).vertices _ List.mem_cons_self
        · rw [List.mem_singleton.mp hv]
          exact h.leaves_neighborVertex
      · rw [hcandidates]
        decide
      · rw [hinstalled]
        exact fun _ hmem => absurd hmem List.not_mem_nil
    simp only [Calculation.loop, hs, hcandidates, hvertex]
    exact (hleaves.next root hcandidates hvertex).loop db address root fuel one_ne_zero

/-- The first routes are those to the neighbour. -/
theorem mem_installed (h : StubNode db nodes root defaultRoute node linkRecords l lr w_lsa)
    (hother : l.linkId ≠ root) (hfirst : w_lsa.linkRecords.find? (·.linkId = root) = some first)
    (hfound : 0 ≤ findOutgoingInterfaceId nodes root l.linkData Ipv4Mask.getOnes)
    (address : ℕ → ℕ) : ∃ i, addHostRouteTo i lr.linkData first.linkData
      (findOutgoingInterfaceId nodes root l.linkData Ipv4Mask.getOnes) ∈
        (Calculation.loop db nodes address root 1
          (.start (.routerLSA root node linkRecords)) 0).installed := by
  obtain ⟨s, hs, hcandidates, hinstalled, hvertices⟩ := h.spfNext_start hother hfirst address
  have hvertex : s.vertices[1]? = some (neighborVertex nodes root l first w_lsa) := by
    rw [hvertices]
    rfl
  obtain ⟨i, hi⟩ : ∃ i, rootNode nodes root = some i := by
    cases hnode : nodes.find? (·.routerId = some root) with
    | none =>
      rw [findOutgoingInterfaceId, hnode] at hfound
      exact absurd hfound (show ¬(0 : ℤ) ≤ -1 by decide)
    | some rootNode =>
      exact Option.isSome_iff_exists.mp (List.findIdx?_isSome.trans
        (List.any_eq_true.mpr ⟨rootNode, List.mem_of_find?_eq_some hnode,
          by simpa using List.find?_some hnode⟩))
  obtain ⟨node', records, hrouter⟩ := h.isRouter
  refine ⟨i, ?_⟩
  simp only [Calculation.loop, hs, hcandidates, hvertex]
  refine List.mem_append_right _ ?_
  rw [intraAdd_router (v := neighborVertex nodes root l first w_lsa) hrouter hi]
  refine List.mem_flatMap.mpr ⟨lr, List.mem_filter.mpr ⟨List.mem_of_find?_eq_some h.back, ?_⟩, ?_⟩
  · have hback := List.find?_some h.back
    simp only [Bool.and_eq_true] at hback
    exact hback.1
  · exact List.mem_map.mpr ⟨(first.linkData, _),
      List.mem_filter.mpr ⟨List.mem_singleton_self _, decide_eq_true hfound⟩, rfl⟩

end StubNode

/-- The routes of the whole calculation agree with the default route exactly where the neighbour's
first record with the id of the root has its address on the link. -/
theorem agrees_iff (address : ℕ → ℕ)
    (h : checkForStubNode db nodes root = some (true, some defaultRoute)) :
    Agrees db nodes address root defaultRoute ↔ ClearNextHop db nodes root := by
  obtain ⟨node, linkRecords, l, lr, w_lsa, hstub⟩ := exists_stubNode h
  obtain ⟨first, hfirst⟩ := hstub.exists_first
  have hlinks : transitLinks db root = [l] := by
    rw [transitLinks, hstub.self]
    exact hstub.links
  have hclear : ClearNextHop db nodes root ↔ l.linkId = root ∨
      findOutgoingInterfaceId nodes root l.linkData Ipv4Mask.getOnes < 0 ∨
        first.linkData = lr.linkData := by
    rw [ClearNextHop, hlinks, List.forall_mem_singleton, firstRecord, firstPointToPoint,
      hstub.neighbor, Option.bind_some, Option.bind_some, hfirst, hstub.back, Option.map_some,
      Option.map_some, Option.some_inj]
  have hrun (fuel : ℕ) : spfCalculate db nodes address root fuel =
      some (.loop db nodes address root fuel (.start (.routerLSA root node linkRecords)) 0) := by
    rw [spfCalculate, hstub.self]
    rfl
  rw [hclear]
  constructor
  · intro hagrees
    by_contra hnot
    obtain ⟨hother, hnot⟩ := not_or.mp hnot
    obtain ⟨hfound, hne⟩ := not_or.mp hnot
    obtain ⟨i, hmem⟩ := hstub.mem_installed hother hfirst (not_lt.mp hfound) address
    have hsame := (hagrees 1 _ (hrun 1) _ hmem lr.linkData rfl).1
    rw [hstub.route] at hsame
    exact hne hsame
  · rintro hcases fuel s hs route hroute dest -
    rw [hrun] at hs
    obtain rfl := Option.some.inj hs
    rw [hstub.route]
    by_cases hself : l.linkId = root
    · have hvia := (hstub.leaves_loop_self hself (lr.linkData,
        findOutgoingInterfaceId nodes root l.linkData Ipv4Mask.getOnes) address fuel).installed
          route hroute
      exact ⟨hvia.gateway, hvia.interface⟩
    · have hvia := (hstub.leaves_loop hself hfirst address fuel).installed route hroute
      rcases hcases.resolve_left hself with hmissing | hequal
      · exact absurd hvia.found (not_le.mpr hmissing)
      · exact ⟨hvia.gateway.trans hequal, hvia.interface⟩

end Root

/-! ## Databases -/

def pointToPointLinks (lsa : GlobalRoutingLSA) (linkId : Ipv4Address) :
    List GlobalRoutingLinkRecord :=
  lsa.linkRecords.filter fun l => l.linkType = .pointToPoint && l.linkId = linkId

/-- Every link is advertised from both ends. -/
structure Consistent (db : GlobalRouteManagerLSDB) : Prop where
  pointToPoint : ∀ lsa ∈ db.database, ∀ l ∈ lsa.linkRecords, l.linkType = .pointToPoint →
    (db.getLSA l.linkId).map (fun other => (pointToPointLinks other lsa.linkStateId).length) =
      some (pointToPointLinks lsa l.linkId).length
  transit : ∀ lsa ∈ db.database, ∀ l ∈ lsa.linkRecords, l.linkType = .transitNetwork →
    ∃ network ∈ db.database, network.linkStateId = l.linkId ∧ l.linkData ∈ network.attachedRouters
  attached : ∀ network ∈ db.database, ∀ a ∈ network.attachedRouters, ∃ lsa ∈ db.database,
    ∃ l ∈ lsa.linkRecords, l.linkType = .transitNetwork ∧ l.linkId = network.linkStateId ∧
      l.linkData = a

/-- Two routers on a point-to-point link, of which the second one has a stub network as well -/
def twoRouters (stub : GlobalRoutingLinkRecord) : GlobalRouteManagerLSDB :=
  .build [.inl (.routerLSA 0 0 [⟨.pointToPoint, 1, 0x0a010101, 1⟩,
      ⟨.stubNetwork, 0x0a010102, 0xfffffffc, 1⟩]),
    .inl (.routerLSA 1 1 [stub, ⟨.pointToPoint, 0, 0x0a010102, 1⟩,
      ⟨.stubNetwork, 0x0a010101, 0xfffffffc, 1⟩])]

def twoNodes : List Node :=
  [⟨some 0, [[0x7f000001], [0x0a010101]]⟩, ⟨some 1, [[0x7f000001], [0x0a020001], [0x0a010102]]⟩]

theorem agrees_twoRouters : Agrees (twoRouters ⟨.stubNetwork, 0x0a020000, 0xffff0000, 1⟩) twoNodes
    (fun i => i) 0 (addNetworkRouteTo 0 0 0 0x0a010102 1) :=
  (agrees_iff _ (by decide)).mpr (by unfold ClearNextHop; decide)

/-- A stub network with the mask 0.0.0.0 has the network number 0.0.0.0, which is the id of the
first router. -/
def clash : GlobalRoutingLinkRecord := ⟨.stubNetwork, 0, 0, 1⟩

theorem consistent_clash : Consistent (twoRouters clash) where
  pointToPoint := by decide
  transit := by decide
  attached network hnetwork a ha := by
    have hnone : ∀ network ∈ (twoRouters clash).database, network.attachedRouters = [] := by decide
    rw [hnone network hnetwork] at ha
    exact absurd ha List.not_mem_nil

theorem not_agrees : ¬∀ (db : GlobalRouteManagerLSDB) (nodes : List Node) (address : ℕ → ℕ)
    (root : Ipv4Address) (defaultRoute : Installed), Consistent db →
      checkForStubNode db nodes root = some (true, some defaultRoute) →
        Agrees db nodes address root defaultRoute := by
  intro hall
  have hagrees := hall (twoRouters clash) twoNodes (fun i => i) 0
    (addNetworkRouteTo 0 0 0 0x0a010102 1) consistent_clash (by decide)
  have hroutes : (spfCalculate (twoRouters clash) twoNodes (fun i => i) 0 1).map (·.installed) =
      some [addHostRouteTo 0 0x0a010102 0 1] := by decide
  obtain ⟨s, hs, hinstalled⟩ := Option.map_eq_some_iff.mp hroutes
  have hsame := hagrees 1 s hs (addHostRouteTo 0 0x0a010102 0 1)
    (hinstalled ▸ List.mem_singleton_self _) 0x0a010102 rfl
  exact absurd hsame.1 (by decide)

end Ns3Noc.GlobalRouting
