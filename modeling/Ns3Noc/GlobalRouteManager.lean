import Mathlib
import Ns3Noc.StaticRouting

/-!
# GlobalRouteManagerImpl

The link state database, the shortest path tree that is computed from it for one root, and the
routes that are installed on the way. Vertices are numbered as they are allocated, so that the root
has number 0. A calculation gives `none` where an assertion fails, a null pointer is used or a loop
does not end.
-/
namespace Ns3Noc.GlobalRouting
open StaticRouting

/-- The types of the link records that `DiscoverLSAs` makes. -/
inductive LinkType where
  | pointToPoint
  | transitNetwork
  | stubNetwork
  deriving DecidableEq

structure GlobalRoutingLinkRecord where
  linkType : LinkType
  linkId : Ipv4Address
  linkData : Ipv4Address
  metric : UInt16
  deriving DecidableEq

/-- The advertisements that `DiscoverLSAs` makes, each with the fields that it fills in. -/
inductive GlobalRoutingLSA where
  | routerLSA (linkStateId : Ipv4Address) (node : ℕ) (linkRecords : List GlobalRoutingLinkRecord)
  | networkLSA (linkStateId : Ipv4Address) (networkLSANetworkMask : Ipv4Mask)
    (attachedRouters : List Ipv4Address)
  deriving DecidableEq

structure ASExternalLSA where
  linkStateId : Ipv4Address
  advertisingRouter : Ipv4Address
  networkLSANetworkMask : Ipv4Mask
  deriving DecidableEq

namespace GlobalRoutingLSA

def linkStateId : GlobalRoutingLSA → Ipv4Address
  | routerLSA linkStateId _ _ => linkStateId
  | networkLSA linkStateId _ _ => linkStateId

def linkRecords : GlobalRoutingLSA → List GlobalRoutingLinkRecord
  | routerLSA _ _ linkRecords => linkRecords
  | networkLSA .. => []

def attachedRouters : GlobalRoutingLSA → List Ipv4Address
  | routerLSA .. => []
  | networkLSA _ _ attachedRouters => attachedRouters

def isRouter : GlobalRoutingLSA → Bool
  | routerLSA .. => true
  | networkLSA .. => false

end GlobalRoutingLSA

/-- The advertisements are kept in a map by their link state ids, in which the first one for an id
stays. -/
structure GlobalRouteManagerLSDB where
  database : List GlobalRoutingLSA
  extDatabase : List ASExternalLSA
  deriving DecidableEq

namespace GlobalRouteManagerLSDB

/-- `std::map::insert`, where `database` is in the order of the link state ids. -/
def insertLSA (lsa : GlobalRoutingLSA) : List GlobalRoutingLSA → List GlobalRoutingLSA
  | [] => [lsa]
  | head :: rest =>
    if lsa.linkStateId = head.linkStateId then head :: rest
    else if lsa.linkStateId < head.linkStateId then lsa :: head :: rest
    else head :: insertLSA lsa rest

def insert (db : GlobalRouteManagerLSDB) (lsa : GlobalRoutingLSA ⊕ ASExternalLSA) :
    GlobalRouteManagerLSDB :=
  match lsa with
  | .inl lsa => { db with database := insertLSA lsa db.database }
  | .inr extlsa => { db with extDatabase := db.extDatabase ++ [extlsa] }

/-- `BuildGlobalRoutingDatabase`, from the advertisements of all routers. -/
def build (lsas : List (GlobalRoutingLSA ⊕ ASExternalLSA)) : GlobalRouteManagerLSDB :=
  lsas.foldl insert ⟨[], []⟩

def getLSA (db : GlobalRouteManagerLSDB) (addr : Ipv4Address) : Option GlobalRoutingLSA :=
  db.database.find? (·.linkStateId = addr)

def getLSAByLinkData (db : GlobalRouteManagerLSDB) (addr : Ipv4Address) :
    Option GlobalRoutingLSA :=
  db.database.find? fun lsa =>
    lsa.linkRecords.any fun lr => lr.linkType = .transitNetwork && lr.linkData = addr

end GlobalRouteManagerLSDB

/-- A node with the id of its `GlobalRouter`, if it has one, and the local addresses of each of its
interfaces. -/
structure Node where
  routerId : Option Ipv4Address
  interfaces : List (List Ipv4Address)
  deriving DecidableEq

/-- `GetInterfaceForPrefix`, from interface number `interface` on. -/
def interfaceForPrefix (a : Ipv4Address) (amask : Ipv4Mask) :
    ℤ → List (List Ipv4Address) → ℤ
  | _, [] => -1
  | interface, addresses :: rest =>
    if addresses.any fun address => combineMask address amask = combineMask a amask then interface
    else interfaceForPrefix a amask (interface + 1) rest

/-- `id` is the vertex id of `m_spfroot`. -/
def findOutgoingInterfaceId (nodes : List Node) (id a : Ipv4Address) (amask : Ipv4Mask) : ℤ :=
  match nodes.find? (·.routerId = some id) with
  | some node => interfaceForPrefix a amask 0 node.interfaces
  | none => -1

/-- The lists of routes of `Ipv4GlobalRouting` -/
inductive RouteKind where
  | host
  | network
  | asExternal
  deriving DecidableEq

/-- A route in one of the lists of a node. -/
structure Installed where
  node : ℕ
  kind : RouteKind
  entry : Ipv4RoutingTableEntry
  deriving DecidableEq

/-- The test of `LookupGlobal` for the list the route is in. -/
def Installed.Matches (route : Installed) (dest : Ipv4Address) : Prop :=
  match route.kind with
  | .host => route.entry.dest = dest
  | .network | .asExternal => route.entry.destNetworkMask.isMatch dest route.entry.dest = true

instance (route : Installed) (dest : Ipv4Address) : Decidable (route.Matches dest) := by
  unfold Installed.Matches
  cases route.kind <;> infer_instance

/-- Interface numbers are `int32_t` in the calculation and `uint32_t` in the routes. -/
def asUnsigned (outIf : ℤ) : ℕ := (outIf % 2 ^ 32).toNat

def addHostRouteTo (node : ℕ) (dest nextHop : Ipv4Address) (outIf : ℤ) : Installed :=
  ⟨node, .host, dest, Ipv4Mask.getOnes, nextHop, asUnsigned outIf⟩

def addNetworkRouteTo (node : ℕ) (network : Ipv4Address) (mask : Ipv4Mask) (nextHop : Ipv4Address)
    (outIf : ℤ) : Installed :=
  ⟨node, .network, network, mask, nextHop, asUnsigned outIf⟩

def addASExternalRouteTo (node : ℕ) (network : Ipv4Address) (mask : Ipv4Mask)
    (nextHop : Ipv4Address) (outIf : ℤ) : Installed :=
  ⟨node, .asExternal, network, mask, nextHop, asUnsigned outIf⟩

/-- The answer of `CheckForStubNode`, with the default route that it adds. -/
def checkForStubNode (db : GlobalRouteManagerLSDB) (nodes : List Node) (root : Ipv4Address) :
    Option (Bool × Option Installed) :=
  match db.getLSA root with
  | some (.routerLSA myRouterId node linkRecords) =>
    match linkRecords.filter (·.linkType ≠ .stubNetwork) with
    | [] => some (true, none)
    | [transitLink] =>
      if transitLink.linkType = .transitNetwork then some (false, none)
      else do
        let w_lsa ← db.getLSA transitLink.linkId
        match w_lsa.linkRecords.find? fun lr =>
            lr.linkType = .pointToPoint && lr.linkId = myRouterId with
        | some lr => some (true, some (addNetworkRouteTo node 0 0 lr.linkData
            (findOutgoingInterfaceId nodes myRouterId transitLink.linkData Ipv4Mask.getOnes)))
        | none => some (false, none)
    | _ => some (false, none)
  -- the advertisement of a network has no link records
  | some (.networkLSA ..) => some (true, none)
  | none => none

/-! ## The shortest path tree -/

/-- `m_ecmpRootExits` holds pairs of a next hop and an interface of the root. -/
structure SPFVertex where
  lsa : GlobalRoutingLSA
  distanceFromRoot : UInt32
  ecmpRootExits : List (Ipv4Address × ℤ)
  parents : List ℕ
  children : List ℕ
  vertexProcessed : Bool
  deriving DecidableEq

namespace SPFVertex

def create (lsa : GlobalRoutingLSA) : SPFVertex := ⟨lsa, 0xffffffff, [], [], [], false⟩

/-- The vertex at distance 0 -/
def createRoot (rlsa : GlobalRoutingLSA) : SPFVertex :=
  { create rlsa with distanceFromRoot := 0 }

def vertexId (v : SPFVertex) : Ipv4Address := v.lsa.linkStateId

def setRootExitDirection (v : SPFVertex) (exit : Ipv4Address × ℤ) : SPFVertex :=
  { v with ecmpRootExits := [exit] }

/-- There is exactly one. -/
def getRootExitDirection (v : SPFVertex) : Option (Ipv4Address × ℤ) :=
  match v.ecmpRootExits with
  | [exit] => some exit
  | _ => none

def exitLe (a b : Ipv4Address × ℤ) : Bool := a.1 < b.1 || (a.1 = b.1 && a.2 ≤ b.2)

/-- The lists are put together, sorted, and repetitions left out. -/
def mergeRootExitDirections (v vertex : SPFVertex) : SPFVertex :=
  { v with
    ecmpRootExits :=
      ((v.ecmpRootExits ++ vertex.ecmpRootExits).mergeSort exitLe).destutter (· ≠ ·) }

/-- Pointers are sorted by the addresses of the vertices. -/
def mergeParent (address : ℕ → ℕ) (v vertex : SPFVertex) : SPFVertex :=
  { v with
    parents := ((v.parents ++ vertex.parents).mergeSort fun a b => address a ≤ address b).destutter
      (· ≠ ·) }

end SPFVertex

/-- `LSA_SPF_NOT_EXPLORED`, `LSA_SPF_CANDIDATE` and `LSA_SPF_IN_SPFTREE` -/
inductive SPFStatus where
  | notExplored
  | candidate
  | inSpfTree
  deriving DecidableEq

/-- The vertices allocated so far, the status of each advertisement, the candidate queue and the
routes installed so far. -/
structure Calculation where
  vertices : List SPFVertex
  status : Ipv4Address → SPFStatus
  candidates : List ℕ
  installed : List Installed

/-- `SPFGetNextLink`: the next record with a link id, where `skip` and `foundPrevLink` are the
variables of the loop. -/
def getNextLink (id : Ipv4Address) : Bool → Bool → List GlobalRoutingLinkRecord →
    Option GlobalRoutingLinkRecord
  | _, _, [] => none
  | skip, foundPrevLink, l :: rest =>
    if l.linkId ≠ id then getNextLink id skip foundPrevLink rest
    else if foundPrevLink = false then getNextLink id skip true rest
    else if skip = false then some l
    else getNextLink id false foundPrevLink rest

/-- `prevLink` tells whether there is a previous link. Which one it is makes no difference. -/
def spfGetNextLink (v w : SPFVertex) (prevLink : Bool) : Option GlobalRoutingLinkRecord :=
  getNextLink w.vertexId prevLink (!prevLink) v.lsa.linkRecords

namespace Calculation

def update (s : Calculation) (i : ℕ) (f : SPFVertex → SPFVertex) : Calculation :=
  { s with vertices := s.vertices.modify i f }

/-- `new SPFVertex` -/
def allocate (s : Calculation) (lsa : GlobalRoutingLSA) : Calculation :=
  { s with vertices := s.vertices ++ [SPFVertex.create lsa] }

def setStatus (s : Calculation) (lsa : GlobalRoutingLSA) (status : SPFStatus) : Calculation :=
  { s with status := Function.update s.status lsa.linkStateId status }

/-! ### The candidate queue -/

def compareSPFVertex (v1 v2 : SPFVertex) : Bool :=
  v1.distanceFromRoot < v2.distanceFromRoot ||
    (v1.distanceFromRoot = v2.distanceFromRoot && !v1.lsa.isRouter && v2.lsa.isRouter)

/-- `CompareSPFVertex`, on the numbers of two vertices -/
def ranked (s : Calculation) (v1 v2 : ℕ) : Bool :=
  match s.vertices[v1]?, s.vertices[v2]? with
  | some v1, some v2 => compareSPFVertex v1 v2
  | _, _ => false

/-- In a sorted queue `upper_bound` finds the first vertex that ranks behind the new one. -/
def push (s : Calculation) (vNew : ℕ) : Calculation :=
  { s with
    candidates := s.candidates.takeWhile (fun v => !s.ranked vNew v) ++
      vNew :: s.candidates.dropWhile (fun v => !s.ranked vNew v) }

def find (s : Calculation) (addr : Ipv4Address) : Option ℕ :=
  s.candidates.find? fun v => s.vertices[v]?.any fun v => v.vertexId = addr

def reorder (s : Calculation) : Calculation :=
  { s with candidates := s.candidates.mergeSort fun v1 v2 => !s.ranked v2 v1 }

/-! ### The next hops -/

/-- The loop over the links from a router back to a network at the root. With a third such link
`SPFGetNextLink` returns that one for ever. -/
def nextHopsBack (v w : SPFVertex) : Option SPFVertex :=
  match spfGetNextLink w v false with
  | none => some w
  | some linkRemote => do
    let exit ← v.getRootExitDirection
    match spfGetNextLink w v true with
    | none => some (w.setRootExitDirection (linkRemote.linkData, exit.2))
    | some _ => none

/-- The root exits that `SPFNexthopCalculation` gives to `w`. Only vertex 0 is the root. -/
def nexthop (nodes : List Node) (v w : SPFVertex) (number : ℕ)
    (l : Option GlobalRoutingLinkRecord) : Option SPFVertex :=
  if number = 0 then
    match w.lsa with
    | .routerLSA .. => do
      let l ← l
      let linkRemote ← spfGetNextLink w v false
      some (w.setRootExitDirection (linkRemote.linkData,
        findOutgoingInterfaceId nodes v.vertexId l.linkData Ipv4Mask.getOnes))
    | .networkLSA linkStateId networkLSANetworkMask _ =>
      some (w.setRootExitDirection (0,
        findOutgoingInterfaceId nodes v.vertexId linkStateId networkLSANetworkMask))
  else if v.lsa.isRouter = false then
    if v.parents.head? = some 0 then
      if w.lsa.isRouter then nextHopsBack v w else none
    else do
      let exit ← v.getRootExitDirection
      some (w.setRootExitDirection exit)
  else some { w with ecmpRootExits := v.ecmpRootExits }

/-- `SPFNexthopCalculation`, which sets the distance and the parent of `w` as well -/
def spfNexthopCalculation (nodes : List Node) (s : Calculation) (v w : ℕ)
    (l : Option GlobalRoutingLinkRecord) (distance : UInt32) : Option Calculation := do
  let parent ← s.vertices[v]?
  let child ← s.vertices[w]?
  let child ← nexthop nodes parent child v l
  some (s.update w fun _ => { child with distanceFromRoot := distance, parents := [v] })

/-! ### The links of a vertex -/

/-- One turn of `SPFNext`, for the advertisement at the other end of a link. -/
def consider (nodes : List Node) (address : ℕ → ℕ) (v : ℕ) (s : Calculation)
    (link : Option GlobalRoutingLinkRecord × GlobalRoutingLSA) : Option Calculation := do
  let (l, w_lsa) := link
  let vertex ← s.vertices[v]?
  let distance := vertex.distanceFromRoot + (l.elim 0 fun l => l.metric.toUInt32)
  match s.status w_lsa.linkStateId with
  | .inSpfTree => some s
  | .notExplored =>
    let w := s.vertices.length
    let s ← (s.allocate w_lsa).spfNexthopCalculation nodes v w l distance
    some ((s.setStatus w_lsa .candidate).push w)
  | .candidate =>
    let cw ← s.find w_lsa.linkStateId
    let known ← s.vertices[cw]?
    if known.distanceFromRoot < distance then some s
    else if known.distanceFromRoot = distance then
      -- the second vertex for `w` is a child of `v` only until it is deleted
      let w := s.vertices.length
      let s ← (s.allocate w_lsa).spfNexthopCalculation nodes v w l distance
      let merged ← s.vertices[w]?
      some (s.update cw fun known =>
        (known.mergeRootExitDirections merged).mergeParent address merged)
    else
      let s ← s.spfNexthopCalculation nodes v cw l distance
      some s.reorder

/-- The advertisements at the other ends of the links of a vertex, with the link for a router. An
attached router without an advertisement is passed over. -/
def links (db : GlobalRouteManagerLSDB) :
    GlobalRoutingLSA → Option (List (Option GlobalRoutingLinkRecord × GlobalRoutingLSA))
  | .routerLSA _ _ linkRecords =>
    (linkRecords.filter (·.linkType ≠ .stubNetwork)).mapM fun l =>
      (db.getLSA l.linkId).map fun w_lsa => (some l, w_lsa)
  | .networkLSA _ _ attachedRouters =>
    some (attachedRouters.filterMap fun a => (db.getLSAByLinkData a).map fun w_lsa => (none, w_lsa))

def spfNext (db : GlobalRouteManagerLSDB) (nodes : List Node) (address : ℕ → ℕ) (s : Calculation)
    (v : ℕ) : Option Calculation := do
  let vertex ← s.vertices[v]?
  let others ← links db vertex.lsa
  others.foldlM (consider nodes address v) s

/-- `SPFVertexAddParent` -/
def spfVertexAddParent (s : Calculation) (v : ℕ) : Calculation :=
  match s.vertices[v]? with
  | some vertex => vertex.parents.foldl
      (fun s parent => s.update parent fun p => { p with children := p.children ++ [v] }) s
  | none => s

end Calculation

/-! ## The routes -/

/-- The node whose routes are written, with its number -/
def rootNode (nodes : List Node) (id : Ipv4Address) : Option ℕ :=
  nodes.findIdx? (·.routerId = some id)

/-- A route for each exit of a vertex whose interface was found -/
def routesVia (exits : List (Ipv4Address × ℤ)) (add : Ipv4Address → ℤ → Installed) :
    List Installed :=
  (exits.filter (0 ≤ ·.2)).map fun exit => add exit.1 exit.2

/-- `SPFIntraAddRouter` for one node -/
def intraAddRouter (node : ℕ) (v : SPFVertex) : List Installed :=
  (v.lsa.linkRecords.filter (·.linkType = .pointToPoint)).flatMap fun lr =>
    routesVia v.ecmpRootExits (addHostRouteTo node lr.linkData)

/-- `SPFIntraAddTransit` for one node -/
def intraAddTransit (node : ℕ) (linkStateId : Ipv4Address) (mask : Ipv4Mask) (v : SPFVertex) :
    List Installed :=
  routesVia v.ecmpRootExits (addNetworkRouteTo node (combineMask linkStateId mask) mask)

/-- The calls of `SPFIntraAddRouter`, which writes to the first node with the id of the root, and
of `SPFIntraAddTransit`, which writes to all. -/
def intraAdd (nodes : List Node) (id : Ipv4Address) (v : SPFVertex) : List Installed :=
  match v.lsa with
  | .routerLSA .. => (rootNode nodes id).elim [] fun node => intraAddRouter node v
  | .networkLSA linkStateId mask _ =>
    ((List.range nodes.length).filter fun i => (nodes[i]?.bind (·.routerId)) = some id).flatMap
      fun node => intraAddTransit node linkStateId mask v

/-- `SPFIntraAddStub` for one node -/
def intraAddStub (node : ℕ) (l : GlobalRoutingLinkRecord) (v : SPFVertex) : List Installed :=
  routesVia v.ecmpRootExits (addNetworkRouteTo node (combineMask l.linkId l.linkData) l.linkData)

/-- The stub networks of one vertex, those of the root apart -/
def stubRoutes (nodes : List Node) (id : Ipv4Address) (v : SPFVertex) : List Installed :=
  if v.vertexId = id then []
  else (rootNode nodes id).elim [] fun node =>
    (v.lsa.linkRecords.filter (·.linkType = .stubNetwork)).flatMap fun l => intraAddStub node l v

/-- `SPFAddASExternal` for one node -/
def addASExternal (node : ℕ) (extlsa : ASExternalLSA) (v : SPFVertex) : List Installed :=
  routesVia v.ecmpRootExits (addASExternalRouteTo node
    (combineMask extlsa.linkStateId extlsa.networkLSANetworkMask) extlsa.networkLSANetworkMask)

/-- The route to an external network behind one vertex, where that is the advertising router -/
def externalRoutes (nodes : List Node) (id : Ipv4Address) (extlsa : ASExternalLSA)
    (v : SPFVertex) : List Installed :=
  if v.lsa.isRouter = true ∧ v.vertexId = extlsa.advertisingRouter ∧ v.vertexId ≠ id then
    (rootNode nodes id).elim [] fun node => addASExternal node extlsa v
  else []

namespace Calculation

/-- The pass of `SPFProcessStubs` and `ProcessASExternals` over the tree below a vertex, in which
`routes` are the ones for one vertex. The flags keep a vertex with two parents from being visited
twice. -/
def process (routes : SPFVertex → List Installed) : ℕ → Calculation → ℕ → Calculation
  | 0, s, _ => s
  | fuel + 1, s, v =>
    match s.vertices[v]? with
    | none => s
    | some vertex =>
      vertex.children.foldl (fun s child =>
        if s.vertices[child]?.all (·.vertexProcessed) then s
        else (process routes fuel s child).update child fun c => { c with vertexProcessed := true })
        { s with installed := s.installed ++ routes vertex }

/-- `ClearVertexProcessed` -/
def clearVertexProcessed : ℕ → Calculation → ℕ → Calculation
  | 0, s, _ => s
  | fuel + 1, s, v =>
    match s.vertices[v]? with
    | none => s
    | some vertex =>
      (vertex.children.foldl (clearVertexProcessed fuel) s).update v fun c =>
        { c with vertexProcessed := false }

/-- The second stage: the stub networks, then each of the external ones. -/
def secondStage (db : GlobalRouteManagerLSDB) (nodes : List Node) (id : Ipv4Address) (fuel : ℕ)
    (s : Calculation) : Calculation :=
  db.extDatabase.foldl
    (fun s extlsa =>
      process (externalRoutes nodes id extlsa) fuel (clearVertexProcessed fuel s 0) 0)
    (process (stubRoutes nodes id) fuel s 0)

/-- The loop of `SPFCalculate`, which takes the nearest candidate into the tree and goes on with
it. It stops where an assertion fails, with the routes installed so far. -/
def loop (db : GlobalRouteManagerLSDB) (nodes : List Node) (address : ℕ → ℕ) (id : Ipv4Address) :
    ℕ → Calculation → ℕ → Calculation
  | 0, s, _ => s
  | fuel + 1, s, v =>
    match s.spfNext db nodes address v with
    | none => s
    | some s =>
      match s.candidates with
      | [] => secondStage db nodes id fuel s
      | w :: rest =>
        match s.vertices[w]? with
        | none => s
        | some vertex =>
          let s := { s with candidates := rest }.setStatus vertex.lsa .inSpfTree
          let s := s.spfVertexAddParent w
          loop db nodes address id fuel
            { s with installed := s.installed ++ intraAdd nodes id vertex } w

end Calculation

/-- The root is the only vertex. -/
def Calculation.start (rlsa : GlobalRoutingLSA) : Calculation :=
  Calculation.setStatus ⟨[SPFVertex.createRoot rlsa], fun _ => .notExplored, [], []⟩ rlsa
    .inSpfTree

/-- `SPFCalculate` without the shortcut for stub nodes. The sort of the parents of a vertex depends
on the addresses at which vertices are allocated. -/
def spfCalculate (db : GlobalRouteManagerLSDB) (nodes : List Node) (address : ℕ → ℕ)
    (root : Ipv4Address) (fuel : ℕ) : Option Calculation :=
  (db.getLSA root).map fun rlsa =>
    Calculation.loop db nodes address rlsa.linkStateId fuel (Calculation.start rlsa) 0

end Ns3Noc.GlobalRouting
