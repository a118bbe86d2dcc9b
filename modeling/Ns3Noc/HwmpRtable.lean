import Ns3Noc.KeyedTables

/-!
# The routing table of HWMP

Reactive paths by destination and the proactive path to the root of the tree. An address is `none`
where the broadcast address stands for no address. Times are in nanoseconds.
-/
namespace Ns3Noc.Hwmp

open KeyedTables

abbrev Address : Type := ℕ

/-- `uint32_t` arithmetic -/
def uint32 (n : ℕ) : ℕ := n % 4294967296

/-- `(int32_t)(a - b)` -/
def int32Diff (a b : ℕ) : ℤ := ((a : ℤ) - b).bmod 4294967296

def interfaceAny : ℕ := 0xffffffff

def maxMetric : ℕ := 0xffffffff

structure Precursor where
  address : Address
  interface : ℕ
  whenExpire : ℕ
  deriving DecidableEq, Repr

structure ReactiveRoute where
  retransmitter : Address
  interface : ℕ
  metric : ℕ
  whenExpire : ℕ
  seqnum : ℕ
  precursors : List Precursor
  deriving DecidableEq, Repr

structure ProactiveRoute where
  root : Address
  retransmitter : Option Address
  interface : ℕ
  metric : ℕ
  whenExpire : ℕ
  seqnum : ℕ
  precursors : List Precursor
  deriving DecidableEq, Repr

structure LookupResult where
  retransmitter : Option Address
  ifIndex : ℕ
  metric : ℕ
  seqnum : ℕ
  lifetime : ℤ
  deriving DecidableEq, Repr

def LookupResult.empty : LookupResult := ⟨none, interfaceAny, maxMetric, 0, 0⟩

structure FailedDestination where
  destination : Address
  seqnum : ℕ
  deriving DecidableEq, Repr

structure HwmpRtable where
  routes : List (Address × ReactiveRoute)
  root : ProactiveRoute
  deriving DecidableEq, Repr

namespace HwmpRtable

def init : HwmpRtable := ⟨[], ⟨0, none, interfaceAny, maxMetric, 0, 0, []⟩⟩

def addReactivePath (t : HwmpRtable) (now : ℕ) (destination retransmitter : Address)
    (interface metric lifetime seqnum : ℕ) : HwmpRtable :=
  let precursors := ((find t.routes destination).map (·.precursors)).getD []
  let route : ReactiveRoute := ⟨retransmitter, interface, metric, now + lifetime, seqnum, precursors⟩
  { t with routes := OrderedTables.set t.routes destination route }

def addProactivePath (t : HwmpRtable) (now metric : ℕ) (root retransmitter : Address)
    (interface lifetime seqnum : ℕ) : HwmpRtable :=
  { t with
    root := ⟨root, some retransmitter, interface, metric, now + lifetime, seqnum,
      t.root.precursors⟩ }

/-- Only the address tells precursors apart. -/
def addTo (precursor : Precursor) : List Precursor → List Precursor
  | [] => [precursor]
  | p :: ps =>
    if p.address = precursor.address then { p with whenExpire := precursor.whenExpire } :: ps
    else p :: addTo precursor ps

def addPrecursor (t : HwmpRtable) (now : ℕ) (destination : Address) (interface : ℕ)
    (address : Address) (lifetime : ℤ) : HwmpRtable :=
  let precursor : Precursor := ⟨address, interface, ((now : ℤ) + lifetime).toNat⟩
  match find t.routes destination with
  | none => t
  | some route =>
    let route := { route with precursors := addTo precursor route.precursors }
    { t with routes := OrderedTables.set t.routes destination route }

/-- The root's address stays. -/
def deleteProactivePath (t : HwmpRtable) (now : ℕ) : HwmpRtable :=
  { t with root := ⟨t.root.root, none, interfaceAny, maxMetric, now, 0, []⟩ }

def deleteProactivePathTo (t : HwmpRtable) (now : ℕ) (root : Address) : HwmpRtable :=
  if t.root.root = root then t.deleteProactivePath now else t

def deleteReactivePath (t : HwmpRtable) (destination : Address) : HwmpRtable :=
  { t with routes := remove t.routes destination }

def lookupReactiveExpired (t : HwmpRtable) (now : ℕ) (destination : Address) : LookupResult :=
  match find t.routes destination with
  | none => .empty
  | some route =>
    ⟨some route.retransmitter, route.interface, route.metric, route.seqnum,
      (route.whenExpire : ℤ) - now⟩

/-- A path that expires at time 0 does not expire. -/
def lookupReactive (t : HwmpRtable) (now : ℕ) (destination : Address) : LookupResult :=
  match find t.routes destination with
  | none => .empty
  | some route =>
    if route.whenExpire < now ∧ route.whenExpire ≠ 0 then .empty
    else t.lookupReactiveExpired now destination

def lookupProactiveExpired (t : HwmpRtable) (now : ℕ) : LookupResult :=
  ⟨t.root.retransmitter, t.root.interface, t.root.metric, t.root.seqnum,
    (t.root.whenExpire : ℤ) - now⟩

/-- An expired path to the root is deleted by the lookup. -/
def expireProactive (t : HwmpRtable) (now : ℕ) : HwmpRtable :=
  if t.root.whenExpire < now then t.deleteProactivePath now else t

def lookupProactive (t : HwmpRtable) (now : ℕ) : LookupResult :=
  (t.expireProactive now).lookupProactiveExpired now

/-- The numbers of the reactive paths are incremented in the table, too. -/
def getUnreachableDestinations (t : HwmpRtable) (peerAddress : Address) :
    List FailedDestination × HwmpRtable :=
  let routes := t.routes.map fun row =>
    (row.1, if row.2.retransmitter = peerAddress then
      { row.2 with seqnum := uint32 (row.2.seqnum + 1) } else row.2)
  let failed := (routes.filter (·.2.retransmitter = peerAddress)).map
    fun row => FailedDestination.mk row.1 row.2.seqnum
  let root := if t.root.retransmitter = some peerAddress then
    [FailedDestination.mk t.root.root t.root.seqnum] else []
  (failed ++ root, { t with routes := routes })

def getPrecursors (t : HwmpRtable) (now : ℕ) (destination : Address) : List (ℕ × Address) :=
  match find t.routes destination with
  | none => []
  | some route =>
    (route.precursors.filter fun p => now < p.whenExpire).map fun p => (p.interface, p.address)

end HwmpRtable

end Ns3Noc.Hwmp
