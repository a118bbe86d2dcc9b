import Ns3Noc.AodvQueue
import Ns3Noc.KeyedTables

/-!
# The routing table of AODV

The rows of the map have distinct destinations. Most operations first invalidate the valid routes
whose lifetime is over and erase the invalid ones.
-/
namespace Ns3Noc.Aodv
open KeyedTables

inductive RouteFlags where
  | valid
  | invalid
  | inSearch
  deriving DecidableEq, Repr

structure RoutingTableEntry where
  validSeqNo : Bool
  seqNo : UInt32
  hops : UInt16
  lifeTime : Time
  nextHop : Ipv4Address
  flag : RouteFlags
  precursorList : List Ipv4Address
  reqCount : UInt8
  deriving DecidableEq, Repr

/-- `m_badLinkLifetime`, which is the `DeletePeriod` of the constructor: 5 * max (3 s, 1 s). -/
def badLinkLifetime : Time := 15000000000

namespace RoutingTableEntry
variable (rt : RoutingTableEntry) (now : Time)

def getLifeTime : Time := rt.lifeTime - now

def invalidate : RoutingTableEntry :=
  if rt.flag = .invalid then rt
  else { rt with flag := .invalid, reqCount := 0, lifeTime := badLinkLifetime + now }

def getPrecursors (prec : List Ipv4Address) : List Ipv4Address :=
  rt.precursorList.foldl (fun prec i => if i ∈ prec then prec else prec ++ [i]) prec

/-- What `Purge` leaves of an entry. -/
def purge : Option RoutingTableEntry :=
  if rt.getLifeTime now < 0 then
    match rt.flag with
    | .invalid => none
    | .valid => some (rt.invalidate now)
    | .inSearch => some rt
  else some rt

/-- An entry that `InvalidateRoutesWithDst` finds. -/
def invalidateValid : RoutingTableEntry := if rt.flag = .valid then rt.invalidate now else rt

end RoutingTableEntry

structure RoutingTable where
  rows : List (Ipv4Address × RoutingTableEntry)
  nodup : (rows.map Prod.fst).Nodup
  deriving DecidableEq

attribute [ext] RoutingTable

namespace RoutingTable
variable (t : RoutingTable) (now : Time)

/-- Rows are changed or erased, one by one. -/
def filterMapRows (f : Ipv4Address → RoutingTableEntry → Option RoutingTableEntry) : RoutingTable where
  rows := KeyedTables.filterMap f t.rows
  nodup := (keys_filterMap_sublist f t.rows).nodup t.nodup

def purge : RoutingTable := t.filterMapRows fun _ e => e.purge now

def lookupRoute (id : Ipv4Address) : RoutingTable × Option RoutingTableEntry :=
  let t := t.purge now
  (t, find t.rows id)

def getListOfDestinationWithNextHop (nextHop : Ipv4Address) :
    RoutingTable × List (Ipv4Address × UInt32) :=
  let t := t.purge now
  (t, (t.rows.filter fun row => row.2.nextHop = nextHop).map fun row => (row.1, row.2.seqNo))

/-- A route that is known is not overwritten. -/
def addRoute (dst : Ipv4Address) (rt : RoutingTableEntry) : RoutingTable :=
  let t := t.purge now
  let rt := if rt.flag = .inSearch then rt else { rt with reqCount := 0 }
  if h : dst ∈ t.rows.map Prod.fst then t
  else ⟨(dst, rt) :: t.rows, List.nodup_cons.mpr ⟨h, t.nodup⟩⟩

def update (dst : Ipv4Address) (rt : RoutingTableEntry) : RoutingTable where
  rows := put t.rows dst (if rt.flag = .inSearch then rt else { rt with reqCount := 0 })
  nodup := by
    rw [keys_put]
    exact t.nodup

def deleteRoute (dst : Ipv4Address) : RoutingTable where
  rows := remove (t.purge now).rows dst
  nodup := keys_remove_nodup (t.purge now).nodup dst

def invalidateRoutesWithDst (unreachable : List (Ipv4Address × UInt32)) : RoutingTable :=
  (t.purge now).filterMapRows fun dst e =>
    if dst ∈ unreachable.map Prod.fst then some (e.invalidateValid now) else some e

end RoutingTable

/-! ## Lookups after an operation -/

namespace RoutingTable
variable {t t' : RoutingTable} {now : Time} {d : Ipv4Address} {e : RoutingTableEntry}

theorem find_eq_some_iff : find t.rows d = some e ↔ (d, e) ∈ t.rows := by
  refine ⟨mem_of_find, fun hmem => ?_⟩
  cases hfind : find t.rows d with
  | none => exact absurd (List.mem_map_of_mem hmem) (find_eq_none hfind)
  | some e' =>
    have hinj := List.inj_on_of_nodup_map t.nodup hmem (mem_of_find hfind) rfl
    rw [(Prod.mk.inj hinj).2]

theorem mem_filterMapRows (f : Ipv4Address → RoutingTableEntry → Option RoutingTableEntry) :
    (d, e) ∈ (t.filterMapRows f).rows ↔ ∃ e', (d, e') ∈ t.rows ∧ f d e' = some e := by
  show (d, e) ∈ t.rows.filterMap _ ↔ _
  rw [List.mem_filterMap]
  constructor
  · rintro ⟨⟨k, e'⟩, hmem, hmap⟩
    obtain ⟨e'', hf, heq⟩ := Option.map_eq_some_iff.mp hmap
    obtain ⟨rfl, rfl⟩ := Prod.mk.inj heq
    exact ⟨e', hmem, hf⟩
  · rintro ⟨e', hmem, hf⟩
    exact ⟨(d, e'), hmem, by rw [hf]; rfl⟩

theorem find_filterMapRows (f : Ipv4Address → RoutingTableEntry → Option RoutingTableEntry) :
    find (t.filterMapRows f).rows d = (find t.rows d).bind (f d) := by
  apply Option.ext
  intro e
  rw [find_eq_some_iff, mem_filterMapRows, Option.bind_eq_some_iff]
  exact exists_congr fun e' => and_congr_left' find_eq_some_iff.symm

theorem find_purge (t : RoutingTable) (now : Time) (d : Ipv4Address) :
    find (t.purge now).rows d = (find t.rows d).bind fun e => e.purge now :=
  find_filterMapRows _

theorem find_addRoute_of_ne {dst : Ipv4Address} (h : d ≠ dst) (rt : RoutingTableEntry) :
    find (t.addRoute now dst rt).rows d = find (t.purge now).rows d := by
  rw [addRoute]
  split
  · rfl
  · exact find_cons_of_ne h

/-- The entry that is known stays. -/
theorem find_addRoute_of_some {rt : RoutingTableEntry} (h : find (t.purge now).rows d = some e) :
    find (t.addRoute now d rt).rows d = some e := by
  rw [addRoute, dif_pos (List.mem_map_of_mem (mem_of_find h))]
  exact h

theorem find_addRoute_of_none {rt : RoutingTableEntry} (h : find (t.purge now).rows d = none)
    (hflag : rt.flag = .inSearch) : find (t.addRoute now d rt).rows d = some rt := by
  rw [addRoute, dif_neg (find_eq_none h)]
  simp only [if_pos hflag]
  exact find_cons_self _ _ _

theorem find_update_of_ne {dst : Ipv4Address} (h : d ≠ dst) (rt : RoutingTableEntry) :
    find (t.update dst rt).rows d = find t.rows d :=
  find_put_of_ne h _

theorem find_update_self {rt : RoutingTableEntry} (h : find t.rows d = some e)
    (hflag : rt.flag = .inSearch) : find (t.update d rt).rows d = some rt := by
  have hput := find_put_self t.nodup h (if rt.flag = .inSearch then rt else { rt with reqCount := 0 })
  rw [if_pos hflag] at hput
  rw [update]
  simp only [if_pos hflag]
  exact hput

theorem find_deleteRoute_of_ne {dst : Ipv4Address} (h : d ≠ dst) :
    find (t.deleteRoute now dst).rows d = find (t.purge now).rows d :=
  find_remove_of_ne h

theorem find_deleteRoute_self (t : RoutingTable) (now : Time) (d : Ipv4Address) :
    find (t.deleteRoute now d).rows d = none :=
  find_remove_self _ _

/-- Nothing is left to purge. -/
def Purged (t : RoutingTable) (now : Time) : Prop := ∀ row ∈ t.rows, row.2.purge now = some row.2

theorem purge_eq_self (h : t.Purged now) : t.purge now = t := by
  apply RoutingTable.ext
  show t.rows.filterMap _ = t.rows
  conv_rhs => rw [← List.filterMap_some (l := t.rows)]
  apply List.filterMap_congr
  intro row hrow
  dsimp only
  rw [h row hrow]
  rfl

end RoutingTable

/-- An entry that has just been purged or invalidated is not purged again. -/
theorem RoutingTableEntry.purge_invalidate (rt : RoutingTableEntry) (now : Time)
    (h : rt.flag ≠ .invalid) : (rt.invalidate now).purge now = some (rt.invalidate now) := by
  rw [invalidate, if_neg h, purge, if_neg]
  simp [getLifeTime, badLinkLifetime]

theorem RoutingTableEntry.purge_purge {rt rt' : RoutingTableEntry} {now : Time}
    (h : rt.purge now = some rt') : rt'.purge now = some rt' := by
  by_cases hover : rt.getLifeTime now < 0
  · cases hflag : rt.flag with
    | invalid => simp [purge, hover, hflag] at h
    | valid =>
      obtain rfl : rt.invalidate now = rt' := by simpa [purge, hover, hflag] using h
      exact rt.purge_invalidate now (by simp [hflag])
    | inSearch =>
      obtain rfl : rt = rt' := by simpa [purge, hover, hflag] using h
      exact h
  · obtain rfl : rt = rt' := by simpa [purge, hover] using h
    exact h

theorem RoutingTableEntry.purge_invalidateValid {rt : RoutingTableEntry} {now : Time}
    (h : rt.purge now = some rt) :
    (rt.invalidateValid now).purge now = some (rt.invalidateValid now) := by
  rw [invalidateValid]
  split
  · next hvalid => exact rt.purge_invalidate now (by simp [hvalid])
  · exact h

theorem RoutingTable.purged_purge (t : RoutingTable) (now : Time) : (t.purge now).Purged now := by
  intro row hrow
  obtain ⟨e, -, he⟩ := (mem_filterMapRows _).mp hrow
  exact RoutingTableEntry.purge_purge he

end Ns3Noc.Aodv
