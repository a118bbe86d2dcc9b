import Ns3Noc.AodvTable

/-!
# AODV error reports

`SendRerrWhenBreaksLinkToNextHop` and `RecvError`. The messages are those handed to
`SendRerrMessage`, which looks up routes and sends them.
-/
namespace Ns3Noc.Aodv
open KeyedTables

structure RerrHeader where
  flag : UInt8
  reserved : UInt8
  unreachableDstSeqNo : List (Ipv4Address × UInt32)
  deriving DecidableEq, Repr

/-- `insert` of a map, which keeps the value of a key that is there. -/
def insertRow (rows : List (Ipv4Address × UInt32)) (row : Ipv4Address × UInt32) :
    List (Ipv4Address × UInt32) :=
  if row.1 ∈ rows.map Prod.fst then rows else rows ++ [row]

namespace RerrHeader
variable (h : RerrHeader)

def empty : RerrHeader := ⟨0, 0, []⟩

def getDestCount : UInt8 := UInt8.ofNat h.unreachableDstSeqNo.length

def names : List Ipv4Address := h.unreachableDstSeqNo.map Prod.fst

/-- `none` is a failed assertion. -/
def addUnDestination (un : Ipv4Address × UInt32) : Option (RerrHeader × Bool) :=
  if un.1 ∈ h.names then some (h, true)
  else if h.getDestCount < 255 then
    some ({ h with unreachableDstSeqNo := insertRow h.unreachableDstSeqNo un }, true)
  else none

def clear (_ : RerrHeader) : RerrHeader := ⟨0, 0, []⟩

/-- `Deserialize`, from the number of destinations and what is read for them. Two records for one
destination fail the assertion on the length. -/
def deserialize (flag reserved dest : UInt8) (records : ℕ → Ipv4Address × UInt32) :
    Option RerrHeader :=
  let h : RerrHeader :=
    ⟨flag, reserved, ((List.range dest.toNat).map records).foldl insertRow []⟩
  if 3 + 8 * dest.toNat = 3 + 8 * h.getDestCount.toNat then some h else none

end RerrHeader

/-- A call of `SendRerrMessage`. -/
structure Handed where
  header : RerrHeader
  precursors : List Ipv4Address
  deriving DecidableEq, Repr

/-- The variables of the loop that fills messages. -/
structure Report where
  header : RerrHeader
  precursors : List Ipv4Address
  routingTable : RoutingTable
  handed : List Handed

namespace Report

/-- The header is never full when `AddUnDestination` returns, as it fails an assertion before. -/
theorem addUnDestination_ne_false {h h' : RerrHeader} {un : Ipv4Address × UInt32} :
    h.addUnDestination un ≠ some (h', false) := by
  rw [RerrHeader.addUnDestination]
  split
  · simp
  · split
    · simp
    · simp

/-- The loop over the unreachable destinations. Where `AddUnDestination` returns false, the message
is handed over and the destination added to the next one. -/
def addAll (now : Time) (unreachable : List (Ipv4Address × UInt32)) (r : Report) : Option Report :=
  match unreachable with
  | [] => some r
  | un :: rest =>
    match _h : r.header.addUnDestination un with
    | none => none
    | some (header, false) =>
      addAll now (un :: rest)
        { r with header := header.clear, handed := r.handed ++ [⟨header, r.precursors⟩] }
    | some (header, true) =>
      let (routingTable, toDst) := r.routingTable.lookupRoute now un.1
      addAll now rest
        { r with
          header := header
          precursors := toDst.elim r.precursors fun rt => rt.getPrecursors r.precursors
          routingTable := routingTable }
termination_by (unreachable.length, r.header.unreachableDstSeqNo.length)
decreasing_by
  · exact absurd _h addUnDestination_ne_false
  · exact .left _ _ (Nat.lt_succ_self _)

/-- The last message -/
def finish (r : Report) : Report :=
  if r.header.getDestCount ≠ 0 then { r with handed := r.handed ++ [⟨r.header, r.precursors⟩] }
  else r

end Report

/-- The routing table, and what has been handed over, oldest first. -/
structure Reporting where
  routingTable : RoutingTable
  handed : List Handed

/-- What both functions end with. -/
def Reporting.report (now : Time) (unreachable invalidated : List (Ipv4Address × UInt32))
    (r : Report) : Option Reporting :=
  (r.addAll now unreachable).map fun r =>
    ⟨r.finish.routingTable.invalidateRoutesWithDst now invalidated, r.finish.handed⟩

def sendRerrWhenBreaksLinkToNextHop (now : Time) (nextHop : Ipv4Address) (s : Reporting) :
    Option Reporting :=
  match s.routingTable.lookupRoute now nextHop with
  | (routingTable, none) => some { s with routingTable := routingTable }
  | (routingTable, some toNextHop) =>
    match RerrHeader.empty.addUnDestination (nextHop, toNextHop.seqNo) with
    | none => none
    | some (rerrHeader, _) =>
      let (routingTable, unreachable) := routingTable.getListOfDestinationWithNextHop now nextHop
      Reporting.report now unreachable (insertRow unreachable (nextHop, toNextHop.seqNo))
        ⟨rerrHeader, toNextHop.getPrecursors [], routingTable, s.handed⟩

/-! ## Neighbours -/

structure Neighbor where
  neighborAddress : Ipv4Address
  expireTime : Time
  close : Bool
  deriving DecidableEq, Repr

/-- `CloseNeighbor` -/
def Neighbor.closes (now : Time) (nb : Neighbor) : Bool := nb.expireTime < now || nb.close

/-- `Update` adds a neighbour only if it is not there. The callback may be null. -/
structure Neighbors where
  nb : List Neighbor
  nodup : (nb.map Neighbor.neighborAddress).Nodup
  handleLinkFailure : Bool

/-- A node that handles a RERR, and the destinations to report. -/
structure Receiving where
  nb : Neighbors
  reporting : Reporting
  unreachable : List (Ipv4Address × UInt32)

/-- `SendRerrWhenBreaksLinkToNextHop` of one next hop after the other -/
def breakLinks (now : Time) (hops : List Ipv4Address) (s : Reporting) : Option Reporting :=
  hops.foldlM (fun s hop => sendRerrWhenBreaksLinkToNextHop now hop s) s

namespace Neighbors

/-- The neighbours whose links the callback reports. -/
def closing (nb : Neighbors) (now : Time) : List Ipv4Address :=
  if nb.handleLinkFailure then
    (nb.nb.filter (Neighbor.closes now)).map Neighbor.neighborAddress
  else []

def remaining (nb : Neighbors) (now : Time) : Neighbors :=
  { nb with
    nb := nb.nb.filter fun i => !i.closes now
    nodup := (List.filter_sublist.map _).nodup nb.nodup }

/-- `Purge`, with the calls of the callback -/
def purge (nb : Neighbors) (now : Time) (s : Reporting) : Option (Neighbors × Reporting) :=
  (breakLinks now (nb.closing now) s).map fun s => (nb.remaining now, s)

def has (nb : Neighbors) (addr : Ipv4Address) : Bool :=
  nb.nb.any fun i => i.neighborAddress = addr

end Neighbors

/-- A turn of the loop over the destinations of the received header. -/
def recvUnDestination (now : Time) (dstWithNextHopSrc : List (Ipv4Address × UInt32))
    (s : Receiving) (un : Ipv4Address × UInt32) : Option Receiving :=
  (s.nb.purge now s.reporting).bind fun (nb, reporting) =>
    if nb.has un.1 then
      (sendRerrWhenBreaksLinkToNextHop now un.1 reporting).map fun reporting =>
        { s with nb := nb, reporting := reporting }
    else if un.1 ∈ dstWithNextHopSrc.map Prod.fst then
      some ⟨nb, reporting, insertRow s.unreachable un⟩
    else some { s with nb := nb, reporting := reporting }

/-- With the neighbours that are left. -/
def recvError (now : Time) (rerrHeader : RerrHeader) (src : Ipv4Address) (nb : Neighbors)
    (s : Reporting) : Option (Neighbors × Reporting) :=
  let (routingTable, dstWithNextHopSrc) := s.routingTable.getListOfDestinationWithNextHop now src
  (rerrHeader.unreachableDstSeqNo.foldlM (recvUnDestination now dstWithNextHopSrc)
    ⟨nb, { s with routingTable := routingTable }, []⟩).bind fun r =>
      (Reporting.report now r.unreachable r.unreachable
        ⟨{ rerrHeader with unreachableDstSeqNo := [] }, [], r.reporting.routingTable,
          r.reporting.handed⟩).map fun s => (r.nb, s)

end Ns3Noc.Aodv
