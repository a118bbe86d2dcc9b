import Ns3Noc.OlsrState

/-!
# Link sensing

How received HELLO messages and the timers of link tuples change the link and the neighbour set.
The other sets that a HELLO message or a neighbour loss changes are left out: nothing here reads
them. A failed assertion or a fatal error gives `none`.
-/
namespace Ns3Noc.Olsr

def OLSR_ASYM_LINK : UInt8 := 1
def OLSR_SYM_LINK : UInt8 := 2
def OLSR_LOST_LINK : UInt8 := 3

def OLSR_NOT_NEIGH : UInt8 := 0
def OLSR_SYM_NEIGH : UInt8 := 1
def OLSR_MPR_NEIGH : UInt8 := 2

def OLSR_NEIGHB_HOLD_TIME : Time := 3 * seconds 2

structure LinkMessage where
  linkCode : UInt8
  neighborInterfaceAddresses : List Ipv4Address
  deriving DecidableEq, Repr

/-- A message header with its HELLO. -/
structure HelloMessage where
  vTime : Time
  originatorAddress : Ipv4Address
  willingness : UInt8
  linkMessages : List LinkMessage
  deriving DecidableEq, Repr

/-- The sets, the clock, and the scheduled expiries of link tuples with their times. -/
structure LinkState where
  now : Time
  ifaceAssocSet : IfaceAssocSet
  linkSet : LinkSet
  neighborSet : NeighborSet
  linkTupleTimerFirstTime : Bool
  events : List (Time × Ipv4Address)
  deriving DecidableEq, Repr

namespace LinkState

def initial : LinkState := ⟨0, [], [], [], true, []⟩

/-- `Simulator::Schedule` with `DELAY (time)` -/
def schedule (state : LinkState) (time : Time) (neighborIfaceAddr : Ipv4Address) : LinkState :=
  let delay := if time < state.now then 1000 else time - state.now + 1000
  { state with events := state.events ++ [(state.now + delay, neighborIfaceAddr)] }

def status (state : LinkState) (tuple : LinkTuple) : NeighborStatus :=
  if tuple.symTime ≥ state.now then .sym else .notSym

def linkTupleAdded (state : LinkState) (tuple : LinkTuple) (willingness : UInt8) : LinkState :=
  { state with
    neighborSet := state.neighborSet.insertNeighborTuple
      ⟨getMainAddress state.ifaceAssocSet tuple.neighborIfaceAddr, state.status tuple,
        willingness⟩ }

def linkTupleUpdated (state : LinkState) (tuple : LinkTuple) (willingness : UInt8) : LinkState :=
  let mainAddr := getMainAddress state.ifaceAssocSet tuple.neighborIfaceAddr
  let state :=
    if state.neighborSet.findNeighborTuple mainAddr = none then
      state.linkTupleAdded tuple willingness
    else state
  { state with
    neighborSet := state.neighborSet.modifyNeighborTuple
      (fun nb_tuple => { nb_tuple with status := state.status tuple }) mainAddr }

/-- One link message of a HELLO, on the link tuple and the flag that it was updated. -/
def senseLinkMessage (now vTime : Time) (receiverIface : Ipv4Address) (link : LinkTuple × Bool)
    (linkMessage : LinkMessage) : Option (LinkTuple × Bool) :=
  let lt := linkMessage.linkCode &&& 0x03
  let nt := (linkMessage.linkCode >>> 2) &&& 0x03
  if (lt = OLSR_SYM_LINK ∧ nt = OLSR_NOT_NEIGH) ∨
      (nt ≠ OLSR_SYM_NEIGH ∧ nt ≠ OLSR_MPR_NEIGH ∧ nt ≠ OLSR_NOT_NEIGH) then some link
  else if receiverIface ∈ linkMessage.neighborInterfaceAddresses then
    if lt = OLSR_LOST_LINK then some ({ link.1 with symTime := now - seconds 1 }, true)
    else if lt = OLSR_SYM_LINK ∨ lt = OLSR_ASYM_LINK then
      some ({ link.1 with symTime := now + vTime, time := now + vTime + OLSR_NEIGHB_HOLD_TIME },
        true)
    else none
  else some link

def linkSensing (state : LinkState) (msg : HelloMessage) (receiverIface senderIface : Ipv4Address) :
    Option LinkState := do
  let now := state.now
  guard (msg.vTime > 0)
  let found := state.linkSet.findLinkTuple senderIface
  -- the link tuple is at its place in the set, a new one at the end
  let created := found = none
  let linkTuple := found.getD ⟨receiverIface, senderIface, now - seconds 1, 0, now + msg.vTime⟩
  let linkSet := if created then state.linkSet ++ [linkTuple] else state.linkSet
  let linkTuple := { linkTuple with asymTime := now + msg.vTime }
  let (linkTuple, updated) ← msg.linkMessages.foldlM (senseLinkMessage now msg.vTime receiverIface)
    (linkTuple, ¬created)
  let linkTuple := { linkTuple with time := max linkTuple.time linkTuple.asymTime }
  let state := { state with linkSet := linkSet.modifyLinkTuple (fun _ => linkTuple) senderIface }
  let state := if updated then state.linkTupleUpdated linkTuple msg.willingness else state
  if created then
    some ((state.linkTupleAdded linkTuple msg.willingness).schedule
      (min linkTuple.time linkTuple.symTime) linkTuple.neighborIfaceAddr)
  else some state

def populateNeighborSet (state : LinkState) (msg : HelloMessage) : LinkState :=
  { state with
    neighborSet := state.neighborSet.modifyNeighborTuple
      (fun nb_tuple => { nb_tuple with willingness := msg.willingness }) msg.originatorAddress }

def processHello (state : LinkState) (msg : HelloMessage) (receiverIface senderIface : Ipv4Address) :
    Option LinkState := do
  let state ← state.linkSensing msg receiverIface senderIface
  some (state.populateNeighborSet msg)

def neighborLoss (state : LinkState) (tuple : LinkTuple) : LinkState :=
  state.linkTupleUpdated tuple OLSR_WILL_DEFAULT

/-- `tuple` is a reference to the element with index `it`. After the erasure it denotes the element
that has moved there, and behind the last element the value that was left in the memory. -/
def removeLinkTuple (state : LinkState) (it : ℕ) (tuple : LinkTuple) : LinkState :=
  let linkSet := state.linkSet.eraseLinkTuple tuple
  let tuple := linkSet[it]?.getD tuple
  { state with
    linkSet := linkSet
    neighborSet := state.neighborSet.eraseNeighborTuple
      (getMainAddress state.ifaceAssocSet tuple.neighborIfaceAddr) }

def linkTupleTimerExpire (state : LinkState) (neighborIfaceAddr : Ipv4Address) : LinkState :=
  match state.linkSet.findLinkTuple neighborIfaceAddr with
  | none => state
  | some tuple =>
    if tuple.time < state.now then
      state.removeLinkTuple
        (state.linkSet.findIdx (fun it => it.neighborIfaceAddr = neighborIfaceAddr)) tuple
    else if tuple.symTime < state.now then
      let state :=
        if state.linkTupleTimerFirstTime then { state with linkTupleTimerFirstTime := false }
        else state.neighborLoss tuple
      state.schedule tuple.time neighborIfaceAddr
    else state.schedule (min tuple.time tuple.symTime) neighborIfaceAddr

end LinkState

/-- What can happen: a HELLO message is received, or the scheduled expiry with the number `k` runs. -/
inductive LinkEvent where
  | hello (time : Time) (msg : HelloMessage) (receiverIface senderIface : Ipv4Address)
  | linkTupleTimerExpire (k : ℕ)
  deriving DecidableEq, Repr

namespace LinkState

/-- Nothing is scheduled before `time`. -/
def Due (state : LinkState) (time : Time) : Prop :=
  state.now ≤ time ∧ ∀ ev ∈ state.events, time ≤ ev.1

instance (state : LinkState) (time : Time) : Decidable (state.Due time) := by
  unfold Due
  infer_instance

def step (state : LinkState) : LinkEvent → Option LinkState
  | .hello time msg receiverIface senderIface =>
    if state.Due time then
      { state with now := time }.processHello msg receiverIface senderIface
    else none
  | .linkTupleTimerExpire k => do
    let ev ← state.events[k]?
    if state.Due ev.1 then
      some ({ state with now := ev.1, events := state.events.eraseIdx k }.linkTupleTimerExpire ev.2)
    else none

end LinkState

end Ns3Noc.Olsr
