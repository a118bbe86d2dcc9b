import Ns3Noc.OlsrHeader
import Ns3Noc.SeparatedEvents
import Ns3Noc.TcMessages

/-!
# Forwarding of OLSR messages

A message is known by its originator and its sequence number. A duplicate tuple remembers that it
has been considered for forwarding and whether it has been retransmitted, until the tuple expires.
-/
namespace Ns3Noc.Olsr
open PartialRuns SeparatedEvents

local instance lawfulBEqIpv4Address : LawfulBEq Ipv4Address := inferInstance

structure MprSelectorTuple where
  mainAddr : Ipv4Address
  expirationTime : Time
  deriving DecidableEq, Repr

abbrev MprSelectorSet : Type := List MprSelectorTuple

def MprSelectorSet.findMprSelectorTuple (mprSelectorSet : MprSelectorSet)
    (mainAddr : Ipv4Address) : Option MprSelectorTuple :=
  mprSelectorSet.find? fun it => it.mainAddr = mainAddr

structure DuplicateTuple where
  address : Ipv4Address
  sequenceNumber : UInt16
  retransmitted : Bool
  ifaceList : List Ipv4Address
  expirationTime : Time
  deriving DecidableEq, Repr

abbrev DuplicateSet : Type := List DuplicateTuple

namespace DuplicateSet
variable (duplicateSet : DuplicateSet)

def findDuplicateTuple (addr : Ipv4Address) (sequenceNumber : UInt16) : Option DuplicateTuple :=
  duplicateSet.find? fun it => it.address = addr ∧ it.sequenceNumber = sequenceNumber

/-- `operator ==` of duplicate tuples -/
def same (a b : DuplicateTuple) : Bool :=
  a.address = b.address ∧ a.sequenceNumber = b.sequenceNumber

def eraseDuplicateTuple (tuple : DuplicateTuple) : DuplicateSet :=
  duplicateSet.eraseP fun it => same it tuple

def insertDuplicateTuple (tuple : DuplicateTuple) : DuplicateSet := duplicateSet ++ [tuple]

/-- A change through the pointer that `FindDuplicateTuple` returns. -/
def modifyDuplicateTuple (f : DuplicateTuple → DuplicateTuple) (addr : Ipv4Address)
    (sequenceNumber : UInt16) : DuplicateSet → DuplicateSet
  | [] => []
  | it :: rest =>
    if it.address = addr ∧ it.sequenceNumber = sequenceNumber then f it :: rest
    else it :: modifyDuplicateTuple f addr sequenceNumber rest

section Find
variable {duplicateSet} {addr addr' : Ipv4Address} {seq seq' : UInt16} {tuple : DuplicateTuple}

theorem findDuplicateTuple_insert (htuple : duplicateSet.findDuplicateTuple tuple.address
      tuple.sequenceNumber = none) :
    (duplicateSet.insertDuplicateTuple tuple).findDuplicateTuple tuple.address
      tuple.sequenceNumber = some tuple := by
  rw [findDuplicateTuple, insertDuplicateTuple, List.find?_append]
  rw [findDuplicateTuple] at htuple
  rw [htuple]
  simp

theorem findDuplicateTuple_insert_of_ne (h : ¬(tuple.address = addr ∧ tuple.sequenceNumber = seq)) :
    (duplicateSet.insertDuplicateTuple tuple).findDuplicateTuple addr seq =
      duplicateSet.findDuplicateTuple addr seq := by
  rw [findDuplicateTuple, insertDuplicateTuple, List.find?_append]
  simp [findDuplicateTuple, h]

theorem findDuplicateTuple_erase_of_ne (h : ¬(tuple.address = addr ∧ tuple.sequenceNumber = seq)) :
    (duplicateSet.eraseDuplicateTuple tuple).findDuplicateTuple addr seq =
      duplicateSet.findDuplicateTuple addr seq := by
  induction duplicateSet with
  | nil => rfl
  | cons it rest ih =>
    rw [eraseDuplicateTuple, List.eraseP_cons, cond_eq_ite]
    by_cases hsame : same it tuple
    · have hkey : it.address = tuple.address ∧ it.sequenceNumber = tuple.sequenceNumber := by
        simpa [same] using hsame
      rw [if_pos hsame, findDuplicateTuple, findDuplicateTuple, List.find?_cons_of_neg]
      simpa [hkey.1, hkey.2] using h
    · rw [if_neg hsame]
      simp only [findDuplicateTuple, List.find?_cons]
      split
      · rfl
      · exact ih

variable {f : DuplicateTuple → DuplicateTuple}

theorem findDuplicateTuple_modify (hf : ∀ it, (f it).address = it.address ∧
      (f it).sequenceNumber = it.sequenceNumber)
    (h : duplicateSet.findDuplicateTuple addr seq = some tuple) :
    (duplicateSet.modifyDuplicateTuple f addr seq).findDuplicateTuple addr seq =
      some (f tuple) := by
  induction duplicateSet with
  | nil => cases h
  | cons it rest ih =>
    rw [modifyDuplicateTuple]
    by_cases hit : it.address = addr ∧ it.sequenceNumber = seq
    · have htuple : it = tuple := by simpa [findDuplicateTuple, hit] using h
      rw [if_pos hit, ← htuple]
      simp [findDuplicateTuple, hf it, hit]
    · have hrest : findDuplicateTuple rest addr seq = some tuple := by
        simpa [findDuplicateTuple, hit] using h
      rw [if_neg hit]
      simpa [findDuplicateTuple, hit] using ih hrest

theorem findDuplicateTuple_modify_of_ne (hf : ∀ it, (f it).address = it.address ∧
      (f it).sequenceNumber = it.sequenceNumber) (h : ¬(addr' = addr ∧ seq' = seq)) :
    (duplicateSet.modifyDuplicateTuple f addr' seq').findDuplicateTuple addr seq =
      duplicateSet.findDuplicateTuple addr seq := by
  induction duplicateSet with
  | nil => rfl
  | cons it rest ih =>
    rw [modifyDuplicateTuple]
    split
    · next hit =>
      have hne : ¬(it.address = addr ∧ it.sequenceNumber = seq) := by rwa [hit.1, hit.2]
      simp [findDuplicateTuple, hf it, hne]
    · simp only [findDuplicateTuple, List.find?_cons]
      split
      · rfl
      · exact ih

end Find

end DuplicateSet

def OLSR_DUP_HOLD_TIME : Time := seconds 30

/-- `DELAY`, from the present time to a time -/
def DELAY (now time : Time) : Time := if time < now then 1000 else time - now + 1000

/-- The sets that forwarding looks into. -/
structure Neighborhood where
  ifaceAssocSet : IfaceAssocSet
  linkSet : LinkSet
  mprSelectorSet : MprSelectorSet
  deriving DecidableEq, Repr

/-- A call of `DupTupleTimerExpire` to come. -/
structure DupTupleTimer where
  time : Time
  address : Ipv4Address
  sequenceNumber : UInt16
  deriving DecidableEq, Repr

/-- A message is queued for retransmission, or a duplicate tuple expires. -/
inductive ForwardingEvent where
  | retransmitted (received queued : MessageHeader)
  | expired (address : Ipv4Address) (sequenceNumber : UInt16)
  deriving DecidableEq, Repr

/-- A node, with what it has done so far, newest first. -/
structure ForwardingState where
  now : Time
  mainAddress : Ipv4Address
  neighborhood : Neighborhood
  duplicateSet : DuplicateSet
  queuedMessages : List MessageHeader
  timers : List DupTupleTimer
  history : List ForwardingEvent
  deriving DecidableEq, Repr

namespace ForwardingState
variable (state : ForwardingState)

def queueMessage (message : MessageHeader) : ForwardingState :=
  { state with queuedMessages := state.queuedMessages ++ [message] }

/-- The last part of `ForwardDefault`: the duplicate tuple is updated or a new one is made. -/
def considered (olsrMessage : MessageHeader) (duplicated : Option DuplicateTuple)
    (localIface : Ipv4Address) (retransmitted : Bool) : ForwardingState :=
  match duplicated with
  | some _ =>
    { state with
      duplicateSet := state.duplicateSet.modifyDuplicateTuple
        (fun it => { it with
          expirationTime := state.now + OLSR_DUP_HOLD_TIME
          retransmitted := retransmitted
          ifaceList := it.ifaceList ++ [localIface] })
        olsrMessage.originatorAddress olsrMessage.messageSequenceNumber }
  | none =>
    { state with
      duplicateSet := state.duplicateSet.insertDuplicateTuple
        ⟨olsrMessage.originatorAddress, olsrMessage.messageSequenceNumber, retransmitted,
          [localIface], state.now + OLSR_DUP_HOLD_TIME⟩
      timers := ⟨state.now + OLSR_DUP_HOLD_TIME, olsrMessage.originatorAddress,
        olsrMessage.messageSequenceNumber⟩ :: state.timers }

/-- The copy that is queued. Both fields are bytes. -/
def nextHop (olsrMessage : MessageHeader) : MessageHeader :=
  { olsrMessage with
    timeToLive := olsrMessage.timeToLive - 1
    hopCount := olsrMessage.hopCount + 1 }

def retransmit (olsrMessage : MessageHeader) : ForwardingState :=
  { state.queueMessage (nextHop olsrMessage) with
    history := .retransmitted olsrMessage (nextHop olsrMessage) :: state.history }

def forwardDefault (olsrMessage : MessageHeader) (duplicated : Option DuplicateTuple)
    (localIface senderAddress : Ipv4Address) : ForwardingState :=
  match state.neighborhood.linkSet.findSymLinkTuple senderAddress state.now with
  | none => state
  | some _ =>
    if duplicated.any DuplicateTuple.retransmitted then state
    else if olsrMessage.timeToLive > 1 ∧ (state.neighborhood.mprSelectorSet.findMprSelectorTuple
        (getMainAddress state.neighborhood.ifaceAssocSet senderAddress)).isSome then
      (state.retransmit olsrMessage).considered (nextHop olsrMessage) duplicated localIface true
    else state.considered olsrMessage duplicated localIface false

/-- A message of a packet, with what `ProcessHello`, `ProcessTc`, `ProcessMid` or `ProcessHna` make
of the sets when they get it. -/
structure Received where
  message : MessageHeader
  processed : Neighborhood

/-- A turn of the loop of `RecvOlsr`. -/
def recvMessage (receiverIfaceAddr senderIfaceAddr : Ipv4Address) (state : ForwardingState)
    (received : Received) : ForwardingState :=
  let messageHeader := received.message
  if messageHeader.timeToLive = 0 ∨ messageHeader.originatorAddress = state.mainAddress then state
  else
    let duplicated := state.duplicateSet.findDuplicateTuple messageHeader.originatorAddress
      messageHeader.messageSequenceNumber
    let do_forwarding := duplicated.all fun tuple => receiverIfaceAddr ∉ tuple.ifaceList
    let state := match duplicated with
      | none => { state with neighborhood := received.processed }
      | some _ => state
    if do_forwarding ∧ messageHeader.messageType ≠ .helloMessage then
      state.forwardDefault messageHeader duplicated receiverIfaceAddr senderIfaceAddr
    else state

def recvOlsr (receiverIfaceAddr senderIfaceAddr : Ipv4Address) (messages : List Received) :
    ForwardingState :=
  messages.foldl (recvMessage receiverIfaceAddr senderIfaceAddr) state

def dupTupleTimerExpire (address : Ipv4Address) (sequenceNumber : UInt16) : ForwardingState :=
  match state.duplicateSet.findDuplicateTuple address sequenceNumber with
  | none => state
  | some tuple =>
    if tuple.expirationTime < state.now then
      { state with
        duplicateSet := state.duplicateSet.eraseDuplicateTuple tuple
        history := .expired address sequenceNumber :: state.history }
    else
      { state with
        timers := ⟨state.now + DELAY state.now tuple.expirationTime, address, sequenceNumber⟩ ::
          state.timers }

inductive Label where
  | recvOlsr (receiverIfaceAddr senderIfaceAddr : Ipv4Address) (messages : List Received)
  | dupTupleTimerExpire (timer : DupTupleTimer)
  /-- The node's own HELLO, TC, MID and HNA messages. -/
  | queueMessage (message : MessageHeader)
  | sendQueuedMessages
  /-- The timers of the other sets. -/
  | neighborhood (neighborhood : Neighborhood)
  | advance (time : Time)

def step (state : ForwardingState) : Label → Option ForwardingState
  | .recvOlsr receiverIfaceAddr senderIfaceAddr messages =>
    some (state.recvOlsr receiverIfaceAddr senderIfaceAddr messages)
  | .dupTupleTimerExpire timer =>
    if timer ∈ state.timers ∧ timer.time = state.now then
      some (dupTupleTimerExpire { state with timers := state.timers.erase timer } timer.address
        timer.sequenceNumber)
    else none
  | .queueMessage message =>
    if message.originatorAddress = state.mainAddress then some (state.queueMessage message)
    else none
  | .sendQueuedMessages => some { state with queuedMessages := [] }
  | .neighborhood neighborhood => some { state with neighborhood := neighborhood }
  | .advance time =>
    if state.now ≤ time ∧ ∀ timer ∈ state.timers, time ≤ timer.time then
      some { state with now := time }
    else none

/-- A node that has received nothing yet. -/
def initial (mainAddress : Ipv4Address) : ForwardingState :=
  ⟨0, mainAddress, ⟨[], [], []⟩, [], [], [], []⟩

/-! ## One retransmission -/

end ForwardingState

namespace ForwardingEvent

/-- A message of this originator and number is queued for retransmission. -/
def Retransmits (address : Ipv4Address) (sequenceNumber : UInt16) : ForwardingEvent → Prop
  | .retransmitted received _ =>
    received.originatorAddress = address ∧ received.messageSequenceNumber = sequenceNumber
  | .expired _ _ => False

def Expires (address : Ipv4Address) (sequenceNumber : UInt16) (event : ForwardingEvent) : Prop :=
  event = .expired address sequenceNumber

end ForwardingEvent

namespace ForwardingState

/-- The message may be retransmitted by the node with this main address, and this is its copy. -/
structure Permitted (mainAddress : Ipv4Address) (received queued : MessageHeader) : Prop where
  not_hello : received.messageType ≠ .helloMessage
  not_originator : received.originatorAddress ≠ mainAddress
  timeToLive : received.timeToLive > 1
  copy : queued = nextHop received

/-- What holds of a node at any time. -/
structure Correct (mainAddress : Ipv4Address) (state : ForwardingState) : Prop where
  main : state.mainAddress = mainAddress
  once : ∀ addr seq, Separated (ForwardingEvent.Retransmits addr seq)
    (ForwardingEvent.Expires addr seq) state.history
  marked : ∀ addr seq, Open (ForwardingEvent.Retransmits addr seq)
    (ForwardingEvent.Expires addr seq) state.history →
    ∃ tuple, state.duplicateSet.findDuplicateTuple addr seq = some tuple ∧ tuple.retransmitted
  permitted : ∀ received queued, .retransmitted received queued ∈ state.history →
    Permitted mainAddress received queued
  queued : ∀ message ∈ state.queuedMessages, message.originatorAddress = mainAddress ∨
    ∃ received, .retransmitted received message ∈ state.history

variable {mainAddress : Ipv4Address} {state state' : ForwardingState} {msg : MessageHeader}
  {iface sender : Ipv4Address} {duplicated : Option DuplicateTuple}

theorem correct_initial (mainAddress : Ipv4Address) : Correct mainAddress (initial mainAddress) where
  main := rfl
  once _ _ := separated_nil
  marked _ _ h := absurd h not_open_nil
  permitted _ _ h := absurd h List.not_mem_nil
  queued _ h := absurd h List.not_mem_nil

section Considered
variable (hdup : duplicated = state.duplicateSet.findDuplicateTuple msg.originatorAddress
  msg.messageSequenceNumber)
include hdup

theorem find_considered (r : Bool) :
    ∃ tuple, (state.considered msg duplicated iface r).duplicateSet.findDuplicateTuple
      msg.originatorAddress msg.messageSequenceNumber = some tuple ∧ tuple.retransmitted = r := by
  cases duplicated with
  | none =>
    refine ⟨⟨msg.originatorAddress, msg.messageSequenceNumber, r, [iface],
      state.now + OLSR_DUP_HOLD_TIME⟩, ?_, rfl⟩
    exact DuplicateSet.findDuplicateTuple_insert hdup.symm
  | some tuple =>
    exact ⟨_, DuplicateSet.findDuplicateTuple_modify (fun _ => ⟨rfl, rfl⟩) hdup.symm, rfl⟩

omit hdup in
theorem find_considered_of_ne (r : Bool) {addr : Ipv4Address} {seq : UInt16}
    (h : ¬(msg.originatorAddress = addr ∧ msg.messageSequenceNumber = seq)) :
    (state.considered msg duplicated iface r).duplicateSet.findDuplicateTuple addr seq =
      state.duplicateSet.findDuplicateTuple addr seq := by
  cases duplicated with
  | none => exact DuplicateSet.findDuplicateTuple_insert_of_ne h
  | some tuple => exact DuplicateSet.findDuplicateTuple_modify_of_ne (fun _ => ⟨rfl, rfl⟩) h

/-- No copy of the message has been retransmitted since the last expiry. -/
theorem Correct.not_open (h : Correct mainAddress state)
    (hnew : ¬duplicated.any DuplicateTuple.retransmitted) :
    ¬Open (ForwardingEvent.Retransmits msg.originatorAddress msg.messageSequenceNumber)
      (ForwardingEvent.Expires msg.originatorAddress msg.messageSequenceNumber) state.history := by
  intro hopen
  obtain ⟨tuple, hfind, hretransmitted⟩ := h.marked _ _ hopen
  refine hnew ?_
  rw [hdup, hfind]
  exact hretransmitted

theorem Correct.not_retransmitted (h : Correct mainAddress state)
    (hnew : ¬duplicated.any DuplicateTuple.retransmitted) :
    Correct mainAddress (state.considered msg duplicated iface false) := by
  have hsame : (state.considered msg duplicated iface false).history = state.history ∧
      (state.considered msg duplicated iface false).mainAddress = state.mainAddress ∧
      (state.considered msg duplicated iface false).queuedMessages = state.queuedMessages := by
    cases duplicated <;> exact ⟨rfl, rfl, rfl⟩
  obtain ⟨hhistory, hmain, hqueue⟩ := hsame
  constructor
  · rw [hmain]
    exact h.main
  · rw [hhistory]
    exact h.once
  · intro addr seq hopen
    rw [hhistory] at hopen
    have hne : ¬(msg.originatorAddress = addr ∧ msg.messageSequenceNumber = seq) := by
      rintro ⟨rfl, rfl⟩
      exact h.not_open hdup hnew hopen
    rw [find_considered_of_ne false hne]
    exact h.marked addr seq hopen
  · rw [hhistory]
    exact h.permitted
  · rw [hhistory, hqueue]
    exact h.queued

theorem Correct.retransmitted (h : Correct mainAddress state) (hhello : msg.messageType ≠ .helloMessage)
    (hmain : msg.originatorAddress ≠ mainAddress) (httl : msg.timeToLive > 1)
    (hnew : ¬duplicated.any DuplicateTuple.retransmitted) :
    Correct mainAddress ((state.retransmit msg).considered (nextHop msg) duplicated iface true) := by
  have hsame : ((state.retransmit msg).considered (nextHop msg) duplicated iface true).history =
        .retransmitted msg (nextHop msg) :: state.history ∧
      ((state.retransmit msg).considered (nextHop msg) duplicated iface true).mainAddress =
        state.mainAddress ∧
      ((state.retransmit msg).considered (nextHop msg) duplicated iface true).queuedMessages =
        state.queuedMessages ++ [nextHop msg] := by
    cases duplicated <;> exact ⟨rfl, rfl, rfl⟩
  obtain ⟨hhistory, haddress, hqueue⟩ := hsame
  constructor
  · rw [haddress]
    exact h.main
  · intro addr seq
    rw [hhistory]
    refine (h.once addr seq).cons ?_
    rintro ⟨rfl, rfl⟩
    exact h.not_open hdup hnew
  · intro addr seq hopen
    by_cases hkey : msg.originatorAddress = addr ∧ msg.messageSequenceNumber = seq
    · obtain ⟨rfl, rfl⟩ := hkey
      have hdup' : duplicated = (state.retransmit msg).duplicateSet.findDuplicateTuple
          (nextHop msg).originatorAddress (nextHop msg).messageSequenceNumber := hdup
      exact find_considered hdup' true
    · have hkey' : ¬((nextHop msg).originatorAddress = addr ∧
          (nextHop msg).messageSequenceNumber = seq) := hkey
      rw [find_considered_of_ne true hkey']
      rw [hhistory, open_cons] at hopen
      rcases hopen with hopen | ⟨-, hopen⟩
      · exact absurd hopen hkey
      · exact h.marked addr seq hopen
  · intro received queued hmem
    rw [hhistory] at hmem
    rcases List.mem_cons.mp hmem with heq | hmem
    · obtain ⟨rfl, rfl⟩ := ForwardingEvent.retransmitted.inj heq
      exact ⟨hhello, hmain, httl, rfl⟩
    · exact h.permitted received queued hmem
  · intro message hmem
    rw [hhistory]
    rw [hqueue] at hmem
    rcases List.mem_append.mp hmem with hmem | hmem
    · exact (h.queued message hmem).imp_right fun ⟨received, hr⟩ =>
        ⟨received, List.mem_cons_of_mem _ hr⟩
    · obtain rfl := List.mem_singleton.mp hmem
      exact .inr ⟨msg, List.mem_cons_self⟩

theorem Correct.forwardDefault (h : Correct mainAddress state) (hhello : msg.messageType ≠ .helloMessage)
    (hmain : msg.originatorAddress ≠ mainAddress) :
    Correct mainAddress (state.forwardDefault msg duplicated iface sender) := by
  rw [ForwardingState.forwardDefault]
  split
  · exact h
  · split
    · exact h
    · next hnew =>
      split
      · next hselected => exact h.retransmitted hdup hhello hmain hselected.1 hnew
      · exact h.not_retransmitted hdup hnew

end Considered

theorem Correct.recvMessage (h : Correct mainAddress state) (received : Received) :
    Correct mainAddress (recvMessage iface sender state received) := by
  rw [ForwardingState.recvMessage]
  split
  · exact h
  · next hskip =>
    obtain ⟨-, hmain⟩ := not_or.mp hskip
    rw [h.main] at hmain
    -- Processing a message does not touch the duplicate tuples.
    cases hdup : state.duplicateSet.findDuplicateTuple received.message.originatorAddress
        received.message.messageSequenceNumber with
    | none =>
      have hprocessed : Correct mainAddress { state with neighborhood := received.processed } :=
        ⟨h.main, h.once, h.marked, h.permitted, h.queued⟩
      dsimp only
      split
      · next hforward => exact hprocessed.forwardDefault hdup.symm hforward.2 hmain
      · exact hprocessed
    | some tuple =>
      dsimp only
      split
      · next hforward => exact h.forwardDefault hdup.symm hforward.2 hmain
      · exact h

theorem Correct.recvOlsr (h : Correct mainAddress state) (messages : List Received) :
    Correct mainAddress (state.recvOlsr iface sender messages) := by
  induction messages generalizing state with
  | nil => exact h
  | cons received messages ih => exact ih (h.recvMessage received)

theorem Correct.expired (h : Correct mainAddress state) (tuple : DuplicateTuple) :
    Correct mainAddress { state with
      duplicateSet := state.duplicateSet.eraseDuplicateTuple tuple
      history := .expired tuple.address tuple.sequenceNumber :: state.history } where
  main := h.main
  once addr seq := (h.once addr seq).cons fun hfalse => hfalse.elim
  marked addr seq hopen := by
    rcases open_cons.mp hopen with hopen | ⟨hexpires, hopen⟩
    · exact hopen.elim
    · have hne : ¬(tuple.address = addr ∧ tuple.sequenceNumber = seq) := by
        rintro ⟨rfl, rfl⟩
        exact hexpires rfl
      rw [DuplicateSet.findDuplicateTuple_erase_of_ne hne]
      exact h.marked addr seq hopen
  permitted received queued hmem := by
    rcases List.mem_cons.mp hmem with heq | hmem
    · cases heq
    · exact h.permitted received queued hmem
  queued message hmem := (h.queued message hmem).imp_right fun ⟨received, hr⟩ =>
    ⟨received, List.mem_cons_of_mem _ hr⟩

theorem Correct.dupTupleTimerExpire (h : Correct mainAddress state) (addr : Ipv4Address)
    (seq : UInt16) : Correct mainAddress (state.dupTupleTimerExpire addr seq) := by
  rw [ForwardingState.dupTupleTimerExpire]
  split
  · exact h
  · next tuple hfind =>
    obtain ⟨rfl, rfl⟩ : tuple.address = addr ∧ tuple.sequenceNumber = seq := by
      simpa using List.find?_some hfind
    split
    · exact h.expired tuple
    · exact ⟨h.main, h.once, h.marked, h.permitted, h.queued⟩

theorem Correct.step (h : Correct mainAddress state) {l : Label}
    (hstep : step state l = some state') : Correct mainAddress state' := by
  cases l with
  | recvOlsr receiver sender messages =>
    obtain rfl := Option.some.inj hstep
    exact h.recvOlsr messages
  | dupTupleTimerExpire timer =>
    obtain ⟨-, hstep⟩ := Option.ite_none_right_eq_some.mp hstep
    obtain rfl := Option.some.inj hstep
    have hfired : Correct mainAddress { state with timers := state.timers.erase timer } :=
      ⟨h.main, h.once, h.marked, h.permitted, h.queued⟩
    exact hfired.dupTupleTimerExpire timer.address timer.sequenceNumber
  | queueMessage message =>
    obtain ⟨hown, hstep⟩ := Option.ite_none_right_eq_some.mp hstep
    obtain rfl := Option.some.inj hstep
    refine ⟨h.main, h.once, h.marked, h.permitted, fun msg hmem => ?_⟩
    rcases List.mem_append.mp hmem with hmem | hmem
    · exact h.queued msg hmem
    · obtain rfl := List.mem_singleton.mp hmem
      exact .inl (hown.trans h.main)
  | sendQueuedMessages =>
    obtain rfl := Option.some.inj hstep
    exact ⟨h.main, h.once, h.marked, h.permitted, fun msg hmem => absurd hmem List.not_mem_nil⟩
  | neighborhood neighborhood =>
    obtain rfl := Option.some.inj hstep
    exact ⟨h.main, h.once, h.marked, h.permitted, h.queued⟩
  | advance time =>
    obtain ⟨-, hstep⟩ := Option.ite_none_right_eq_some.mp hstep
    obtain rfl := Option.some.inj hstep
    exact ⟨h.main, h.once, h.marked, h.permitted, h.queued⟩

theorem correct_of_run {labels : List Label}
    (h : run step (initial mainAddress) labels = some state) : Correct mainAddress state :=
  invariant (fun _ _ _ h hstep => Correct.step h hstep) (correct_initial mainAddress) h

theorem nextHop_timeToLive (h : msg.timeToLive > 1) :
    (nextHop msg).timeToLive.toNat + 1 = msg.timeToLive.toNat := by
  have hone : 1 < msg.timeToLive.toNat := h
  have hsub := UInt8.toNat_sub_of_le msg.timeToLive 1 (UInt8.le_iff_toNat_le.mpr hone.le)
  have hvalue : (1 : UInt8).toNat = 1 := rfl
  rw [nextHop, hsub, hvalue]
  omega

theorem nextHop_hopCount (msg : MessageHeader) :
    (nextHop msg).hopCount.toNat = (msg.hopCount.toNat + 1) % 256 :=
  UInt8.toNat_add msg.hopCount 1

/-- Between two retransmissions of one message its duplicate tuple expires, and what is queued is a
copy with one hop more, modulo 256, of a message that may be retransmitted. -/
theorem forwards_once {labels : List Label}
    (h : run step (initial mainAddress) labels = some state) :
    (∀ addr seq, Separated (ForwardingEvent.Retransmits addr seq)
      (ForwardingEvent.Expires addr seq) state.history) ∧
    (∀ received queued, .retransmitted received queued ∈ state.history →
      received.messageType ≠ .helloMessage ∧ received.originatorAddress ≠ mainAddress ∧
      1 < received.timeToLive.toNat ∧
      queued.timeToLive.toNat + 1 = received.timeToLive.toNat ∧
      queued.hopCount.toNat = (received.hopCount.toNat + 1) % 256 ∧
      queued = { received with timeToLive := queued.timeToLive, hopCount := queued.hopCount }) ∧
    ∀ message ∈ state.queuedMessages, message.originatorAddress = mainAddress ∨
      ∃ received, .retransmitted received message ∈ state.history := by
  have hcorrect := correct_of_run h
  refine ⟨hcorrect.once, fun received queued hmem => ?_, hcorrect.queued⟩
  obtain ⟨hhello, hmain, httl, rfl⟩ := hcorrect.permitted received queued hmem
  exact ⟨hhello, hmain, httl, nextHop_timeToLive httl, nextHop_hopCount received, rfl⟩

/-- The neighbour 2 has a symmetric link and has selected the node. -/
def selectedBy2 : Neighborhood := ⟨[], [⟨1, 2, 100, 100, 100⟩], [⟨2, 100⟩]⟩

/-- A TC message of node 3. -/
def fromNode3 (hopCount : UInt8) : MessageHeader := ⟨0, 3, 8, hopCount, 40, .tc ⟨[], 0⟩⟩

/-- Neighbour 2 sends it twice, and once over another interface. -/
def receipts (hopCount : UInt8) : List Label :=
  [.neighborhood selectedBy2,
    .recvOlsr 1 2 [⟨fromNode3 hopCount, selectedBy2⟩, ⟨fromNode3 hopCount, selectedBy2⟩],
    .recvOlsr 5 2 [⟨fromNode3 hopCount, selectedBy2⟩]]

theorem forwards_once_received_thrice : ∃ state,
    run step (initial 1) (receipts 2) = some state ∧
    state.history = [.retransmitted (fromNode3 2) ⟨0, 3, 7, 3, 40, .tc ⟨[], 0⟩⟩] ∧
    Separated (ForwardingEvent.Retransmits 3 40) (ForwardingEvent.Expires 3 40) state.history :=
  have hrun : run step (initial 1) (receipts 2) = some _ := rfl
  ⟨_, hrun, by decide, (forwards_once hrun).1 3 40⟩

/-- The hop count of the copy is not one higher. -/
theorem hopCount_wraps : ∃ state received queued,
    run step (initial 1) (receipts 255) = some state ∧
    .retransmitted received queued ∈ state.history ∧ received.hopCount.toNat = 255 ∧
    queued.hopCount.toNat = 0 :=
  ⟨_, fromNode3 255, nextHop (fromNode3 255), rfl, by decide, by decide, by decide⟩

end ForwardingState

end Ns3Noc.Olsr
