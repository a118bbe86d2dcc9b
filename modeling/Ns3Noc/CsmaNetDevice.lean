import Mathlib

/-!
# The CSMA device and its channel

`CsmaNetDevice` and `CsmaChannel`, for devices that are attached to the channel. A function returns
`none` where an assertion fails. The scheduled events may fire in any order, so that the times and
what the backoff draws are left out.
-/
namespace Ns3Noc.Csma

variable {ι : Type*}

structure Packet where
  uid : ℕ
  size : ℕ
  deriving DecidableEq, Repr

inductive WireState where
  | idle
  | transmitting
  | propagating
  deriving DecidableEq, Repr

inductive TxMachineState where
  | ready
  | busy
  | gap
  | backoff
  deriving DecidableEq, Repr

inductive EncapsulationMode where
  | illegal
  | dix
  | llc
  deriving DecidableEq, Repr

/-- The events that a device schedules -/
inductive Event where
  | transmitStart
  | transmitComplete
  | transmitReady
  deriving DecidableEq, Repr

/-- The trace sources for packets to send -/
inductive Trace where
  | phyTxBegin (packet : Packet)
  | phyTxDrop (packet : Packet)
  | macTxDrop (packet : Packet)
  deriving DecidableEq, Repr

inductive QueueMode where
  | packets
  | bytes
  deriving DecidableEq, Repr

/-- `DropTailQueue` -/
structure DropTailQueue where
  mode : QueueMode
  maxPackets : ℕ
  maxBytes : ℕ
  packets : List Packet
  deriving DecidableEq, Repr

def DropTailQueue.enqueue (queue : DropTailQueue) (packet : Packet) : Option DropTailQueue :=
  let bytesInQueue := (queue.packets.map (·.size)).sum
  if queue.mode = .packets ∧ queue.packets.length ≥ queue.maxPackets then none
  else if queue.mode = .bytes ∧ (bytesInQueue + packet.size) % 4294967296 ≥ queue.maxBytes then none
  else some { queue with packets := queue.packets ++ [packet] }

/-- `Backoff` without the choice of its time -/
structure Backoff where
  maxRetries : ℕ
  numBackoffRetries : ℕ
  deriving DecidableEq, Repr

namespace Backoff

variable (backoff : Backoff)

def resetBackoffTime : Backoff := { backoff with numBackoffRetries := 0 }
def maxRetriesReached : Bool := backoff.numBackoffRetries ≥ backoff.maxRetries
def incrNumRetries : Backoff := { backoff with numBackoffRetries := backoff.numBackoffRetries + 1 }

end Backoff

structure CsmaChannel (ι : Type*) where
  state : WireState
  currentPkt : Option Packet
  currentSrc : Option ι
  isActive : ι → Bool
  propagationCompleteEvents : ℕ

namespace CsmaChannel

variable (channel : CsmaChannel ι)

/-- `TransmitStart`, or nothing where it returns false -/
def transmitStart (p : Packet) (srcId : ι) : Option (CsmaChannel ι) :=
  if channel.state ≠ .idle then none
  else if !channel.isActive srcId then none
  else some { channel with
    currentPkt := some p
    currentSrc := some srcId
    state := .transmitting }

/-- `TransmitEnd`; the packet's way to the other devices is left out. -/
def transmitEnd : Option (CsmaChannel ι) :=
  if channel.state = .transmitting then some { channel with
    state := .propagating
    propagationCompleteEvents := channel.propagationCompleteEvents + 1 }
  else none

def propagationCompleteEvent : Option (CsmaChannel ι) :=
  if channel.state = .propagating then some { channel with
    state := .idle
    propagationCompleteEvents := channel.propagationCompleteEvents - 1 }
  else none

end CsmaChannel

structure CsmaNetDevice where
  sendEnable : Bool
  encapMode : EncapsulationMode
  mtu : ℕ
  txMachineState : TxMachineState
  currentPkt : Option Packet
  queue : DropTailQueue
  backoff : Backoff
  scheduled : List Event
  traces : List Trace
  deriving DecidableEq, Repr

namespace CsmaNetDevice

variable (device : CsmaNetDevice)

def trace (t : Trace) : CsmaNetDevice := { device with traces := device.traces ++ [t] }

def schedule (event : Event) : CsmaNetDevice :=
  { device with scheduled := device.scheduled ++ [event] }

/-- The sizes that `AddHeader` gives a packet, with padding, header and trailer -/
def addHeader (p : Packet) : Option Packet :=
  match device.encapMode with
  | .dix => some { p with size := max p.size 46 + 14 + 4 }
  | .llc =>
    let lengthType := max (p.size + 8) 46
    if lengthType % 65536 ≤ device.mtu then some { p with size := lengthType + 14 + 4 }
    else none
  | .illegal => none

/-- The next packet of the queue becomes the current one. -/
def dequeue (p : Packet) (packets : List Packet) : CsmaNetDevice :=
  { device with
    currentPkt := some p
    queue := { device.queue with packets := packets } }

/-- What `TransmitAbort` does before it looks at the queue -/
def abort (p : Packet) : CsmaNetDevice :=
  { device.trace (.phyTxDrop p) with
    currentPkt := none
    backoff := device.backoff.resetBackoffTime
    txMachineState := .ready }

/-- The channel is busy, and there are retries left. -/
def retry : CsmaNetDevice :=
  { device.schedule .transmitStart with
    txMachineState := .backoff
    backoff := device.backoff.incrNumRetries }

/-- The channel has taken the packet. -/
def transmit (p : Packet) : CsmaNetDevice :=
  { (device.trace (.phyTxBegin p)).schedule .transmitComplete with
    backoff := device.backoff.resetBackoffTime
    txMachineState := .busy }

/-- `TransmitStart` of a device with these packets in its queue. -/
def transmitStart (deviceId : ι) (channel : CsmaChannel ι) :
    List Packet → CsmaNetDevice → Option (CsmaChannel ι × CsmaNetDevice)
  | packets, device =>
    match device.currentPkt with
    | none => none
    | some p =>
      if !device.sendEnable then
        some (channel, { device.trace (.phyTxDrop p) with currentPkt := none })
      else if device.txMachineState ≠ .ready ∧ device.txMachineState ≠ .backoff then none
      else if channel.state ≠ .idle then
        if device.backoff.maxRetriesReached then
          -- `TransmitAbort`
          match packets with
          | [] => some (channel, device.abort p)
          | next :: packets =>
            transmitStart deviceId channel packets ((device.abort p).dequeue next packets)
        else some (channel, device.retry)
      else
        match channel.transmitStart p deviceId with
        | none =>
          some (channel, { device.trace (.phyTxDrop p) with
            currentPkt := none
            txMachineState := .ready })
        | some channel => some (channel, device.transmit p)

/-- The part that `SendFrom` and `TransmitReadyEvent` share: the next packet, if there is one, is
taken from the queue and its transmission starts. -/
def startNext (deviceId : ι) (channel : CsmaChannel ι) :
    Option (CsmaChannel ι × CsmaNetDevice) :=
  match device.queue.packets with
  | [] => some (channel, device)
  | p :: packets => transmitStart deviceId channel packets (device.dequeue p packets)

def transmitCompleteEvent (channel : CsmaChannel ι) : Option (CsmaChannel ι × CsmaNetDevice) :=
  if device.txMachineState = .busy ∧ channel.state = .transmitting ∧ device.currentPkt.isSome then
    channel.transmitEnd.map fun channel =>
      (channel, { device.schedule .transmitReady with
        txMachineState := .gap
        currentPkt := none })
  else none

def transmitReadyEvent (deviceId : ι) (channel : CsmaChannel ι) :
    Option (CsmaChannel ι × CsmaNetDevice) :=
  if device.txMachineState = .gap ∧ device.currentPkt = none then
    startNext { device with txMachineState := .ready } deviceId channel
  else none

/-- `SendFrom`, with the packet if it was accepted -/
def sendFrom (deviceId : ι) (channel : CsmaChannel ι) (packet : Packet) :
    Option (CsmaChannel ι × CsmaNetDevice × Option Packet) :=
  if !device.sendEnable then some (channel, device.trace (.macTxDrop packet), none)
  else
    (device.addHeader packet).bind fun packet =>
      match device.queue.enqueue packet with
      | none => some (channel, device.trace (.macTxDrop packet), none)
      | some queue =>
        let device := { device with queue := queue }
        if device.txMachineState = .ready then
          (device.startNext deviceId channel).map fun r => (r.1, r.2, some packet)
        else some (channel, device, some packet)

end CsmaNetDevice

end Ns3Noc.Csma
