import Ns3Noc.CsmaNetDevice
import Ns3Noc.PartialRuns

/-!
# Runs of devices on one CSMA channel

Packets are sent, sending is enabled and disabled, and the events that the devices and the channel
have scheduled fire in any order.
-/
namespace Ns3Noc.Csma

open PartialRuns

inductive Call (ι : Type*) where
  | sendFrom (device : ι) (packet : Packet)
  | setSendEnable (device : ι) (sendEnable : Bool)
  | fire (device : ι) (event : Event)
  | propagationComplete
  deriving DecidableEq, Repr

/-- The devices on the channel, and the packets that each has accepted. -/
structure CsmaRun (ι : Type*) where
  channel : CsmaChannel ι
  devices : ι → CsmaNetDevice
  accepted : ι → List Packet

namespace CsmaNetDevice

variable (device : CsmaNetDevice)

/-- The packets that were transmitted or reported dropped -/
def settled : List Packet := device.traces.filterMap fun
  | .phyTxBegin p => some p
  | .phyTxDrop p => some p
  | .macTxDrop _ => none

/-- The packets that were accepted and are not settled -/
def waiting : List Packet :=
  if device.txMachineState = .backoff then device.currentPkt.toList ++ device.queue.packets
  else device.queue.packets

def fire {ι : Type*} (deviceId : ι) (channel : CsmaChannel ι) :
    Event → Option (CsmaChannel ι × CsmaNetDevice)
  | .transmitStart => transmitStart deviceId channel device.queue.packets device
  | .transmitComplete => device.transmitCompleteEvent channel
  | .transmitReady => device.transmitReadyEvent deviceId channel

end CsmaNetDevice

namespace CsmaRun

variable {ι : Type*} [DecidableEq ι] (run : CsmaRun ι)

def start (encapMode : ι → EncapsulationMode) (mtu : ι → ℕ) (queue : ι → DropTailQueue)
    (maxRetries : ι → ℕ) : CsmaRun ι where
  channel := ⟨.idle, none, none, fun _ => true, 0⟩
  devices := fun i => ⟨true, encapMode i, mtu i, .ready, none, { queue i with packets := [] },
    ⟨maxRetries i, 0⟩, [], []⟩
  accepted := fun _ => []

/-- What a device has done with the channel -/
def update (i : ι) (r : CsmaChannel ι × CsmaNetDevice) : CsmaRun ι :=
  { run with
    channel := r.1
    devices := Function.update run.devices i r.2 }

/-- An event that is not scheduled does not fire. -/
def step (run : CsmaRun ι) : Call ι → Option (CsmaRun ι)
  | .sendFrom i packet =>
    ((run.devices i).sendFrom i run.channel packet).map fun r =>
      { run.update i (r.1, r.2.1) with
        accepted := Function.update run.accepted i (run.accepted i ++ r.2.2.toList) }
  | .setSendEnable i sendEnable =>
    some (run.update i (run.channel, { run.devices i with sendEnable := sendEnable }))
  | .fire i event =>
    let device := run.devices i
    if event ∈ device.scheduled then
      ({ device with scheduled := device.scheduled.erase event }.fire i run.channel event).map
        (run.update i)
    else some run
  | .propagationComplete =>
    if 0 < run.channel.propagationCompleteEvents then
      run.channel.propagationCompleteEvent.map fun channel => { run with channel := channel }
    else some run

/-- No device is stuck, and each deals with the packets that it has accepted in their order. -/
structure Live (run : CsmaRun ι) : Prop where
  busy : ∀ i, (run.devices i).txMachineState = .busy →
    (run.devices i).scheduled = [.transmitComplete]
  gap : ∀ i, (run.devices i).txMachineState = .gap → (run.devices i).scheduled = [.transmitReady]
  backoff : ∀ i, (run.devices i).txMachineState = .backoff →
    (run.devices i).scheduled = [.transmitStart]
  ready : ∀ i, (run.devices i).txMachineState = .ready → (run.devices i).sendEnable = true →
    (run.devices i).queue.packets = [] ∧ (run.devices i).currentPkt = none
  accounts : ∀ i, run.accepted i = (run.devices i).settled ++ (run.devices i).waiting

/-- Sending is enabled when a backoff ends. It is not enabled in the state `ready` while packets are
queued. The packets that are sent fit the length field of their encapsulation. -/
def Allows (run : CsmaRun ι) : Call ι → Prop
  | .sendFrom i packet =>
    (run.devices i).sendEnable = true → ((run.devices i).addHeader packet).isSome
  | .setSendEnable i sendEnable => sendEnable = true →
    (run.devices i).txMachineState = .ready → (run.devices i).queue.packets = []
  | .fire i event => event = .transmitStart → event ∈ (run.devices i).scheduled →
    (run.devices i).sendEnable = true
  | .propagationComplete => True

/-- The states of one device and what it has scheduled agree. -/
structure Coherent (device : CsmaNetDevice) : Prop where
  ready : device.txMachineState = .ready → device.scheduled = [] ∧ device.currentPkt = none ∧
    (device.sendEnable = true → device.queue.packets = [])
  busy : device.txMachineState = .busy → device.scheduled = [.transmitComplete] ∧
    device.currentPkt.isSome
  gap : device.txMachineState = .gap → device.scheduled = [.transmitReady] ∧
    device.currentPkt = none
  backoff : device.txMachineState = .backoff → device.scheduled = [.transmitStart] ∧
    device.currentPkt.isSome

/-- The channel is taken by the one device that is busy. -/
structure Inv (run : CsmaRun ι) : Prop where
  coherent : ∀ i, Coherent (run.devices i)
  accounts : ∀ i, run.accepted i = (run.devices i).settled ++ (run.devices i).waiting
  active : ∀ i, run.channel.isActive i = true
  taken : run.channel.state = .transmitting → ∃ i, (run.devices i).txMachineState = .busy ∧
    ∀ j, (run.devices j).txMachineState = .busy → j = i
  free : run.channel.state ≠ .transmitting → ∀ i, (run.devices i).txMachineState ≠ .busy
  propagating : run.channel.propagationCompleteEvents =
    if run.channel.state = .propagating then 1 else 0

/-- A device that is done with its call has these packets to account for, and has left the channel
alone or taken it while it was idle. -/
structure Settles (i : ι) (channel : CsmaChannel ι) (packets : List Packet)
    (r : CsmaChannel ι × CsmaNetDevice) : Prop where
  coherent : Coherent r.2
  accounts : r.2.settled ++ r.2.waiting = packets
  channel : r.1 = channel ∧ r.2.txMachineState ≠ .busy ∨
    channel.state = .idle ∧ r.2.txMachineState = .busy ∧
      ∃ p, r.1 = { channel with currentPkt := some p, currentSrc := some i, state := .transmitting }

section Device

omit [DecidableEq ι]

variable {i : ι} {channel : CsmaChannel ι} {device : CsmaNetDevice} {p : Packet}

theorem settled_trace (t : Trace) : (device.trace t).settled = device.settled ++
    (match t with | .phyTxBegin p => [p] | .phyTxDrop p => [p] | .macTxDrop _ => []) := by
  simp only [CsmaNetDevice.settled, CsmaNetDevice.trace, List.filterMap_append]
  cases t <;> rfl

theorem abort_settles (hpackets : device.queue.packets = []) (hscheduled : device.scheduled = []) :
    Settles i channel (device.settled ++ [p]) (channel, device.abort p) where
  coherent := ⟨fun _ => ⟨hscheduled, rfl, fun _ => hpackets⟩, nofun, nofun, nofun⟩
  accounts := by
    have hsettled : (device.abort p).settled = device.settled ++ [p] := settled_trace (.phyTxDrop p)
    have hwaiting : (device.abort p).waiting = [] := hpackets
    rw [hsettled, hwaiting, List.append_nil]
  channel := .inl ⟨rfl, nofun⟩

theorem retry_settles (hp : device.currentPkt = some p) (hscheduled : device.scheduled = []) :
    Settles i channel (device.settled ++ p :: device.queue.packets) (channel, device.retry) where
  coherent := by
    refine ⟨nofun, nofun, nofun, fun _ => ⟨?_, ?_⟩⟩
    · simp [CsmaNetDevice.retry, CsmaNetDevice.schedule, hscheduled]
    · simp [CsmaNetDevice.retry, CsmaNetDevice.schedule, hp]
  accounts := by
    have hwaiting : device.retry.waiting = device.currentPkt.toList ++ device.queue.packets := rfl
    rw [hwaiting, hp]
    rfl
  channel := .inl ⟨rfl, nofun⟩

theorem transmit_settles (hp : device.currentPkt = some p) (hscheduled : device.scheduled = [])
    (hidle : channel.state = .idle) :
    Settles i channel (device.settled ++ p :: device.queue.packets)
      ({ channel with currentPkt := some p, currentSrc := some i, state := .transmitting },
        device.transmit p) where
  coherent := by
    refine ⟨nofun, fun _ => ⟨?_, ?_⟩, nofun, nofun⟩
    · simp [CsmaNetDevice.transmit, CsmaNetDevice.schedule, CsmaNetDevice.trace, hscheduled]
    · simp [CsmaNetDevice.transmit, CsmaNetDevice.schedule, CsmaNetDevice.trace, hp]
  accounts := by
    have hsettled : (device.transmit p).settled = device.settled ++ [p] :=
      settled_trace (.phyTxBegin p)
    have hwaiting : (device.transmit p).waiting = device.queue.packets := rfl
    rw [hsettled, hwaiting, List.append_assoc]
    rfl
  channel := .inr ⟨hidle, rfl, p, rfl⟩

/-- A device that starts to transmit ends up transmitting, in a backoff or with nothing to send. -/
theorem transmitStart_settles (packets : List Packet) (hp : device.currentPkt = some p)
    (hpackets : device.queue.packets = packets) (henable : device.sendEnable = true)
    (hstate : device.txMachineState = .ready ∨ device.txMachineState = .backoff)
    (hscheduled : device.scheduled = []) (hactive : channel.isActive i = true) :
    ∃ r, CsmaNetDevice.transmitStart i channel packets device = some r ∧
      Settles i channel (device.settled ++ p :: packets) r := by
  have hbad : ¬(device.txMachineState ≠ .ready ∧ device.txMachineState ≠ .backoff) :=
    fun h => hstate.elim h.1 h.2
  induction packets generalizing device p with
  | nil =>
    rw [CsmaNetDevice.transmitStart.eq_def]
    simp only [hp, henable, Bool.not_true, Bool.false_eq_true, if_false, if_neg hbad]
    by_cases hidle : channel.state = .idle
    · simp only [hidle, ne_eq, not_true_eq_false, if_false, CsmaChannel.transmitStart, hactive,
        Bool.not_true, Bool.false_eq_true]
      exact ⟨_, rfl, hpackets ▸ transmit_settles hp hscheduled hidle⟩
    · simp only [ne_eq, hidle, not_false_eq_true, if_true]
      split
      · exact ⟨_, rfl, abort_settles hpackets hscheduled⟩
      · exact ⟨_, rfl, hpackets ▸ retry_settles hp hscheduled⟩
  | cons next packets ih =>
    rw [CsmaNetDevice.transmitStart.eq_def]
    simp only [hp, henable, Bool.not_true, Bool.false_eq_true, if_false, if_neg hbad]
    by_cases hidle : channel.state = .idle
    · simp only [hidle, ne_eq, not_true_eq_false, if_false, CsmaChannel.transmitStart, hactive,
        Bool.not_true, Bool.false_eq_true]
      exact ⟨_, rfl, hpackets ▸ transmit_settles hp hscheduled hidle⟩
    · simp only [ne_eq, hidle, not_false_eq_true, if_true]
      split
      · have hnext : ∃ r, CsmaNetDevice.transmitStart i channel packets
              ((device.abort p).dequeue next packets) = some r ∧ Settles i channel
                (((device.abort p).dequeue next packets).settled ++ next :: packets) r :=
          ih rfl rfl henable (.inl rfl) hscheduled fun h => h.1 rfl
        have hsettled : ((device.abort p).dequeue next packets).settled = device.settled ++ [p] :=
          settled_trace (.phyTxDrop p)
        rw [hsettled, List.append_assoc] at hnext
        exact hnext
      · exact ⟨_, rfl, hpackets ▸ retry_settles hp hscheduled⟩

/-- A device that may not send drops the packet and keeps its state. -/
theorem transmitStart_disabled (packets : List Packet) (hp : device.currentPkt = some p)
    (henable : device.sendEnable = false) :
    CsmaNetDevice.transmitStart i channel packets device =
      some (channel, { device.trace (.phyTxDrop p) with currentPkt := none }) := by
  rw [CsmaNetDevice.transmitStart.eq_def]
  simp only [hp, henable, Bool.not_false, if_true]

theorem startNext_settles (hready : device.txMachineState = .ready)
    (hp : device.currentPkt = none) (hscheduled : device.scheduled = [])
    (hactive : channel.isActive i = true) :
    ∃ r, device.startNext i channel = some r ∧
      Settles i channel (device.settled ++ device.queue.packets) r := by
  cases hpackets : device.queue.packets with
  | nil =>
    refine ⟨(channel, device), by simp only [CsmaNetDevice.startNext, hpackets], ?_, ?_,
      .inl ⟨rfl, by simp [hready]⟩⟩
    · exact ⟨fun _ => ⟨hscheduled, hp, fun _ => hpackets⟩, by simp [hready], by simp [hready],
        by simp [hready]⟩
    · simp [CsmaNetDevice.waiting, hready, hpackets]
  | cons p packets =>
    simp only [CsmaNetDevice.startNext, hpackets]
    cases henable : device.sendEnable with
    | true => exact transmitStart_settles packets rfl rfl henable (.inl hready) hscheduled hactive
    | false =>
      refine ⟨_, transmitStart_disabled packets rfl henable, ?_, ?_,
        .inl ⟨rfl, by simp [hready, CsmaNetDevice.dequeue, CsmaNetDevice.trace]⟩⟩
      · refine ⟨fun _ => ⟨hscheduled, rfl, fun h => ?_⟩, ?_, ?_, ?_⟩
        · exact absurd (henable.symm.trans h) Bool.false_ne_true
        all_goals simp [hready, CsmaNetDevice.dequeue, CsmaNetDevice.trace]
      · have hsettled : ({ (device.dequeue p packets).trace (.phyTxDrop p) with
            currentPkt := none } : CsmaNetDevice).settled = device.settled ++ [p] :=
          settled_trace (.phyTxDrop p)
        have hwaiting : ({ (device.dequeue p packets).trace (.phyTxDrop p) with
            currentPkt := none } : CsmaNetDevice).waiting = packets := by
          simp [CsmaNetDevice.waiting, hready, CsmaNetDevice.dequeue, CsmaNetDevice.trace]
        rw [hsettled, hwaiting, List.append_assoc]
        rfl

end Device

/-- Only this device, and what it has accepted, may differ. -/
structure OnlyAt (i : ι) (run run' : CsmaRun ι) : Prop where
  devices : ∀ j, j ≠ i → run'.devices j = run.devices j
  accepted : ∀ j, j ≠ i → run'.accepted j = run.accepted j

omit [DecidableEq ι] in
theorem OnlyAt.forall {run run' : CsmaRun ι} {i : ι} (h : OnlyAt i run run')
    {P : CsmaNetDevice → List Packet → Prop} (hold : ∀ j, P (run.devices j) (run.accepted j))
    (hi : P (run'.devices i) (run'.accepted i)) (j : ι) : P (run'.devices j) (run'.accepted j) := by
  by_cases hj : j = i
  · exact hj ▸ hi
  · rw [h.devices j hj, h.accepted j hj]
    exact hold j

namespace Inv

omit [DecidableEq ι]

variable {run run' : CsmaRun ι} {i : ι}

theorem live (h : Inv run) : Live run where
  busy := fun i hi => ((h.coherent i).busy hi).1
  gap := fun i hi => ((h.coherent i).gap hi).1
  backoff := fun i hi => ((h.coherent i).backoff hi).1
  ready := fun i hi henable =>
    ⟨((h.coherent i).ready hi).2.2 henable, ((h.coherent i).ready hi).2.1⟩
  accounts := h.accounts

/-- A device that is not busy may start to transmit. -/
theorem of_settles (h : Inv run) (hother : OnlyAt i run run')
    (hbusy : (run.devices i).txMachineState ≠ .busy)
    (hr : Settles i run.channel (run'.accepted i) (run'.channel, run'.devices i)) : Inv run' := by
  have hcoherent := hother.forall (P := fun device _ => Coherent device) h.coherent hr.coherent
  have haccounts := hother.forall (P := fun device accepted =>
    accepted = device.settled ++ device.waiting) h.accounts hr.accounts.symm
  rcases hr.channel with ⟨hchannel, hidle⟩ | ⟨hidle, hnow, p, hchannel⟩
  · have hkept : ∀ j, (run'.devices j).txMachineState = .busy ↔
        (run.devices j).txMachineState = .busy := by
      intro j
      by_cases hj : j = i
      · rw [hj]
        exact iff_of_false hidle hbusy
      · rw [hother.devices j hj]
    simp only at hchannel
    refine ⟨hcoherent, haccounts, hchannel ▸ h.active, ?_, ?_, hchannel ▸ h.propagating⟩
    · simp only [hchannel, hkept]
      exact h.taken
    · simp only [hchannel, ne_eq, hkept]
      exact h.free
  · have hfree := h.free (by simp [hidle])
    simp only at hchannel hnow
    refine ⟨hcoherent, haccounts, ?_, fun _ => ⟨i, hnow, fun j hj => ?_⟩, ?_, ?_⟩
    · simpa [hchannel] using h.active
    · by_contra hji
      rw [hother.devices j hji] at hj
      exact hfree j hj
    · simp [hchannel]
    · simp [hchannel, h.propagating, hidle]

/-- The state of a device stays, and so does the channel. -/
theorem of_same (h : Inv run) (hother : OnlyAt i run run') (hchannel : run'.channel = run.channel)
    (hstate : (run'.devices i).txMachineState = (run.devices i).txMachineState)
    (hcoherent : Coherent (run'.devices i))
    (haccounts : run'.accepted i = (run'.devices i).settled ++ (run'.devices i).waiting) :
    Inv run' := by
  have hkept : ∀ j, (run'.devices j).txMachineState = (run.devices j).txMachineState := by
    intro j
    by_cases hj : j = i
    · rw [hj, hstate]
    · rw [hother.devices j hj]
  refine ⟨hother.forall (P := fun device _ => Coherent device) h.coherent hcoherent,
    hother.forall (P := fun device accepted => accepted = device.settled ++ device.waiting)
      h.accounts haccounts, hchannel ▸ h.active, ?_, ?_, hchannel ▸ h.propagating⟩
  · simp only [hchannel, hkept]
    exact h.taken
  · simp only [hchannel, hkept]
    exact h.free

end Inv

theorem onlyAt_update (i : ι) (r : CsmaChannel ι × CsmaNetDevice) : OnlyAt i run (run.update i r) :=
  ⟨fun _ hj => Function.update_of_ne hj _ _, fun _ _ => rfl⟩

theorem onlyAt_accept (i : ι) (r : CsmaChannel ι × CsmaNetDevice) (packets : List Packet) :
    OnlyAt i run { run.update i r with accepted := Function.update run.accepted i packets } :=
  ⟨fun _ hj => Function.update_of_ne hj _ _, fun _ hj => Function.update_of_ne hj _ _⟩

@[simp] theorem devices_update_self (i : ι) (r : CsmaChannel ι × CsmaNetDevice) :
    (run.update i r).devices i = r.2 := Function.update_self _ _ _

variable {run}

theorem enqueue_packets {queue queue' : DropTailQueue} {packet : Packet}
    (h : queue.enqueue packet = some queue') : queue'.packets = queue.packets ++ [packet] := by
  simp only [DropTailQueue.enqueue] at h
  split at h
  · exact absurd h nofun
  · split at h
    · exact absurd h nofun
    · exact (Option.some.inj h) ▸ rfl

section SendFrom

omit [DecidableEq ι]

variable {i : ι} {channel : CsmaChannel ι} {device : CsmaNetDevice} {packet packet' : Packet}
  {queue : DropTailQueue}

theorem sendFrom_dropped (henable : device.sendEnable = true)
    (hpacket : device.addHeader packet = some packet')
    (hqueue : device.queue.enqueue packet' = none) :
    device.sendFrom i channel packet = some (channel, device.trace (.macTxDrop packet'), none) := by
  rw [CsmaNetDevice.sendFrom, if_neg (by simp [henable]), hpacket, Option.bind_some]
  simp only [hqueue]

theorem sendFrom_accepted (henable : device.sendEnable = true)
    (hpacket : device.addHeader packet = some packet')
    (hqueue : device.queue.enqueue packet' = some queue) :
    device.sendFrom i channel packet =
      if device.txMachineState = .ready then
        (({ device with queue := queue } : CsmaNetDevice).startNext i channel).map
          fun r => (r.1, r.2, some packet')
      else some (channel, { device with queue := queue }, some packet') := by
  rw [CsmaNetDevice.sendFrom, if_neg (by simp [henable]), hpacket, Option.bind_some]
  simp only [hqueue]

end SendFrom

/-- A packet that is dropped on its way to the queue changes nothing else. -/
theorem inv_macTxDrop (h : Inv run) (i : ι) (packet : Packet) :
    Inv { run.update i (run.channel, (run.devices i).trace (.macTxDrop packet)) with
      accepted := Function.update run.accepted i (run.accepted i ++ []) } := by
  have hcoherent := h.coherent i
  refine h.of_same (run.onlyAt_accept i _ _) rfl ?_ ?_ ?_
  · simp only [devices_update_self]
    rfl
  · simp only [devices_update_self]
    exact ⟨hcoherent.ready, hcoherent.busy, hcoherent.gap, hcoherent.backoff⟩
  · simp only [devices_update_self, Function.update_self, List.append_nil, settled_trace]
    exact h.accounts i

theorem inv_sendFrom (h : Inv run) {i : ι} {packet : Packet}
    (hfits : (run.devices i).sendEnable = true → ((run.devices i).addHeader packet).isSome) :
    ∃ run', run.step (.sendFrom i packet) = some run' ∧ Inv run' := by
  rw [step]
  by_cases henable : (run.devices i).sendEnable = true
  · obtain ⟨packet', hpacket⟩ := Option.isSome_iff_exists.mp (hfits henable)
    cases hqueue : (run.devices i).queue.enqueue packet' with
    | none =>
      rw [sendFrom_dropped henable hpacket hqueue]
      exact ⟨_, rfl, inv_macTxDrop h i packet'⟩
    | some queue =>
      have hpackets := enqueue_packets hqueue
      have hcoherent := h.coherent i
      rw [sendFrom_accepted henable hpacket hqueue]
      by_cases hready : (run.devices i).txMachineState = .ready
      · obtain ⟨hscheduled, hcurrent, hempty⟩ := hcoherent.ready hready
        rw [if_pos hready]
        obtain ⟨r, hr, hsettles⟩ : ∃ r,
            ({ run.devices i with queue := queue } : CsmaNetDevice).startNext i run.channel = some r ∧
              Settles i run.channel ((run.devices i).settled ++ queue.packets) r :=
          startNext_settles hready hcurrent hscheduled (h.active i)
        rw [hr]
        refine ⟨_, rfl, h.of_settles (run.onlyAt_accept i _ _) (by simp [hready]) ?_⟩
        have haccounts : Function.update run.accepted i (run.accepted i ++ [packet']) i =
            (run.devices i).settled ++ queue.packets := by
          rw [Function.update_self, h.accounts i, hpackets, CsmaNetDevice.waiting, hready,
            List.append_assoc]
          rfl
        simp only [devices_update_self]
        exact haccounts.symm ▸ hsettles
      · rw [if_neg hready]
        refine ⟨_, rfl, h.of_same (run.onlyAt_accept i _ _) rfl ?_ ?_ ?_⟩
        · simp only [devices_update_self]
        · simp only [devices_update_self]
          exact ⟨fun hr => absurd hr hready, hcoherent.busy, hcoherent.gap, hcoherent.backoff⟩
        · simp only [devices_update_self, Function.update_self, h.accounts i]
          simp only [CsmaNetDevice.settled, CsmaNetDevice.waiting, hpackets]
          split
          · simp
          · simp
  · rw [CsmaNetDevice.sendFrom, if_pos (by simp [henable])]
    exact ⟨_, rfl, inv_macTxDrop h i packet⟩

theorem step_fire {i : ι} {event : Event} (h : (run.devices i).scheduled = [event]) :
    run.step (.fire i event) =
      (({ run.devices i with scheduled := [] } : CsmaNetDevice).fire i run.channel event).map
        (run.update i) := by
  rw [step, h]
  simp only [List.mem_singleton, if_true, List.erase_cons_head]

/-- The channel is left by the one device that is busy. -/
theorem inv_transmitComplete (h : Inv run) {i : ι}
    (hbusy : (run.devices i).txMachineState = .busy) :
    ∃ run', run.step (.fire i .transmitComplete) = some run' ∧ Inv run' := by
  obtain ⟨hscheduled, hcurrent⟩ := (h.coherent i).busy hbusy
  have hstate : run.channel.state = .transmitting := by
    by_contra hstate
    exact h.free hstate i hbusy
  obtain ⟨i', -, honly⟩ := h.taken hstate
  have hother : ∀ j, j ≠ i → (run.devices j).txMachineState ≠ .busy :=
    fun j hj hj' => hj ((honly j hj').trans (honly i hbusy).symm)
  have hevents := h.propagating
  rw [hstate] at hevents
  rw [step_fire hscheduled, CsmaNetDevice.fire, CsmaNetDevice.transmitCompleteEvent,
    if_pos ⟨hbusy, hstate, hcurrent⟩, CsmaChannel.transmitEnd, if_pos hstate]
  refine ⟨_, rfl, ?_⟩
  have honlyAt := run.onlyAt_update i ({ run.channel with
      state := .propagating
      propagationCompleteEvents := run.channel.propagationCompleteEvents + 1 },
    { ({ run.devices i with scheduled := [] } : CsmaNetDevice).schedule .transmitReady with
      txMachineState := .gap
      currentPkt := none })
  refine ⟨honlyAt.forall (P := fun device _ => Coherent device) h.coherent ?_,
    honlyAt.forall (P := fun device accepted => accepted = device.settled ++ device.waiting)
      h.accounts ?_, h.active, nofun, fun _ j => ?_, ?_⟩
  · simp only [devices_update_self]
    exact ⟨nofun, nofun, fun _ => ⟨rfl, rfl⟩, nofun⟩
  · have haccounts := h.accounts i
    simp only [CsmaNetDevice.waiting, hbusy] at haccounts
    simp only [devices_update_self]
    exact haccounts
  · by_cases hj : j = i
    · rw [hj, devices_update_self]
      exact nofun
    · rw [honlyAt.devices j hj]
      exact hother j hj
  · simp [update, hevents]

theorem inv_fire (h : Inv run) {i : ι} {event : Event}
    (henable : event = .transmitStart → event ∈ (run.devices i).scheduled →
      (run.devices i).sendEnable = true) :
    ∃ run', run.step (.fire i event) = some run' ∧ Inv run' := by
  by_cases hmem : event ∈ (run.devices i).scheduled
  · have hcoherent := h.coherent i
    have haccounts := h.accounts i
    cases hstate : (run.devices i).txMachineState with
    | ready =>
      rw [(hcoherent.ready hstate).1] at hmem
      exact absurd hmem List.not_mem_nil
    | busy =>
      obtain ⟨hscheduled, -⟩ := hcoherent.busy hstate
      rw [hscheduled, List.mem_singleton] at hmem
      exact hmem ▸ inv_transmitComplete h hstate
    | gap =>
      obtain ⟨hscheduled, hcurrent⟩ := hcoherent.gap hstate
      rw [hscheduled, List.mem_singleton] at hmem
      subst hmem
      obtain ⟨r, hr, hsettles⟩ : ∃ r, ({ run.devices i with
          scheduled := [], txMachineState := .ready } : CsmaNetDevice).startNext i run.channel =
            some r ∧ Settles i run.channel
              ((run.devices i).settled ++ (run.devices i).queue.packets) r :=
        startNext_settles rfl hcurrent rfl (h.active i)
      rw [CsmaNetDevice.waiting, hstate] at haccounts
      refine ⟨run.update i r, ?_, h.of_settles (run.onlyAt_update i r) (by simp [hstate]) ?_⟩
      · rw [step_fire hscheduled, CsmaNetDevice.fire, CsmaNetDevice.transmitReadyEvent,
          if_pos ⟨hstate, hcurrent⟩, hr]
        rfl
      · simp only [devices_update_self]
        exact haccounts.symm ▸ hsettles
    | backoff =>
      obtain ⟨hscheduled, hcurrent⟩ := hcoherent.backoff hstate
      obtain ⟨p, hp⟩ := Option.isSome_iff_exists.mp hcurrent
      have hevent := hmem
      rw [hscheduled, List.mem_singleton] at hevent
      obtain ⟨r, hr, hsettles⟩ : ∃ r, CsmaNetDevice.transmitStart i run.channel
          (run.devices i).queue.packets { run.devices i with scheduled := [] } = some r ∧
            Settles i run.channel
              ((run.devices i).settled ++ p :: (run.devices i).queue.packets) r :=
        transmitStart_settles _ hp rfl (henable hevent hmem) (.inr hstate) rfl (h.active i)
      rw [CsmaNetDevice.waiting, hstate, hp] at haccounts
      refine ⟨run.update i r, ?_, h.of_settles (run.onlyAt_update i r) (by simp [hstate]) ?_⟩
      · rw [hevent, step_fire hscheduled, CsmaNetDevice.fire, hr]
        rfl
      · simp only [devices_update_self]
        exact haccounts.symm ▸ hsettles
  · exact ⟨run, by simp only [step, hmem, if_false], h⟩

theorem inv_setSendEnable (h : Inv run) {i : ι} {sendEnable : Bool}
    (hempty : sendEnable = true → (run.devices i).txMachineState = .ready →
      (run.devices i).queue.packets = []) :
    ∃ run', run.step (.setSendEnable i sendEnable) = some run' ∧ Inv run' := by
  have hcoherent := h.coherent i
  refine ⟨_, rfl, h.of_same (run.onlyAt_update i _) rfl ?_ ?_ ?_⟩
  · simp only [devices_update_self]
  · simp only [devices_update_self]
    exact ⟨fun hr => ⟨(hcoherent.ready hr).1, (hcoherent.ready hr).2.1, fun he => hempty he hr⟩,
      hcoherent.busy, hcoherent.gap, hcoherent.backoff⟩
  · simp only [devices_update_self]
    exact h.accounts i

theorem inv_propagationComplete (h : Inv run) :
    ∃ run', run.step .propagationComplete = some run' ∧ Inv run' := by
  have hevents := h.propagating
  by_cases hstate : run.channel.state = .propagating
  · rw [if_pos hstate] at hevents
    have hfree := h.free (by simp [hstate])
    refine ⟨{ run with channel := { run.channel with
      state := .idle, propagationCompleteEvents := 0 } }, ?_, h.coherent, h.accounts, h.active,
      nofun, fun _ => hfree, rfl⟩
    simp [step, hevents, CsmaChannel.propagationCompleteEvent, hstate]
  · rw [if_neg hstate] at hevents
    exact ⟨run, by simp [step, hevents], h⟩

omit [DecidableEq ι] in
theorem inv_start (encapMode : ι → EncapsulationMode) (mtu : ι → ℕ) (queue : ι → DropTailQueue)
    (maxRetries : ι → ℕ) : Inv (start encapMode mtu queue maxRetries) where
  coherent := fun _ => ⟨fun _ => ⟨rfl, rfl, fun _ => rfl⟩, nofun, nofun, nofun⟩
  accounts := fun _ => rfl
  active := fun _ => rfl
  taken := nofun
  free := fun _ _ => nofun
  propagating := rfl

/-- A step that is not allowed fails an assertion or leaves a device stuck. -/
theorem not_live (h : Inv run) {call : Call ι} (hno : ¬run.Allows call) {run' : CsmaRun ι}
    (hstep : run.step call = some run') : ¬Live run' := by
  intro hlive
  cases call with
  | sendFrom i packet =>
    obtain ⟨henable, hnone⟩ := Classical.not_imp.mp hno
    have hpacket : (run.devices i).addHeader packet = none := by simpa using hnone
    rw [step, CsmaNetDevice.sendFrom, if_neg (by simp [henable]), hpacket] at hstep
    exact absurd hstep nofun
  | setSendEnable i sendEnable =>
    obtain ⟨rfl, hqueued⟩ := Classical.not_imp.mp hno
    obtain ⟨hready, hpackets⟩ := Classical.not_imp.mp hqueued
    obtain rfl := Option.some.inj hstep
    have hempty := hlive.ready i (by simpa using hready) (by simp)
    exact hpackets (by simpa using hempty.1)
  | fire i event =>
    obtain ⟨rfl, hdisabled⟩ := Classical.not_imp.mp hno
    obtain ⟨hmem, henable⟩ := Classical.not_imp.mp hdisabled
    have hcoherent := h.coherent i
    cases hstate : (run.devices i).txMachineState with
    | ready => simp [(hcoherent.ready hstate).1] at hmem
    | busy => simp [(hcoherent.busy hstate).1] at hmem
    | gap => simp [(hcoherent.gap hstate).1] at hmem
    | backoff =>
      obtain ⟨hscheduled, hcurrent⟩ := hcoherent.backoff hstate
      obtain ⟨p, hp⟩ := Option.isSome_iff_exists.mp hcurrent
      have hdropped : CsmaNetDevice.fire { run.devices i with scheduled := [] } i run.channel
          .transmitStart = some _ :=
        transmitStart_disabled _ hp (Bool.not_eq_true _ ▸ henable)
      rw [step_fire hscheduled, hdropped] at hstep
      obtain rfl := Option.some.inj hstep
      have hstuck := hlive.backoff i (by simpa [CsmaNetDevice.trace] using hstate)
      simp [CsmaNetDevice.trace] at hstuck
  | propagationComplete => exact hno trivial

end CsmaRun

end Ns3Noc.Csma
