import Ns3Noc.CsmaNetDevice
import Ns3Noc.PartialRuns

/-!
# The devices on a CSMA channel

The list of devices of the channel, with a flag for each, and where a transmission is received. A
function returns `none` where an assertion fails or an element out of the list is accessed.
-/
namespace Ns3Noc.CsmaMembership
open Csma PartialRuns

variable {δ π : Type}

structure CsmaDeviceRec (δ : Type) where
  devicePtr : δ
  active : Bool
  deriving DecidableEq, Repr

structure CsmaChannel (δ π : Type) where
  state : WireState
  deviceList : List (CsmaDeviceRec δ)
  currentPkt : Option π
  currentSrc : ℕ
  delay : ℤ
  deriving DecidableEq, Repr

/-- A scheduled `CsmaNetDevice::Receive` -/
structure Reception (δ π : Type) where
  time : ℤ
  device : δ
  packet : π
  sender : δ
  deriving DecidableEq, Repr

def setActive (active : Bool) (it : CsmaDeviceRec δ) : CsmaDeviceRec δ := { it with active := active }

namespace CsmaChannel
variable [DecidableEq δ] (channel : CsmaChannel δ π)

/-- The device number and the channel with the device. -/
def attach (device : δ) : ℕ × CsmaChannel δ π :=
  (channel.deviceList.length, { channel with deviceList := channel.deviceList ++ [⟨device, true⟩] })

/-- The loop of `Reattach`, which has the new list where it returns true. -/
def reattachLoop (device : δ) : List (CsmaDeviceRec δ) → Option (List (CsmaDeviceRec δ))
  | [] => none
  | it :: rest =>
    if it.devicePtr = device then
      if !it.active then some (setActive true it :: rest) else none
    else (reattachLoop device rest).map (it :: ·)

/-- The loop of `Detach`, likewise. -/
def detachLoop (device : δ) : List (CsmaDeviceRec δ) → Option (List (CsmaDeviceRec δ))
  | [] => none
  | it :: rest =>
    if it.devicePtr = device ∧ it.active then some (setActive false it :: rest)
    else (detachLoop device rest).map (it :: ·)

def returned : Option (List (CsmaDeviceRec δ)) → Bool × CsmaChannel δ π
  | some deviceList => (true, { channel with deviceList := deviceList })
  | none => (false, channel)

def reattach (device : δ) : Option (Bool × CsmaChannel δ π) :=
  some (channel.returned (reattachLoop device channel.deviceList))

def detach (device : δ) : Option (Bool × CsmaChannel δ π) :=
  some (channel.returned (detachLoop device channel.deviceList))

def reattachId (deviceId : ℕ) : Option (Bool × CsmaChannel δ π) :=
  if deviceId < channel.deviceList.length then some (false, channel)
  else do
    let it ← channel.deviceList[deviceId]?
    if it.active then some (false, channel)
    else some (true, { channel with
      deviceList := channel.deviceList.modify deviceId (setActive true) })

def detachId (deviceId : ℕ) : Option (Bool × CsmaChannel δ π) :=
  if deviceId < channel.deviceList.length then do
    let it ← channel.deviceList[deviceId]?
    if !it.active then some (false, channel)
    else some (true, { channel with
      deviceList := channel.deviceList.modify deviceId (setActive false) })
  else some (false, channel)

def isActive (deviceId : ℕ) : Option Bool := channel.deviceList[deviceId]?.map (·.active)

def transmitStart (p : π) (srcId : ℕ) : Option (Bool × CsmaChannel δ π) :=
  if channel.state ≠ .idle then some (false, channel)
  else do
    let active ← channel.isActive srcId
    if !active then some (false, channel)
    else some (true, { channel with
      currentPkt := some p, currentSrc := srcId, state := .transmitting })

/-- With the receptions that are scheduled. -/
def transmitEnd (now : ℤ) : Option (Bool × CsmaChannel δ π × List (Reception δ π)) :=
  if channel.state = .transmitting then do
    let src ← channel.deviceList[channel.currentSrc]?
    let pkt ← channel.currentPkt
    some (src.active, { channel with state := .propagating },
      (channel.deviceList.filter (·.active)).map fun it =>
        ⟨now + channel.delay, it.devicePtr, pkt, src.devicePtr⟩)
  else none

def propagationCompleteEvent : Option (CsmaChannel δ π) :=
  if channel.state = .propagating then some { channel with state := .idle } else none

end CsmaChannel

/-! ## The devices and the events -/

/-- The channel, the numbers of the devices, and the events of the simulator. A device that transmits
has its packet in `m_currentPkt`. -/
structure CsmaLink (δ π : Type) where
  channel : CsmaChannel δ π
  deviceId : δ → Option ℕ
  now : ℤ
  transmitCompleteEvents : List (δ × π)
  propagationCompleteEvents : List ℤ
  receptions : List (Reception δ π)

inductive Call (δ π : Type) where
  | attach (device : δ)
  | detach (device : δ)
  | detachId (deviceId : ℕ)
  | reattach (device : δ)
  | reattachId (deviceId : ℕ)
  | transmitStart (device : δ) (packet : π)
  | transmitComplete (device : δ) (packet : π)
  | propagationComplete (time : ℤ)
  | advance (time : ℤ)
  deriving DecidableEq, Repr

namespace CsmaLink
variable [DecidableEq δ] [DecidableEq π] (link : CsmaLink δ π)

def start (delay : ℤ) : CsmaLink δ π :=
  ⟨⟨.idle, [], none, 0, delay⟩, fun _ => none, 0, [], [], []⟩

def withChannel (channel : CsmaChannel δ π) : CsmaLink δ π := { link with channel := channel }

/-- `CsmaNetDevice::TransmitStart`, which backs off where the channel is not idle. -/
def transmitStart (device : δ) (packet : π) : Option (CsmaLink δ π) :=
  if link.channel.state ≠ .idle then some link
  else do
    let deviceId ← link.deviceId device
    let (started, channel) ← link.channel.transmitStart packet deviceId
    some { link with
      channel := channel
      transmitCompleteEvents :=
        if started then link.transmitCompleteEvents ++ [(device, packet)]
        else link.transmitCompleteEvents }

/-- `CsmaNetDevice::TransmitCompleteEvent` -/
def transmitComplete (device : δ) (packet : π) : Option (CsmaLink δ π) :=
  if (device, packet) ∈ link.transmitCompleteEvents then do
    let (_, channel, receptions) ← link.channel.transmitEnd link.now
    some { link with
      channel := channel
      transmitCompleteEvents := link.transmitCompleteEvents.erase (device, packet)
      propagationCompleteEvents :=
        link.propagationCompleteEvents ++ [link.now + link.channel.delay]
      receptions := link.receptions ++ receptions }
  else none

def step : Call δ π → Option (CsmaLink δ π)
  | .attach device =>
    let (deviceId, channel) := link.channel.attach device
    some { link with
      channel := channel
      deviceId := Function.update link.deviceId device (some deviceId) }
  | .detach device => (link.channel.detach device).map fun r => link.withChannel r.2
  | .detachId deviceId => (link.channel.detachId deviceId).map fun r => link.withChannel r.2
  | .reattach device => (link.channel.reattach device).map fun r => link.withChannel r.2
  | .reattachId deviceId => (link.channel.reattachId deviceId).map fun r => link.withChannel r.2
  | .transmitStart device packet => link.transmitStart device packet
  | .transmitComplete device packet => link.transmitComplete device packet
  | .propagationComplete time =>
    if time ∈ link.propagationCompleteEvents then
      (link.channel.propagationCompleteEvent).map fun channel =>
        { link with
          channel := channel
          propagationCompleteEvents := link.propagationCompleteEvents.erase time }
    else none
  | .advance time => some { link with now := max link.now time }

end CsmaLink

/-! ## Flags of the list -/

/-- What an operation on the device at an index is to do: it succeeds where the flag is `was`, and
flips the flag. -/
structure Flips (was : Bool) (target : Option ℕ) (channel : CsmaChannel δ π)
    (r : Bool × CsmaChannel δ π) : Prop where
  returns : r.1 = true ↔ ∃ i ∈ target, ∃ it, channel.deviceList[i]? = some it ∧ it.active = was
  flips : ∀ i ∈ target, r.1 = true →
    r.2 = { channel with deviceList := channel.deviceList.modify i (setActive !was) }
  keeps : r.1 = false → r.2 = channel

namespace CsmaChannel

section
variable {channel channel' : CsmaChannel δ π} {list : List (CsmaDeviceRec δ)} {device : δ}
  {target : Option ℕ} {was : Bool}

def devices (channel : CsmaChannel δ π) : List δ := channel.deviceList.map (·.devicePtr)

def indexOf [DecidableEq δ] (channel : CsmaChannel δ π) (device : δ) : Option ℕ :=
  channel.deviceList.findIdx? fun it => it.devicePtr = device

theorem map_modify_setActive (list : List (CsmaDeviceRec δ)) (i : ℕ) (active : Bool) :
    (list.modify i (setActive active)).map (·.devicePtr) = list.map (·.devicePtr) := by
  induction list generalizing i with
  | nil => simp
  | cons it list ih =>
    cases i with
    | zero => rfl
    | succ i => rw [List.modify_succ_cons, List.map_cons, List.map_cons, ih]

/-- The list where the flag at an index of it was as it had to be. -/
def flipped (was : Bool) (list : List (CsmaDeviceRec δ)) (i : ℕ) : Option (List (CsmaDeviceRec δ)) :=
  if list[i]?.any (·.active == was) then some (list.modify i (setActive !was)) else none

theorem flipped_succ (it : CsmaDeviceRec δ) (i : ℕ) :
    flipped was (it :: list) (i + 1) = (flipped was list i).map (it :: ·) := by
  rw [flipped, flipped, List.getElem?_cons_succ, List.modify_succ_cons]
  split <;> rfl

/-- The operations by device do what they are to do. -/
theorem flips_returned (was : Bool) (target : Option ℕ) (channel : CsmaChannel δ π) :
    Flips was target channel
      (channel.returned (target.bind (flipped was channel.deviceList))) := by
  cases target with
  | none => exact ⟨by simp [returned], by simp, fun _ => rfl⟩
  | some i =>
    rw [Option.bind_some, flipped]
    cases hit : channel.deviceList[i]? with
    | none => exact ⟨by simp [returned, hit], by simp [returned], fun _ => rfl⟩
    | some it =>
      by_cases hactive : it.active = was
      · rw [Option.any_some, if_pos (by simpa using hactive)]
        refine ⟨iff_of_true rfl ⟨i, rfl, it, hit, hactive⟩, fun j hj _ => ?_, (fun h => by cases h)⟩
        cases hj
        rfl
      · rw [Option.any_some, if_neg (by simpa using hactive)]
        refine ⟨iff_of_false (by simp [returned]) ?_, (fun j hj h => by cases h), fun _ => rfl⟩
        rintro ⟨j, hj, it', hit', hactive'⟩
        cases hj
        cases hit.symm.trans hit'
        exact hactive hactive'

theorem attach_devices (channel : CsmaChannel δ π) (device : δ) :
    (channel.attach device).2.devices = channel.devices ++ [device] := List.map_append

theorem getElem?_of_devices {i : ℕ} (h : channel.devices[i]? = some device) :
    ∃ it, channel.deviceList[i]? = some it ∧ it.devicePtr = device := by
  rw [devices, List.getElem?_map] at h
  exact Option.map_eq_some_iff.mp h

theorem detachId_flips (channel : CsmaChannel δ π) (deviceId : ℕ) :
    ∃ r, channel.detachId deviceId = some r ∧ Flips true (some deviceId) channel r := by
  have hflips := flips_returned true (some deviceId) channel
  rw [Option.bind_some, flipped] at hflips
  rw [detachId]
  split
  · next hlt =>
    rw [List.getElem?_eq_getElem hlt] at hflips ⊢
    cases hactive : channel.deviceList[deviceId].active
    · refine ⟨(false, channel), by simp [hactive], ?_⟩
      simpa [hactive, returned] using hflips
    · refine ⟨(true, { channel with
        deviceList := channel.deviceList.modify deviceId (setActive false) }), by simp [hactive], ?_⟩
      simpa [hactive, returned] using hflips
  · next hlt =>
    rw [List.getElem?_eq_none (Nat.le_of_not_lt hlt)] at hflips
    exact ⟨_, rfl, by simpa [returned] using hflips⟩

/-- The test of the index in `Reattach` is the wrong way round. -/
theorem reattachId_flips_iff (channel : CsmaChannel δ π) (deviceId : ℕ) :
    (∃ r, channel.reattachId deviceId = some r ∧ Flips false (some deviceId) channel r) ↔
      channel.deviceList[deviceId]?.any (·.active) = true := by
  rw [reattachId]
  split
  · next hlt =>
    rw [List.getElem?_eq_getElem hlt, Option.any_some]
    constructor
    · rintro ⟨r, hr, hflips⟩
      cases hr
      by_contra hactive
      have hreturns := hflips.returns.mpr ⟨deviceId, rfl, _, List.getElem?_eq_getElem hlt,
        by simpa using hactive⟩
      cases hreturns
    · intro hactive
      refine ⟨_, rfl, iff_of_false (by simp) ?_, (fun i _ h => by cases h), fun _ => rfl⟩
      rintro ⟨i, hi, it, hit, hnot⟩
      cases hi
      cases (List.getElem?_eq_getElem hlt).symm.trans hit
      rw [hactive] at hnot
      cases hnot
  · next hlt =>
    rw [List.getElem?_eq_none (Nat.le_of_not_lt hlt)]
    exact iff_of_false (fun ⟨r, hr, _⟩ => by cases hr) (by simp)

/-- The devices, the transmission and the state stay what they are. -/
structure Same (channel channel' : CsmaChannel δ π) : Prop where
  devices : channel'.devices = channel.devices
  state : channel'.state = channel.state
  currentPkt : channel'.currentPkt = channel.currentPkt
  currentSrc : channel'.currentSrc = channel.currentSrc

theorem Same.of_flips {r : Bool × CsmaChannel δ π} (h : Flips was target channel r) :
    Same channel r.2 := by
  cases hr : r.1
  · rw [h.keeps hr]
    exact ⟨rfl, rfl, rfl, rfl⟩
  · obtain ⟨i, hi, -⟩ := h.returns.mp hr
    rw [h.flips i hi hr]
    exact ⟨map_modify_setActive _ _ _, rfl, rfl, rfl⟩

/-- The state of the channel belongs to the event that is scheduled. -/
inductive Phase (channel : CsmaChannel δ π) : List (δ × π) → List ℤ → Prop
  | idle (hstate : channel.state = .idle) : Phase channel [] []
  | transmitting (device : δ) (packet : π) (hstate : channel.state = .transmitting)
    (hpacket : channel.currentPkt = some packet)
    (hsource : channel.devices[channel.currentSrc]? = some device) :
    Phase channel [(device, packet)] []
  | propagating (time : ℤ) (hstate : channel.state = .propagating) : Phase channel [] [time]

theorem Phase.length_le {completes : List (δ × π)} {propagations : List ℤ}
    (h : Phase channel completes propagations) : completes.length + propagations.length ≤ 1 := by
  cases h <;> simp

theorem Phase.same {completes : List (δ × π)}
    {propagations : List ℤ} (h : Phase channel completes propagations)
    (hsame : Same channel channel') : Phase channel' completes propagations := by
  cases h with
  | idle hstate => exact .idle (hsame.state.trans hstate)
  | transmitting device packet hstate hpacket hsource =>
    refine .transmitting device packet (hsame.state.trans hstate) (hsame.currentPkt.trans hpacket) ?_
    rw [hsame.devices, hsame.currentSrc, hsource]
  | propagating time hstate => exact .propagating time (hsame.state.trans hstate)

end

section
variable [DecidableEq δ] {channel : CsmaChannel δ π} {list : List (CsmaDeviceRec δ)}
  {device : δ}

theorem reattachLoop_eq (device : δ) (list : List (CsmaDeviceRec δ)) :
    reattachLoop device list =
      (list.findIdx? fun it => it.devicePtr = device).bind (flipped false list) := by
  induction list with
  | nil => rfl
  | cons it list ih =>
    rw [reattachLoop, List.findIdx?_cons]
    by_cases hptr : it.devicePtr = device
    · simp only [hptr, if_true, decide_true, Option.bind_some]
      cases hactive : it.active <;> simp [flipped, hactive]
    · simp only [hptr, if_false, decide_false, Bool.false_eq_true, Option.bind_map, ih]
      cases list.findIdx? fun it => decide (it.devicePtr = device) with
      | none => rfl
      | some i => exact (flipped_succ it i).symm

theorem detachLoop_of_notMem (h : device ∉ list.map (·.devicePtr)) : detachLoop device list = none := by
  induction list with
  | nil => rfl
  | cons it list ih =>
    rw [List.map_cons, List.mem_cons, not_or] at h
    rw [detachLoop, if_neg fun h' => h.1 h'.1.symm, ih h.2]
    rfl

/-- `Detach` goes on after the device where it is not active, and finds no other. -/
theorem detachLoop_eq (device : δ) (h : (list.map (·.devicePtr)).Nodup) :
    detachLoop device list =
      (list.findIdx? fun it => it.devicePtr = device).bind (flipped true list) := by
  induction list with
  | nil => rfl
  | cons it list ih =>
    rw [List.map_cons, List.nodup_cons] at h
    rw [detachLoop, List.findIdx?_cons]
    by_cases hptr : it.devicePtr = device
    · simp only [hptr, true_and, decide_true, if_true, Option.bind_some]
      cases hactive : it.active
      · rw [detachLoop_of_notMem (hptr ▸ h.1)]
        simp [flipped, hactive]
      · simp [flipped, hactive]
    · simp only [hptr, false_and, if_false, decide_false, Bool.false_eq_true, Option.bind_map, ih h.2]
      cases list.findIdx? fun it => decide (it.devicePtr = device) with
      | none => rfl
      | some i => exact (flipped_succ it i).symm

theorem reattach_flips (channel : CsmaChannel δ π) (device : δ) :
    ∃ r, channel.reattach device = some r ∧ Flips false (channel.indexOf device) channel r := by
  refine ⟨_, rfl, ?_⟩
  rw [reattachLoop_eq]
  exact flips_returned false _ channel

theorem detach_flips (h : channel.devices.Nodup) (device : δ) :
    ∃ r, channel.detach device = some r ∧ Flips true (channel.indexOf device) channel r := by
  refine ⟨_, rfl, ?_⟩
  rw [detachLoop_eq device h]
  exact flips_returned true _ channel

/-- The devices that a packet is sent to. -/
theorem count_active (h : channel.devices.Nodup) (device : δ) :
    ((channel.deviceList.filter (·.active)).map (·.devicePtr)).count device =
      if ⟨device, true⟩ ∈ channel.deviceList then 1 else 0 := by
  have hmem : device ∈ (channel.deviceList.filter (·.active)).map (·.devicePtr) ↔
      ⟨device, true⟩ ∈ channel.deviceList := by
    rw [List.mem_map]
    constructor
    · rintro ⟨⟨d, active⟩, hit, rfl⟩
      obtain ⟨hit, hactive⟩ := List.mem_filter.mp hit
      obtain rfl : active = true := hactive
      exact hit
    · exact fun hit => ⟨⟨device, true⟩, List.mem_filter.mpr ⟨hit, rfl⟩, rfl⟩
  have hnodup : ((channel.deviceList.filter (·.active)).map (·.devicePtr)).Nodup :=
    h.sublist (List.filter_sublist.map _)
  split
  · next hin => exact List.count_eq_one_of_mem hnodup (hmem.mpr hin)
  · next hin => exact List.count_eq_zero_of_not_mem fun h => hin (hmem.mp h)

end

end CsmaChannel

/-! ## Every run -/

namespace CsmaLink
variable {link link' : CsmaLink δ π}

structure Consistent (link : CsmaLink δ π) : Prop where
  distinct : link.channel.devices.Nodup
  numbered : ∀ device i, link.deviceId device = some i → link.channel.devices[i]? = some device
  phase : link.channel.Phase link.transmitCompleteEvents link.propagationCompleteEvents

theorem Consistent.withChannel {channel : CsmaChannel δ π} (h : Consistent link)
    (hsame : CsmaChannel.Same link.channel channel) : Consistent (link.withChannel channel) where
  distinct := hsame.devices.symm ▸ h.distinct
  numbered := fun device i hi =>
    (congrArg (·[i]?) hsame.devices).trans (h.numbered device i hi)
  phase := h.phase.same hsame

theorem consistent_start (delay : ℤ) : Consistent (start delay : CsmaLink δ π) where
  distinct := List.nodup_nil
  numbered := fun device i hi => by cases hi
  phase := .idle rfl

/-- The transmissions on the wire. -/
def inProgress (link : CsmaLink δ π) : ℕ :=
  link.transmitCompleteEvents.length + link.propagationCompleteEvents.length

theorem Consistent.inProgress_le (h : Consistent link) : link.inProgress ≤ 1 := h.phase.length_le

variable [DecidableEq δ] [DecidableEq π]

/-- Calls as the devices and the simulator make them. -/
def Issued (link : CsmaLink δ π) : Call δ π → Prop
  | .attach device => device ∉ link.channel.devices
  | .transmitStart device _ => (link.deviceId device).isSome
  | .transmitComplete device packet => (device, packet) ∈ link.transmitCompleteEvents
  | .propagationComplete time => time ∈ link.propagationCompleteEvents
  | _ => True

instance (call : Call δ π) : Decidable (link.Issued call) :=
  match call with
  | .attach device => inferInstanceAs (Decidable (device ∉ link.channel.devices))
  | .transmitStart device _ => inferInstanceAs (Decidable ((link.deviceId device).isSome = true))
  | .transmitComplete device packet =>
    inferInstanceAs (Decidable ((device, packet) ∈ link.transmitCompleteEvents))
  | .propagationComplete time => inferInstanceAs (Decidable (time ∈ link.propagationCompleteEvents))
  | .detach _ | .detachId _ | .reattach _ | .reattachId _ | .advance _ => .isTrue True.intro

/-- `Reattach` by number is called only for a device on the list that is active. -/
def FindsActive (link : CsmaLink δ π) : Call δ π → Prop
  | .reattachId deviceId => link.channel.deviceList[deviceId]?.any (·.active) = true
  | _ => True

instance (call : Call δ π) : Decidable (link.FindsActive call) :=
  match call with
  | .reattachId deviceId =>
    inferInstanceAs (Decidable (link.channel.deviceList[deviceId]?.any (·.active) = true))
  | .attach _ | .detach _ | .detachId _ | .reattach _ | .transmitStart _ _ | .transmitComplete _ _
  | .propagationComplete _ | .advance _ => .isTrue True.intro

/-- What a call is to do. -/
def Does (link : CsmaLink δ π) (link' : CsmaLink δ π) : Call δ π → Prop
  | .detach device => ∃ r, link.channel.detach device = some r ∧ link' = link.withChannel r.2 ∧
    Flips true (link.channel.indexOf device) link.channel r
  | .detachId deviceId => ∃ r, link.channel.detachId deviceId = some r ∧
    link' = link.withChannel r.2 ∧ Flips true (some deviceId) link.channel r
  | .reattach device => ∃ r, link.channel.reattach device = some r ∧
    link' = link.withChannel r.2 ∧ Flips false (link.channel.indexOf device) link.channel r
  | .reattachId deviceId => ∃ r, link.channel.reattachId deviceId = some r ∧
    link' = link.withChannel r.2 ∧ Flips false (some deviceId) link.channel r
  | .transmitComplete device packet => ∃ receptions,
    link'.receptions = link.receptions ++ receptions ∧
      (∀ r ∈ receptions, r.time = link.now + link.channel.delay ∧ r.packet = packet ∧
        r.sender = device) ∧
      ∀ other, (receptions.map (·.device)).count other =
        if ⟨other, true⟩ ∈ link.channel.deviceList then 1 else 0
  | _ => link'.receptions = link.receptions

/-- The call returns, does what it is to do, and leaves at most one transmission. -/
def Serves (link : CsmaLink δ π) (call : Call δ π) : Prop :=
  ∃ link', link.step call = some link' ∧ link'.inProgress ≤ 1 ∧ link.Does link' call

/-- One call. -/
theorem Consistent.step (h : Consistent link) {call : Call δ π} (hissued : link.Issued call)
    (hfinds : link.FindsActive call) :
    ∃ link', link.step call = some link' ∧ Consistent link' ∧ link.Does link' call := by
  cases call with
  | attach device =>
    have hdevices := CsmaChannel.attach_devices link.channel device
    refine ⟨_, rfl, ⟨?_, fun other i hi => ?_, ?_⟩, rfl⟩
    · change (link.channel.attach device).2.devices.Nodup
      rw [hdevices]
      exact List.Nodup.append h.distinct (List.nodup_singleton device)
        (List.disjoint_singleton.mpr hissued)
    · change (link.channel.attach device).2.devices[i]? = some other
      dsimp only at hi
      rw [hdevices]
      by_cases heq : other = device
      · subst heq
        rw [Function.update_self] at hi
        cases hi
        have hlength : link.channel.devices.length = link.channel.deviceList.length :=
          List.length_map _
        rw [← hlength, List.getElem?_append_right (le_refl _), Nat.sub_self]
        rfl
      · rw [Function.update_of_ne heq] at hi
        have hold := h.numbered other i hi
        rw [List.getElem?_append_left (List.getElem?_eq_some_iff.mp hold).1]
        exact hold
    · have hphase := h.phase
      dsimp only
      generalize link.transmitCompleteEvents = completes at hphase ⊢
      generalize link.propagationCompleteEvents = propagations at hphase ⊢
      cases hphase with
      | idle hstate => exact .idle hstate
      | transmitting source packet hstate hpacket hsource =>
        refine .transmitting source packet hstate hpacket ?_
        change (link.channel.attach device).2.devices[link.channel.currentSrc]? = some source
        rw [hdevices]
        exact (List.getElem?_append_left (List.getElem?_eq_some_iff.mp hsource).1).trans hsource
      | propagating time hstate => exact .propagating time hstate
  | detach device =>
    obtain ⟨r, hr, hflips⟩ := CsmaChannel.detach_flips h.distinct device
    exact ⟨link.withChannel r.2, by rw [CsmaLink.step, hr]; rfl, h.withChannel (.of_flips hflips),
      r, hr, rfl, hflips⟩
  | detachId deviceId =>
    obtain ⟨r, hr, hflips⟩ := CsmaChannel.detachId_flips link.channel deviceId
    exact ⟨link.withChannel r.2, by rw [CsmaLink.step, hr]; rfl, h.withChannel (.of_flips hflips),
      r, hr, rfl, hflips⟩
  | reattach device =>
    obtain ⟨r, hr, hflips⟩ := CsmaChannel.reattach_flips link.channel device
    exact ⟨link.withChannel r.2, by rw [CsmaLink.step, hr]; rfl, h.withChannel (.of_flips hflips),
      r, hr, rfl, hflips⟩
  | reattachId deviceId =>
    obtain ⟨r, hr, hflips⟩ := (CsmaChannel.reattachId_flips_iff link.channel deviceId).mpr hfinds
    exact ⟨link.withChannel r.2, by rw [CsmaLink.step, hr]; rfl, h.withChannel (.of_flips hflips),
      r, hr, rfl, hflips⟩
  | transmitStart device packet =>
    obtain ⟨i, hi⟩ := Option.isSome_iff_exists.mp hissued
    have hdevice := h.numbered device i hi
    obtain ⟨it, hit, -⟩ := CsmaChannel.getElem?_of_devices hdevice
    by_cases hidle : link.channel.state = .idle
    · have hempty : link.transmitCompleteEvents = [] ∧ link.propagationCompleteEvents = [] := by
        have hphase := h.phase
        generalize link.transmitCompleteEvents = completes at hphase ⊢
        generalize link.propagationCompleteEvents = propagations at hphase ⊢
        cases hphase with
        | idle hstate => exact ⟨rfl, rfl⟩
        | transmitting source packet hstate => cases hidle.symm.trans hstate
        | propagating time hstate => cases hidle.symm.trans hstate
      cases hactive : it.active
      · refine ⟨link, ?_, h, rfl⟩
        simp [CsmaLink.step, CsmaLink.transmitStart, CsmaChannel.transmitStart,
          CsmaChannel.isActive, hidle, hi, hit, hactive]
      · refine ⟨{ link with
          channel := { link.channel with
            currentPkt := some packet, currentSrc := i, state := .transmitting }
          transmitCompleteEvents := link.transmitCompleteEvents ++ [(device, packet)] }, ?_,
          ⟨h.distinct, h.numbered, ?_⟩, rfl⟩
        · simp [CsmaLink.step, CsmaLink.transmitStart, CsmaChannel.transmitStart,
            CsmaChannel.isActive, hidle, hi, hit, hactive]
        · rw [hempty.1, hempty.2]
          exact .transmitting device packet rfl rfl hdevice
    · refine ⟨link, ?_, h, rfl⟩
      rw [CsmaLink.step, CsmaLink.transmitStart, if_pos hidle]
  | transmitComplete device packet =>
    have hphase := h.phase
    have hin : (device, packet) ∈ link.transmitCompleteEvents := hissued
    generalize hcompletes : link.transmitCompleteEvents = completes at hphase hin
    generalize hpropagations : link.propagationCompleteEvents = propagations at hphase
    cases hphase with
    | idle hstate => cases hin
    | propagating time hstate => cases hin
    | transmitting source packet' hstate hpacket hsource =>
      cases List.mem_singleton.mp hin
      obtain ⟨it, hit, hptr⟩ := CsmaChannel.getElem?_of_devices hsource
      refine ⟨{ link with
        channel := { link.channel with state := .propagating }
        transmitCompleteEvents := []
        propagationCompleteEvents := [link.now + link.channel.delay]
        receptions := link.receptions ++ (link.channel.deviceList.filter (·.active)).map fun it =>
          ⟨link.now + link.channel.delay, it.devicePtr, packet, device⟩ }, ?_,
        ⟨h.distinct, h.numbered, .propagating _ rfl⟩, _, rfl, ?_, fun other => ?_⟩
      · simp [CsmaLink.step, CsmaLink.transmitComplete, CsmaChannel.transmitEnd, hcompletes,
          hpropagations, hstate, hpacket, hit, hptr]
      · intro r hr
        obtain ⟨it', -, rfl⟩ := List.mem_map.mp hr
        exact ⟨rfl, rfl, rfl⟩
      · rw [List.map_map]
        exact CsmaChannel.count_active h.distinct other
  | propagationComplete time =>
    have hphase := h.phase
    have hin : time ∈ link.propagationCompleteEvents := hissued
    generalize hcompletes : link.transmitCompleteEvents = completes at hphase
    generalize hpropagations : link.propagationCompleteEvents = propagations at hphase hin
    cases hphase with
    | idle hstate => cases hin
    | transmitting source packet hstate => cases hin
    | propagating time' hstate =>
      cases List.mem_singleton.mp hin
      refine ⟨{ link with
        channel := { link.channel with state := .idle }
        propagationCompleteEvents := [] }, ?_, ⟨h.distinct, h.numbered, ?_⟩, rfl⟩
      · simp [CsmaLink.step, CsmaChannel.propagationCompleteEvent, hpropagations, hstate]
      · dsimp only
        rw [hcompletes]
        exact .idle rfl
  | advance time => exact ⟨_, rfl, ⟨h.distinct, h.numbered, h.phase⟩, rfl⟩

/-- In a consistent state a call does what it is to do unless it asks for a device by its number
that is not active. -/
theorem Consistent.serves_iff (h : Consistent link) {call : Call δ π}
    (hissued : link.Issued call) : link.Serves call ↔ link.FindsActive call := by
  constructor
  · rintro ⟨link', -, -, hdoes⟩
    cases call with
    | reattachId deviceId =>
      obtain ⟨r, hr, -, hflips⟩ := hdoes
      exact (CsmaChannel.reattachId_flips_iff link.channel deviceId).mp ⟨r, hr, hflips⟩
    | _ => exact True.intro
  · intro hfinds
    obtain ⟨link', hstep, h', hdoes⟩ := h.step hissued hfinds
    exact ⟨link', hstep, h'.inProgress_le, hdoes⟩

/-- Every call of the run returns and does what it is to do. -/
def ServesAll (link : CsmaLink δ π) (calls : List (Call δ π)) : Prop :=
  ∀ before call after, calls = before ++ call :: after →
    ∃ link', run step link before = some link' ∧ link'.Serves call

theorem Consistent.servesAll_iff (h : Consistent link) {calls : List (Call δ π)}
    (hissued : Allowed CsmaLink.step Issued link calls) :
    link.ServesAll calls ↔ Allowed CsmaLink.step FindsActive link calls := by
  induction calls generalizing link with
  | nil =>
    refine iff_of_true (fun before call after hsplit => ?_) True.intro
    exact absurd hsplit.symm (by simp)
  | cons call calls ih =>
    have hserves := h.serves_iff hissued.1
    have hstep (hfinds : link.FindsActive call) :
        ∃ link', link.step call = some link' ∧ Consistent link' := by
      obtain ⟨link', hstep, h', -⟩ := h.step hissued.1 hfinds
      exact ⟨link', hstep, h'⟩
    constructor
    · intro hall
      obtain ⟨link₀, hrun, hcall⟩ := hall [] call calls rfl
      cases hrun
      have hfinds := hserves.mp hcall
      refine ⟨hfinds, fun link' hlink' => ?_⟩
      obtain ⟨link₁, hlink₁, h₁⟩ := hstep hfinds
      cases hlink₁.symm.trans hlink'
      refine (ih h₁ (hissued.2 _ hlink')).mp fun before call' after hsplit => ?_
      obtain ⟨link₂, hrun, hcall'⟩ := hall (call :: before) call' after (by rw [hsplit]; rfl)
      rw [run_cons, hlink'] at hrun
      exact ⟨link₂, hrun, hcall'⟩
    · rintro ⟨hfinds, hrest⟩ before call' after hsplit
      cases before with
      | nil =>
        cases hsplit
        exact ⟨link, rfl, hserves.mpr hfinds⟩
      | cons first before =>
        cases hsplit
        obtain ⟨link₁, hlink₁, h₁⟩ := hstep hfinds
        obtain ⟨link₂, hrun, hcall'⟩ :=
          (ih h₁ (hissued.2 _ hlink₁)).mpr (hrest _ hlink₁) before call' after rfl
        refine ⟨link₂, ?_, hcall'⟩
        rw [run_cons, hlink₁]
        exact hrun

/-- A run of calls as they are issued does what it is to do exactly if every `Reattach` by number
is for a device that is active. -/
theorem servesAll_start_iff (delay : ℤ) {calls : List (Call δ π)}
    (hissued : Allowed step Issued (start delay) calls) :
    (start delay).ServesAll calls ↔ Allowed step FindsActive (start delay) calls :=
  (consistent_start delay).servesAll_iff hissued

/-- A device is detached and attached again while it transmits. -/
theorem servesAll_reattachedSender :
    (start 5 : CsmaLink ℕ ℕ).ServesAll [.attach 10, .attach 11, .transmitStart 10 99, .detachId 0,
      .reattach 10, .reattachId 1, .transmitComplete 10 99, .propagationComplete 5] :=
  (servesAll_start_iff 5 (by decide)).mpr (by decide)

/-- A detached device is not attached again by its number. -/
theorem not_servesAll_reattachId : ¬∀ (delay : ℤ) (calls : List (Call ℕ ℕ)),
    Allowed step Issued (start delay) calls → (start delay : CsmaLink ℕ ℕ).ServesAll calls := by
  intro h
  obtain ⟨link, hrun, link', hstep, -, r, hr, -, hflips⟩ :=
    h 0 [.attach 10, .detachId 0, .reattachId 0] (by decide) [.attach 10, .detachId 0]
      (.reattachId 0) [] rfl
  cases hrun
  cases hr
  have hreturns := hflips.returns.mpr ⟨0, rfl, ⟨10, false⟩, rfl, rfl⟩
  cases hreturns

end CsmaLink

end Ns3Noc.CsmaMembership
