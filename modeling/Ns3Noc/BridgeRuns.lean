import Ns3Noc.BridgeNetDevice
import Ns3Noc.PartialRuns

/-!
# Runs of a learning bridge

The frames that a bridge receives and is given to send, and where it hands them.
-/
namespace Ns3Noc.Bridge

open PartialRuns
open Wifi (Mac48Address Packet)

variable {P : Type*} [DecidableEq P]

inductive Call (P : Type*) where
  | receiveFromDevice (incomingPort : P) (frame : Frame) (packetType : PacketType)
  | sendFrom (frame : Frame)
  deriving DecidableEq, Repr

/-- The source of a frame that the bridge forwarded, with the port that it came in on. -/
structure Sighting (P : Type*) where
  source : Mac48Address
  port : P
  time : ℤ

/-- What was handed depends on what the ports do to the packets that they are given. -/
structure BridgeRun (P : Type*) where
  now : ℤ
  bridge : BridgeNetDevice P
  seen : List (Sighting P)
  last : Option (Call P)
  handed : (P → Packet → Packet) → List (P × Frame)

namespace Call

def frame : Call P → Frame
  | receiveFromDevice _ frame _ => frame
  | sendFrom frame => frame

/-- A received frame that is to be forwarded -/
def forwards (bridge : BridgeNetDevice P) : Call P → Option (P × Frame)
  | receiveFromDevice port frame packetType =>
    match packetType with
    | .host => none
    | .broadcast | .multicast => some (port, frame)
    | .otherHost => if frame.dst = bridge.address then none else some (port, frame)
  | sendFrom _ => none

def exec (bridge : BridgeNetDevice P) (now : ℤ) (sendsFrom : P → Packet → Packet) :
    Call P → Outcome P
  | receiveFromDevice port frame packetType => bridge.receiveFromDevice now port frame packetType
  | sendFrom frame => bridge.sendFrom sendsFrom now frame

variable (bridge : BridgeNetDevice P) (now : ℤ) (sendsFrom : P → Packet → Packet) (call : Call P)

theorem setting_exec : (call.exec bridge now sendsFrom).bridge.setting = bridge.setting := by
  cases call with
  | receiveFromDevice port frame packetType =>
    cases packetType with
    | host => rfl
    | broadcast => exact bridge.setting_learn now frame.src port
    | multicast => exact bridge.setting_learn now frame.src port
    | otherHost =>
      simp only [exec, BridgeNetDevice.receiveFromDevice]
      split
      · rfl
      · rw [BridgeNetDevice.forwardUnicast_eq]
        exact (BridgeNetDevice.setting_getLearnedState _ now frame.dst).trans
          (bridge.setting_learn now frame.src port)
  | sendFrom frame =>
    rw [exec, BridgeNetDevice.sendFrom_eq]
    cases frame.dst.isGroup with
    | false => exact bridge.setting_getLearnedState now frame.dst
    | true => rfl

/-- A call learns the source of the frame that it forwards. -/
theorem learned_exec (h : bridge.enableLearning = true) {t : ℤ} (ht : now ≤ t)
    (address : Mac48Address) :
    ((call.exec bridge now sendsFrom).bridge.getLearnedState t address).2 =
      match call.forwards bridge with
      | some (port, frame) => ((bridge.learn now frame.src port).getLearnedState t address).2
      | none => (bridge.getLearnedState t address).2 := by
  cases call with
  | receiveFromDevice port frame packetType =>
    cases packetType with
    | host => rfl
    | broadcast => rfl
    | multicast => rfl
    | otherHost =>
      simp only [exec, BridgeNetDevice.receiveFromDevice, forwards]
      split
      · rfl
      · rw [BridgeNetDevice.forwardUnicast_eq]
        have hen : (bridge.learn now frame.src port).enableLearning = true :=
          (congrArg (fun s => s.2.2.1) (bridge.setting_learn now frame.src port)).trans h
        exact BridgeNetDevice.learned_getLearnedState _ hen ht frame.dst address
  | sendFrom frame =>
    rw [exec, BridgeNetDevice.sendFrom_eq]
    cases frame.dst.isGroup with
    | false => exact bridge.learned_getLearnedState h ht frame.dst address
    | true => rfl

end Call

namespace BridgeRun

variable (run : BridgeRun P)

def start (address : Mac48Address) (ports : List P) (expirationTime : ℤ) : BridgeRun P :=
  ⟨0, ⟨address, ports, true, expirationTime, fun _ => none⟩, [], none, fun _ => []⟩

/-- A call some time after the last one. -/
def step (run : BridgeRun P) (call : ℕ × Call P) : Option (BridgeRun P) :=
  let now := run.now + call.1
  some
    { now
      bridge := (call.2.exec run.bridge now fun _ packet => packet).bridge
      seen := ((call.2.forwards run.bridge).map fun p => ⟨p.2.src, p.1, now⟩).toList ++ run.seen
      last := some call.2
      handed := fun sendsFrom => (call.2.exec run.bridge now sendsFrom).handed }

/-- The port on which the address was last seen, if that is less than the expiration time ago. -/
def lastSeen (now : ℤ) (address : Mac48Address) : Option P :=
  (run.seen.find? (·.source = address)).bind fun sighting =>
    if now < sighting.time + run.bridge.expirationTime then some sighting.port else none

/-- Where a frame is to be handed -/
def expected : Call P → List P
  | .receiveFromDevice incomingPort frame packetType =>
    let others := run.bridge.ports.filter (· ≠ incomingPort)
    match packetType with
    | .host => []
    | .broadcast | .multicast => others
    | .otherHost =>
      if frame.dst = run.bridge.address then []
      else
        match run.lastSeen run.now frame.dst with
        | some port => if port = incomingPort then [] else [port]
        | none => others
  | .sendFrom frame =>
    if frame.dst.isGroup ∨ frame.dst = run.bridge.address then run.bridge.ports
    else (run.lastSeen run.now frame.dst).elim run.bridge.ports fun port => [port]

/-- The last call's frame is handed to the expected ports, as it was given to the bridge, whatever
the ports do. -/
def Forwards (run : BridgeRun P) : Prop :=
  ∀ call ∈ run.last, ∀ sendsFrom, (run.handed sendsFrom).Perm
    ((run.expected call).map (·, call.frame))

/-- A received unicast frame is not for a station behind the port that it comes in on, unless the
bridge has no other port. A frame that the bridge sends is for a learned station other than the
bridge, or there are not two ports. -/
def Allows (run : BridgeRun P) (call : ℕ × Call P) : Prop :=
  let now := run.now + call.1
  match call.2 with
  | .receiveFromDevice incomingPort frame packetType =>
    packetType = .otherHost → frame.dst ≠ run.bridge.address →
      (((run.bridge.learn now frame.src incomingPort).getLearnedState now frame.dst).2 =
        some incomingPort) → ∀ port ∈ run.bridge.ports, port = incomingPort
  | .sendFrom frame =>
    match if frame.dst.isGroup then none else (run.bridge.getLearnedState now frame.dst).2 with
    | some port => frame.dst = run.bridge.address → run.bridge.ports = [port]
    | none => run.bridge.ports.length ≤ 1

/-- The learned state is what was seen, now and later. -/
structure Learned (run : BridgeRun P) : Prop where
  enabled : run.bridge.enableLearning = true
  agrees : ∀ t, run.now ≤ t → ∀ address,
    (run.bridge.getLearnedState t address).2 = run.lastSeen t address

variable {run : BridgeRun P}

omit [DecidableEq P] in
theorem learned_start (address : Mac48Address) (ports : List P) (expirationTime : ℤ) :
    Learned (start address ports expirationTime) where
  enabled := rfl
  agrees := fun _ _ _ => rfl

theorem learned_step (h : Learned run) {call : ℕ × Call P} {run' : BridgeRun P}
    (hstep : run.step call = some run') : Learned run' := by
  obtain rfl := Option.some.inj hstep
  obtain ⟨delay, call⟩ := call
  have hsetting := call.setting_exec run.bridge (run.now + delay) fun _ packet => packet
  have hexp : (call.exec run.bridge (run.now + delay) fun _ packet => packet).bridge.expirationTime =
      run.bridge.expirationTime := congrArg (fun s => s.2.2.2) hsetting
  refine ⟨(congrArg (fun s => s.2.2.1) hsetting).trans h.enabled, fun t ht address => ?_⟩
  have hold := h.agrees t (by simp only at ht; omega) address
  rw [call.learned_exec run.bridge (run.now + delay) _ h.enabled ht address]
  simp only [lastSeen, hexp] at hold ⊢
  cases hforwards : call.forwards run.bridge with
  | none => simpa using hold
  | some p =>
    simp only [run.bridge.learned_learn h.enabled, hold]
    by_cases haddress : address = p.2.src
    · simp [haddress]
    · simp [haddress, Ne.symm haddress]

/-- What a step leaves to be compared -/
theorem forwards_step_iff (h : Learned run) {delay : ℕ} {call : Call P} {run' : BridgeRun P}
    (hstep : run.step (delay, call) = some run') :
    run'.bridge.ports = run.bridge.ports ∧ run'.bridge.address = run.bridge.address ∧
      (∀ address, run'.lastSeen run'.now address =
        match call.forwards run.bridge with
        | some (port, frame) => ((run.bridge.learn (run.now + delay) frame.src port).getLearnedState
            (run.now + delay) address).2
        | none => (run.bridge.getLearnedState (run.now + delay) address).2) ∧
      (Forwards run' ↔ ∀ sendsFrom,
        (call.exec run.bridge (run.now + delay) sendsFrom).handed.Perm
          ((run'.expected call).map (·, call.frame))) := by
  have hlearned := learned_step h hstep
  obtain rfl := Option.some.inj hstep
  have hsetting := call.setting_exec run.bridge (run.now + delay) fun _ packet => packet
  refine ⟨congrArg (fun s => s.2.1) hsetting, congrArg Prod.fst hsetting, fun address => ?_, ?_⟩
  · rw [← hlearned.agrees _ le_rfl address]
    exact call.learned_exec run.bridge (run.now + delay) _ h.enabled le_rfl address
  · exact ⟨fun hall => hall call rfl, fun hall c hc => Option.some.inj hc ▸ hall⟩

theorem forwards_sendFrom_iff (h : Learned run) {delay : ℕ} {frame : Frame} {run' : BridgeRun P}
    (hstep : run.step (delay, .sendFrom frame) = some run') :
    Forwards run' ↔ run.Allows (delay, .sendFrom frame) := by
  obtain ⟨hports, haddress, hseen, hiff⟩ := forwards_step_iff h hstep
  rw [hiff]
  simp only [Call.exec, BridgeNetDevice.sendFrom_eq, expected, hports, haddress, hseen,
    Call.forwards, Call.frame, Allows]
  cases hgroup : frame.dst.isGroup with
  | true => simpa using handEach_perm_iff run.bridge.ports frame
  | false =>
    have hkept := congrArg (fun s => s.2.1)
      (run.bridge.setting_getLearnedState (run.now + delay) frame.dst)
    simp only [BridgeNetDevice.setting] at hkept
    simp only [Bool.not_false, if_true, hkept, Bool.false_eq_true, false_or, if_false]
    cases (run.bridge.getLearnedState (run.now + delay) frame.dst).2 with
    | none => simpa using handEach_perm_iff run.bridge.ports frame
    | some port =>
      simp only [Option.elim_some, handEach_singleton]
      by_cases hdst : frame.dst = run.bridge.address
      · simp only [hdst, if_true, true_imp_iff]
        constructor
        · intro hall
          have hmap := List.singleton_perm.mp (hall fun _ packet => packet)
          obtain ⟨port', hone, hport⟩ := List.map_eq_singleton_iff.mp hmap.symm
          obtain rfl : port' = port := congrArg Prod.fst hport
          exact hone
        · intro hone _
          rw [hone]
          exact .refl _
      · simp [hdst]

theorem forwards_receive_iff (h : Learned run) {delay : ℕ} {port : P} {frame : Frame}
    {packetType : PacketType} {run' : BridgeRun P}
    (hstep : run.step (delay, .receiveFromDevice port frame packetType) = some run') :
    Forwards run' ↔ run.Allows (delay, .receiveFromDevice port frame packetType) := by
  obtain ⟨hports, haddress, hseen, hiff⟩ := forwards_step_iff h hstep
  rw [hiff]
  have hlearn := congrArg (fun s => s.2.1)
    (run.bridge.setting_learn (run.now + delay) frame.src port)
  simp only [BridgeNetDevice.setting] at hlearn
  simp only [Call.exec, expected, hports, haddress, hseen, Call.forwards, Call.frame, Allows]
  cases packetType with
  | host => simp [BridgeNetDevice.receiveFromDevice]
  | broadcast =>
    simp [BridgeNetDevice.receiveFromDevice, BridgeNetDevice.forwardBroadcast, handCopies, hlearn]
  | multicast =>
    simp [BridgeNetDevice.receiveFromDevice, BridgeNetDevice.forwardBroadcast, handCopies, hlearn]
  | otherHost =>
    by_cases hdst : frame.dst = run.bridge.address
    · simp [BridgeNetDevice.receiveFromDevice, hdst]
    · simp only [BridgeNetDevice.receiveFromDevice, hdst, if_false,
        BridgeNetDevice.forwardUnicast_eq]
      have hkept := congrArg (fun s => s.2.1) (BridgeNetDevice.setting_getLearnedState
        (run.bridge.learn (run.now + delay) frame.src port) (run.now + delay) frame.dst)
      simp only [BridgeNetDevice.setting, hlearn] at hkept
      simp only [hkept]
      cases ((run.bridge.learn (run.now + delay) frame.src port).getLearnedState (run.now + delay)
          frame.dst).2 with
      | none => simp [handCopies]
      | some outPort =>
        by_cases hout : outPort = port
        · simp [hout, hdst, handCopies, List.filter_eq_nil_iff]
        · simp [hout, handCopies]

/-- The bridge forwards as expected in exactly the runs that are allowed. -/
theorem forwards_iff (address : Mac48Address) (ports : List P) (expirationTime : ℤ)
    (calls : List (ℕ × Call P)) :
    Always step Forwards (start address ports expirationTime) calls ↔
      Allowed step Allows (start address ports expirationTime) calls := by
  have hforwards : ∀ (run : BridgeRun P) (call : ℕ × Call P) (run' : BridgeRun P), Learned run →
      run.step call = some run' → (Forwards run' ↔ run.Allows call) := by
    intro run call run' h hstep
    obtain ⟨delay, call⟩ := call
    cases call with
    | receiveFromDevice port frame packetType => exact forwards_receive_iff h hstep
    | sendFrom frame => exact forwards_sendFrom_iff h hstep
  have hkeep : ∀ (run : BridgeRun P) (call : ℕ × Call P) (run' : BridgeRun P),
      Learned run ∧ Forwards run → run.Allows call → run.step call = some run' →
      Learned run' ∧ Forwards run' :=
    fun run call run' h hok hstep =>
      ⟨learned_step h.1 hstep, (hforwards run call run' h.1 hstep).mpr hok⟩
  refine always_iff_allowed (fun run h => h.2) hkeep (fun run call h hno => ?_)
    ⟨learned_start address ports expirationTime, nofun⟩ calls
  exact ⟨_, rfl, fun hall => hno ((hforwards run call _ h.1 rfl).mp hall)⟩

end BridgeRun

/-- A frame for a station behind the port that it comes in on goes out of the other port, and a
broadcast frame that the bridge sends reaches the second port with what the first has added. -/
theorem floods_learned_and_shares_packet :
    ¬Always BridgeRun.step BridgeRun.Forwards (BridgeRun.start 1 [0, 1] 300)
      [(0, .receiveFromDevice 0 ⟨[], 0, 2, 3⟩ .otherHost),
        (1, .receiveFromDevice 0 ⟨[], 0, 3, 2⟩ .otherHost)] ∧
    ¬Always BridgeRun.step BridgeRun.Forwards (BridgeRun.start 1 [0, 1] 300)
      [(0, .sendFrom ⟨[], 0, 1, 0xffffffffffff⟩)] := by
  constructor
  · intro h
    have hperm := (h.last rfl) _ rfl fun _ packet => packet
    exact absurd hperm.length_eq (by decide)
  · intro h
    have hperm := (h.last rfl) _ rfl fun _ packet => 14 :: packet
    exact absurd (hperm.subset (List.mem_cons_of_mem _ List.mem_cons_self)) (by decide)

end Ns3Noc.Bridge
