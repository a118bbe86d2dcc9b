import Ns3Noc.MacRxMiddle

/-!
# The learning bridge

`BridgeNetDevice` over ports of any type. A port is handed a packet by its `SendFrom`, which may
change the packet that it is given.
-/
namespace Ns3Noc.Bridge

open Wifi (Mac48Address Packet)

variable {P : Type*}

inductive PacketType where
  | host
  | broadcast
  | multicast
  | otherHost
  deriving DecidableEq, Repr

structure Frame where
  packet : Packet
  protocol : ℕ
  src : Mac48Address
  dst : Mac48Address
  deriving DecidableEq, Repr

structure LearnedState (P : Type*) where
  associatedPort : P
  expirationTime : ℤ

structure BridgeNetDevice (P : Type*) where
  address : Mac48Address
  ports : List P
  enableLearning : Bool
  expirationTime : ℤ
  learnState : Mac48Address → Option (LearnedState P)

/-- What a call hands to the upper layer and to the ports. -/
structure Outcome (P : Type*) where
  bridge : BridgeNetDevice P
  received : Option Frame
  handed : List (P × Frame)

/-- One packet is handed to one port after the other. -/
def handEach (sendFrom : P → Packet → Packet) : List P → Frame → List (P × Frame)
  | [], _ => []
  | port :: ports, frame =>
    (port, frame) :: handEach sendFrom ports { frame with packet := sendFrom port frame.packet }

@[simp] theorem handEach_singleton (sendFrom : P → Packet → Packet) (port : P) (frame : Frame) :
    handEach sendFrom [port] frame = [(port, frame)] := rfl

/-- Whatever the ports do, the frame stays as it was only where no port comes after another. -/
theorem handEach_perm_iff (ports : List P) (frame : Frame) :
    (∀ sendFrom, (handEach sendFrom ports frame).Perm (ports.map (·, frame))) ↔
      ports.length ≤ 1 := by
  constructor
  · intro h
    match ports with
    | [] => exact Nat.zero_le _
    | [port] => exact le_rfl
    | port :: port' :: ports =>
      have hmem := (h fun _ packet => 0 :: packet).subset
        (List.mem_cons_of_mem _ List.mem_cons_self)
      obtain ⟨p, -, hp⟩ := List.mem_map.mp hmem
      have hpacket : frame.packet = 0 :: frame.packet := congrArg (fun p => p.2.packet) hp
      exact absurd (congrArg List.length hpacket) (Nat.succ_ne_self _).symm
  · intro h sendFrom
    match ports with
    | [] => exact .nil
    | [port] => exact .refl _
    | port :: port' :: ports => exact absurd h (by simp)

/-- A copy of the packet is handed to each port. -/
def handCopies (ports : List P) (frame : Frame) : List (P × Frame) := ports.map (·, frame)

namespace BridgeNetDevice

variable (bridge : BridgeNetDevice P)

def learn (now : ℤ) (source : Mac48Address) (port : P) : BridgeNetDevice P :=
  if bridge.enableLearning then
    { bridge with
      learnState := Function.update bridge.learnState source
        (some ⟨port, now + bridge.expirationTime⟩) }
  else bridge

def getLearnedState (now : ℤ) (source : Mac48Address) : BridgeNetDevice P × Option P :=
  if bridge.enableLearning then
    match bridge.learnState source with
    | some state =>
      if state.expirationTime > now then (bridge, some state.associatedPort)
      else ({ bridge with learnState := Function.update bridge.learnState source none }, none)
    | none => (bridge, none)
  else (bridge, none)

/-- Everything but the learned state -/
def setting : Mac48Address × List P × Bool × ℤ :=
  (bridge.address, bridge.ports, bridge.enableLearning, bridge.expirationTime)

@[simp] theorem setting_learn (now : ℤ) (source : Mac48Address) (port : P) :
    (bridge.learn now source port).setting = bridge.setting := by
  simp only [learn]
  split <;> rfl

@[simp] theorem setting_getLearnedState (now : ℤ) (source : Mac48Address) :
    (bridge.getLearnedState now source).1.setting = bridge.setting := by
  simp only [getLearnedState]
  split
  · split
    · split <;> rfl
    · rfl
  · rfl

/-- The port that is learned for an address -/
theorem learned_eq (h : bridge.enableLearning = true) (now : ℤ) (source : Mac48Address) :
    (bridge.getLearnedState now source).2 = (bridge.learnState source).bind fun state =>
      if now < state.expirationTime then some state.associatedPort else none := by
  simp only [getLearnedState, h, if_true]
  cases bridge.learnState source with
  | none => rfl
  | some state =>
    by_cases hlive : now < state.expirationTime
    · simp [hlive]
    · simp [hlive]

/-- A lookup only forgets what is out of date. -/
theorem learned_getLearnedState (h : bridge.enableLearning = true) {now t : ℤ} (ht : now ≤ t)
    (source source' : Mac48Address) :
    ((bridge.getLearnedState now source).1.getLearnedState t source').2 =
      (bridge.getLearnedState t source').2 := by
  have hsame := bridge.setting_getLearnedState now source
  have hen : (bridge.getLearnedState now source).1.enableLearning = true :=
    (congrArg (fun s => s.2.2.1) hsame).trans h
  rw [learned_eq _ hen, learned_eq _ h]
  simp only [getLearnedState, h, if_true]
  cases hstate : bridge.learnState source with
  | none => rfl
  | some state =>
    by_cases hlive : state.expirationTime > now
    · simp [hlive]
    · by_cases hsource : source' = source
      · subst hsource
        have : ¬t < state.expirationTime := by omega
        simp [hlive, hstate, this]
      · simp [hlive, hsource]

theorem learned_learn (h : bridge.enableLearning = true) (now t : ℤ)
    (source source' : Mac48Address) (port : P) :
    ((bridge.learn now source port).getLearnedState t source').2 =
      if source' = source then if t < now + bridge.expirationTime then some port else none
      else (bridge.getLearnedState t source').2 := by
  have hen : (bridge.learn now source port).enableLearning = true :=
    (congrArg (fun s => s.2.2.1) (bridge.setting_learn now source port)).trans h
  rw [learned_eq _ hen, learned_eq _ h]
  simp only [learn, h, if_true]
  by_cases hsource : source' = source
  · simp [hsource]
  · simp [hsource]

variable [DecidableEq P]

def forwardUnicast (now : ℤ) (incomingPort : P) (frame : Frame) :
    BridgeNetDevice P × List (P × Frame) :=
  let bridge := bridge.learn now frame.src incomingPort
  let (bridge, outPort) := bridge.getLearnedState now frame.dst
  let flood := handCopies (bridge.ports.filter (· ≠ incomingPort)) frame
  match outPort with
  | some outPort =>
    if outPort ≠ incomingPort then (bridge, handCopies [outPort] frame) else (bridge, flood)
  | none => (bridge, flood)

def forwardBroadcast (now : ℤ) (incomingPort : P) (frame : Frame) :
    BridgeNetDevice P × List (P × Frame) :=
  let bridge := bridge.learn now frame.src incomingPort
  (bridge, handCopies (bridge.ports.filter (· ≠ incomingPort)) frame)

def receiveFromDevice (now : ℤ) (incomingPort : P) (frame : Frame) (packetType : PacketType) :
    Outcome P :=
  match packetType with
  | .host => ⟨bridge, if frame.dst = bridge.address then some frame else none, []⟩
  | .broadcast | .multicast =>
    let (bridge, handed) := bridge.forwardBroadcast now incomingPort frame
    ⟨bridge, some frame, handed⟩
  | .otherHost =>
    if frame.dst = bridge.address then ⟨bridge, some frame, []⟩
    else
      let (bridge, handed) := bridge.forwardUnicast now incomingPort frame
      ⟨bridge, none, handed⟩

omit [DecidableEq P] in
/-- `SendFrom`, where each port does `sendFrom` to the packet that it is given -/
def sendFrom (sendFrom : P → Packet → Packet) (now : ℤ) (frame : Frame) : Outcome P :=
  let (bridge, outPort) :=
    if !frame.dst.isGroup then bridge.getLearnedState now frame.dst else (bridge, none)
  match outPort with
  | some outPort => ⟨bridge, none, handEach sendFrom [outPort] frame⟩
  | none => ⟨bridge, none, handEach sendFrom bridge.ports frame⟩

theorem forwardUnicast_eq (now : ℤ) (incomingPort : P) (frame : Frame) :
    let found := (bridge.learn now frame.src incomingPort).getLearnedState now frame.dst
    bridge.forwardUnicast now incomingPort frame =
      (found.1, match found.2 with
        | some outPort => if outPort ≠ incomingPort then handCopies [outPort] frame
          else handCopies (found.1.ports.filter (· ≠ incomingPort)) frame
        | none => handCopies (found.1.ports.filter (· ≠ incomingPort)) frame) := by
  simp only [forwardUnicast]
  split
  · split <;> rfl
  · rfl

omit [DecidableEq P] in
theorem sendFrom_eq (f : P → Packet → Packet) (now : ℤ) (frame : Frame) :
    let found := if !frame.dst.isGroup then bridge.getLearnedState now frame.dst else (bridge, none)
    bridge.sendFrom f now frame =
      ⟨found.1, none, handEach f (found.2.elim found.1.ports fun port => [port]) frame⟩ := by
  simp only [sendFrom]
  split
  · simp_all
  · simp_all

end BridgeNetDevice

end Ns3Noc.Bridge
