import Ns3Noc.NocHeader

/-!
# Flow control by counting flits

Store-and-forward and virtual cut-through switching count the data flits of a packet. The count comes
from the tag of the head flit, where no constructor puts it, so a single data flit lets the packet go.
-/
namespace Ns3Noc

/-- The header that flow control looks at: a flit that is not a head has an empty one. -/
def NocPacket.peekedHeader (packet : NocPacket) : NocHeader :=
  if packet.packetType = .head then packet.header else ⟨[], []⟩

/-- `m_flitCount` -/
abbrev FlitCount : Type := ℕ → Option ℕ

namespace SafSwitching

def applyFlowControl (flitCount : FlitCount) (packet : NocPacket) : Bool × FlitCount :=
  if ¬packet.peekedHeader.isEmpty then
    (false, Function.update flitCount packet.uid (some packet.dataFlitCount))
  else
    let v := packet.packetHeadUid
    let dataFlitCount := (flitCount v).getD 0
    if (dataFlitCount : ℤ) - 1 > 0 then
      (false, Function.update flitCount v (some (dataFlitCount - 1)))
    else (true, Function.update flitCount v none)

end SafSwitching

namespace VctSwitching

structure State where
  blockedHeadFlits : ℕ → Bool
  flitCount : FlitCount

def State.init : State := ⟨fun _ => false, fun _ => none⟩

/-- A data flit of a blocked packet is counted, any other one passes. -/
def applyToData (s : State) (packet : NocPacket) : Bool × State :=
  let headPacketUid := packet.packetHeadUid
  if s.blockedHeadFlits headPacketUid then
    let dataFlitCount := (s.flitCount headPacketUid).getD 0
    if (dataFlitCount : ℤ) - 1 > 0 then
      (false, { s with
        flitCount := Function.update s.flitCount headPacketUid (some (dataFlitCount - 1)) })
    else
      (true, ⟨Function.update s.blockedHeadFlits headPacketUid false,
        Function.update s.flitCount headPacketUid none⟩)
  else (true, s)

def applyFlowControl (s : State) (packet : NocPacket) : Bool × State :=
  if ¬packet.peekedHeader.isEmpty then
    if packet.packetBlocked then
      (false, ⟨Function.update s.blockedHeadFlits packet.uid true,
        Function.update s.flitCount packet.uid (some packet.dataFlitCount)⟩)
    else (true, s)
  else applyToData s packet

end VctSwitching

/-- The answers to a sequence of flits -/
def answers {σ : Type} (applyFlowControl : σ → NocPacket → Bool × σ) : σ → List NocPacket → List Bool
  | _, [] => []
  | s, packet :: packets =>
    let r := applyFlowControl s packet
    r.1 :: answers applyFlowControl r.2 packets

/-! ## Packets of several flits -/

/-- What a sender builds a packet from, and the tag that it gets on its way -/
structure Message where
  uid : ℕ
  header : NocHeader
  dataFlitCount : ℕ
  uninitialised : ℕ
  packetBlocked : Bool
  deriving DecidableEq, Repr

/-- A flit of a message: its head (index 0) or one of its data flits -/
structure Flit where
  message : Message
  index : ℕ
  uid : ℕ
  isTailPacket : Bool
  deriving DecidableEq, Repr

def Message.head (m : Message) : NocPacket :=
  { (NewPacket.head m.header m.dataFlitCount m.uninitialised).build m.uid with
    packetBlocked := m.packetBlocked }

def Flit.packet (f : Flit) : NocPacket :=
  if f.index = 0 then f.message.head else (NewPacket.body f.message.uid f.isTailPacket).build f.uid

/-- The flits of each message come in their order. -/
structure Interleaving (messages : List Message) (flits : List Flit) : Prop where
  distinct : (messages.map Message.uid).Nodup
  positive : ∀ m ∈ messages, 1 ≤ m.dataFlitCount
  mem : ∀ f ∈ flits, f.message ∈ messages
  order : ∀ m ∈ messages,
    (flits.filter (·.message = m)).map Flit.index = List.range (m.dataFlitCount + 1)

/-- Everything waits but the last flit. -/
def safAnswer (f : Flit) : Bool := f.index = f.message.dataFlitCount

/-- Only blocked packets wait. -/
def vctAnswer (f : Flit) : Bool := !f.message.packetBlocked || safAnswer f

/-! ## Counts are never above zero -/

theorem isEmpty_peekedHeader (f : Flit) : f.packet.peekedHeader.isEmpty =
    (f.index ≠ 0 || f.message.header.isEmpty) := by
  by_cases h : f.index = 0
  · simp [Flit.packet, h, Message.head, NewPacket.build, NocPacket.peekedHeader]
  · cases ht : f.isTailPacket with
    | true => simp [Flit.packet, h, NewPacket.build, NocPacket.peekedHeader, NocHeader.isEmpty, ht]
    | false => simp [Flit.packet, h, NewPacket.build, NocPacket.peekedHeader, NocHeader.isEmpty, ht]

theorem dataFlitCount_packet (f : Flit) : f.packet.dataFlitCount = 0 := by
  by_cases h : f.index = 0
  · simp [Flit.packet, h, Message.head, NewPacket.build]
  · simp [Flit.packet, h, NewPacket.build]

def Uncounted (flitCount : FlitCount) : Prop := ∀ uid, (flitCount uid).getD 0 = 0

theorem Uncounted.update {flitCount : FlitCount} (h : Uncounted flitCount) (uid : ℕ)
    {count : Option ℕ} (hc : count.getD 0 = 0) : Uncounted (Function.update flitCount uid count) := by
  intro v
  by_cases hv : v = uid
  · rw [hv, Function.update_self, hc]
  · rw [Function.update_of_ne hv, h v]

theorem saf_step {flitCount : FlitCount} (h : Uncounted flitCount) (f : Flit) :
    (SafSwitching.applyFlowControl flitCount f.packet).1 =
        (f.index ≠ 0 || f.message.header.isEmpty) ∧
      Uncounted (SafSwitching.applyFlowControl flitCount f.packet).2 := by
  rw [SafSwitching.applyFlowControl, ← isEmpty_peekedHeader]
  cases hempty : f.packet.peekedHeader.isEmpty with
  | false =>
    rw [if_pos (by decide), dataFlitCount_packet]
    exact ⟨rfl, h.update _ rfl⟩
  | true =>
    rw [if_neg (by decide)]
    simp only [h f.packet.packetHeadUid]
    exact ⟨rfl, h.update _ rfl⟩

theorem vct_step {s : VctSwitching.State} (h : Uncounted s.flitCount) (f : Flit) :
    (VctSwitching.applyFlowControl s f.packet).1 =
        (!f.message.packetBlocked || (f.index ≠ 0 || f.message.header.isEmpty)) ∧
      Uncounted (VctSwitching.applyFlowControl s f.packet).2.flitCount := by
  have hdata : (VctSwitching.applyToData s f.packet).1 = true ∧
      Uncounted (VctSwitching.applyToData s f.packet).2.flitCount := by
    rw [VctSwitching.applyToData]
    split
    · simp only [h f.packet.packetHeadUid]
      exact ⟨rfl, h.update _ rfl⟩
    · exact ⟨rfl, h⟩
  rw [VctSwitching.applyFlowControl, ← isEmpty_peekedHeader]
  cases hempty : f.packet.peekedHeader.isEmpty with
  | true =>
    rw [if_neg (by decide), Bool.or_true]
    exact hdata
  | false =>
    have hindex : f.index = 0 := by
      rw [isEmpty_peekedHeader] at hempty
      simpa using (Bool.or_eq_false_iff.mp hempty).1
    have hblocked : f.packet.packetBlocked = f.message.packetBlocked := by
      simp [Flit.packet, hindex, Message.head]
    rw [if_pos (by decide), hblocked, dataFlitCount_packet]
    cases f.message.packetBlocked with
    | true => exact ⟨rfl, h.update _ rfl⟩
    | false => exact ⟨rfl, h⟩

theorem answers_eq {σ : Type} {applyFlowControl : σ → NocPacket → Bool × σ} {P : σ → Prop}
    {answer : Flit → Bool}
    (hstep : ∀ s f, P s → (applyFlowControl s f.packet).1 = answer f ∧
      P (applyFlowControl s f.packet).2) {s : σ} (hs : P s) (flits : List Flit) :
    answers applyFlowControl s (flits.map Flit.packet) = flits.map answer := by
  induction flits generalizing s with
  | nil => rfl
  | cons f flits ih =>
    obtain ⟨hanswer, hnext⟩ := hstep s f hs
    rw [List.map_cons, List.map_cons, answers, hanswer, ih hnext]

/-! ## Where the answers are right -/

theorem Interleaving.exists_flit {messages : List Message} {flits : List Flit}
    (h : Interleaving messages flits) {m : Message} (hm : m ∈ messages) {i : ℕ}
    (hi : i ≤ m.dataFlitCount) : ∃ f ∈ flits, f.message = m ∧ f.index = i := by
  have hmem : i ∈ (flits.filter (·.message = m)).map Flit.index := by
    rw [h.order m hm, List.mem_range]
    omega
  obtain ⟨f, hf, rfl⟩ := List.mem_map.mp hmem
  obtain ⟨hf, hmessage⟩ := List.mem_filter.mp hf
  exact ⟨f, hf, of_decide_eq_true hmessage, rfl⟩

theorem Interleaving.index_le {messages : List Message} {flits : List Flit}
    (h : Interleaving messages flits) {f : Flit} (hf : f ∈ flits) :
    f.index ≤ f.message.dataFlitCount := by
  have hmem : f.index ∈ (flits.filter (·.message = f.message)).map Flit.index :=
    List.mem_map_of_mem (List.mem_filter.mpr ⟨hf, decide_eq_true rfl⟩)
  rw [h.order _ (h.mem f hf), List.mem_range] at hmem
  omega

/-- A packet goes through as it should exactly if it has one data flit and its head looks like one. -/
theorem Interleaving.all_flits_iff {messages : List Message} {flits : List Flit}
    (h : Interleaving messages flits) {m : Message} (hm : m ∈ messages) :
    (∀ f ∈ flits, f.message = m →
        (f.index ≠ 0 || f.message.header.isEmpty : Bool) = safAnswer f) ↔
      m.dataFlitCount = 1 ∧ m.header.isEmpty = false := by
  have hpos := h.positive m hm
  constructor
  · intro hall
    obtain ⟨f, hf, rfl, hi⟩ := h.exists_flit hm (Nat.zero_le _)
    obtain ⟨g, hg, hgm, hj⟩ := h.exists_flit hm hpos
    have hhead := hall f hf rfl
    have hdata := hall g hg hgm
    rw [safAnswer, hi] at hhead
    rw [safAnswer, hgm, hj] at hdata
    constructor
    · exact (of_decide_eq_true (hdata.symm.trans rfl)).symm
    · have hne : ¬ 0 = f.message.dataFlitCount := by omega
      simpa [hne] using hhead
  · rintro ⟨hone, hheader⟩ f hf rfl
    have hle := h.index_le hf
    rw [safAnswer, hone, hheader, Bool.or_false]
    apply decide_eq_decide.mpr
    omega

theorem flow_control_iff {messages : List Message} {flits : List Flit}
    (h : Interleaving messages flits) :
    (answers SafSwitching.applyFlowControl (fun _ => none) (flits.map Flit.packet) =
        flits.map safAnswer ↔
      ∀ m ∈ messages, m.dataFlitCount = 1 ∧ m.header.isEmpty = false) ∧
    (answers VctSwitching.applyFlowControl .init (flits.map Flit.packet) = flits.map vctAnswer ↔
      ∀ m ∈ messages, m.packetBlocked → m.dataFlitCount = 1 ∧ m.header.isEmpty = false) := by
  have hinit : Uncounted fun _ => none := fun _ => rfl
  have hvct : Uncounted VctSwitching.State.init.flitCount := fun _ => rfl
  rw [answers_eq (P := Uncounted) (fun _ f hs => saf_step hs f) hinit,
    answers_eq (P := fun s => Uncounted s.flitCount) (fun _ f hs => vct_step hs f) hvct]
  constructor
  · rw [List.map_inj_left]
    constructor
    · intro hall m hm
      exact (h.all_flits_iff hm).mp fun f hf _ => hall f hf
    · intro hall f hf
      exact (h.all_flits_iff (h.mem f hf)).mpr (hall _ (h.mem f hf)) f hf rfl
  · rw [List.map_inj_left]
    constructor
    · intro hall m hm hblocked
      refine (h.all_flits_iff hm).mp fun f hf hmessage => ?_
      have hf := hall f hf
      rwa [vctAnswer, hmessage, hblocked, Bool.not_true, Bool.false_or, Bool.false_or,
        ← hmessage] at hf
    · intro hall f hf
      rw [vctAnswer]
      cases hblocked : f.message.packetBlocked with
      | false => rfl
      | true =>
        rw [Bool.not_true, Bool.false_or, Bool.false_or]
        exact (h.all_flits_iff (h.mem f hf)).mpr (hall _ (h.mem f hf) hblocked) f hf rfl

/-! ## Two packets -/

/-- One data flit each; only the second packet is blocked. -/
def short : Message := ⟨7, ⟨[1, 0], [0, 0]⟩, 1, 0, false⟩
def blocked : Message := ⟨9, ⟨[0, 2], [0, 0]⟩, 1, 0, true⟩

theorem flow_control_of_short_packets :
    answers VctSwitching.applyFlowControl .init
        ([⟨short, 0, 7, false⟩, ⟨blocked, 0, 9, false⟩, ⟨blocked, 1, 10, true⟩,
          ⟨short, 1, 8, true⟩].map Flit.packet) = [true, false, true, true] := by
  have h : Interleaving [short, blocked] [⟨short, 0, 7, false⟩, ⟨blocked, 0, 9, false⟩,
      ⟨blocked, 1, 10, true⟩, ⟨short, 1, 8, true⟩] :=
    ⟨by decide, by decide, by decide, by decide⟩
  exact (flow_control_iff h).2.mpr (by decide)

/-- The first of two data flits lets a packet go. -/
theorem flow_control_of_long_packet :
    answers SafSwitching.applyFlowControl (fun _ => none)
        (([⟨{ short with dataFlitCount := 2 }, 0, 7, false⟩,
          ⟨{ short with dataFlitCount := 2 }, 1, 8, false⟩,
          ⟨{ short with dataFlitCount := 2 }, 2, 9, true⟩] : List Flit).map Flit.packet) =
      [false, true, true] := by
  decide

end Ns3Noc
