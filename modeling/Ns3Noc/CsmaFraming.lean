import Ns3Noc.BigEndian
import Ns3Noc.CsmaNetDevice

/-!
# CSMA frames

What `AddHeader` makes of a payload and what `Receive` of another device passes up. `none` is a
failed assertion or a fatal error.
-/
namespace Ns3Noc.CsmaFraming
open BigEndian Csma

abbrev Bytes : Type := List UInt8

structure Mac48Address where
  address : Bytes
  length_eq : address.length = 6
  deriving DecidableEq, Repr

namespace Mac48Address

def isBroadcast (a : Mac48Address) : Bool := a.address = List.replicate 6 0xff

def isGroup (a : Mac48Address) : Bool := a.address.getD 0 0 &&& 0x01 = 0x01

end Mac48Address

structure EthernetHeader where
  destination : Mac48Address
  source : Mac48Address
  lengthType : UInt16

/-- Without the preamble. -/
def EthernetHeader.serialize (h : EthernetHeader) : Bytes :=
  h.destination.address ++ h.source.address ++ toBytes 2 h.lengthType.toNat

/-- The header at the beginning of the packet, and the rest. -/
def EthernetHeader.remove (p : Bytes) : Option (EthernetHeader × Bytes) :=
  if h : 14 ≤ p.length then
    some (⟨⟨p.take 6, by rw [List.length_take]; omega⟩,
      ⟨(p.drop 6).take 6, by rw [List.length_take, List.length_drop]; omega⟩,
      UInt16.ofNat (ofBytes ((p.drop 12).take 2))⟩, p.drop 14)
  else none

def llcSnapHeader (etherType : UInt16) : Bytes :=
  [0xaa, 0xaa, 0x03, 0, 0, 0] ++ toBytes 2 etherType.toNat

/-- The type in the header at the beginning of the packet, and the rest. -/
def removeLlcSnapHeader (p : Bytes) : Option (UInt16 × Bytes) :=
  if 8 ≤ p.length then some (UInt16.ofNat (ofBytes ((p.drop 6).take 2)), p.drop 8) else none

/-- One turn of the outer loop of `EthernetTrailer::DoCalcFcs`. -/
def crcByte (crc : BitVec 32) (byte : UInt8) : BitVec 32 :=
  (List.range 8).foldl
    (fun crc _ => (crc >>> 1) ^^^ if crc &&& 1#32 = 1#32 then 0xedb88320#32 else 0#32)
    (crc ^^^ byte.toBitVec.setWidth 32)

def doCalcFcs (buffer : Bytes) : BitVec 32 := ~~~(buffer.foldl crcByte 0xffffffff#32)

/-- The bytes of the trailer, in the order of the host. -/
def calcFcs (checksumEnabled : Bool) (p : Bytes) : Bytes :=
  (toBytes 4 (if checksumEnabled then (doCalcFcs p).toNat else 0)).reverse

/-- The trailer at the end of the packet, and what is before it. -/
def removeTrailer (p : Bytes) : Option (BitVec 32 × Bytes) :=
  if 4 ≤ p.length then
    some (BitVec.ofNat 32 (ofBytes (p.drop (p.length - 4)).reverse), p.take (p.length - 4))
  else none

def checkFcs (checksumEnabled : Bool) (fcs : BitVec 32) (p : Bytes) : Bool :=
  !checksumEnabled || fcs = doCalcFcs p

/-- The device that sends. -/
structure Sender where
  encapMode : EncapsulationMode
  mtu : UInt16
  deriving DecidableEq, Repr

/-- It accepts every MTU. -/
def Sender.setMtu (sender : Sender) (mtu : UInt16) : Bool × Sender :=
  (true, { sender with mtu := mtu })

def pad (p : Bytes) : Bytes := if p.length < 46 then p ++ List.replicate (46 - p.length) 0 else p

/-- The switch of `AddHeader`: the length or type, and the packet so far. -/
def Sender.encapsulate (sender : Sender) (p : Bytes) (protocolNumber : UInt16) :
    Option (UInt16 × Bytes) :=
  match sender.encapMode with
  | .dix => some (protocolNumber, pad p)
  | .llc =>
    let p := pad (llcSnapHeader protocolNumber ++ p)
    let lengthType := UInt16.ofNat p.length
    if lengthType ≤ sender.mtu then some (lengthType, p) else none
  | .illegal => none

def Sender.addHeader (sender : Sender) (checksumEnabled : Bool) (p : Bytes)
    (source dest : Mac48Address) (protocolNumber : UInt16) : Option Bytes :=
  (sender.encapsulate p protocolNumber).map fun r =>
    let p := EthernetHeader.serialize ⟨dest, source, r.1⟩ ++ r.2
    p ++ calcFcs checksumEnabled p

inductive PacketType
  | broadcast
  | multicast
  | host
  | otherHost
  deriving DecidableEq, Repr

/-- A call of one of the callbacks. -/
inductive Up
  | promiscRx (packet : Bytes) (protocol : UInt16) (source dest : Mac48Address)
    (packetType : PacketType)
  | rx (packet : Bytes) (protocol : UInt16) (source : Mac48Address)
  deriving DecidableEq, Repr

/-- The device that receives, and whether it has a promiscuous callback. -/
structure Receiver where
  address : Mac48Address
  receiveEnable : Bool
  receiveErrorModel : Option (Bytes → Bool)
  promiscRxCallback : Bool

namespace Receiver
variable (receiver : Receiver)

def packetType (dest : Mac48Address) : PacketType :=
  if dest.isBroadcast then .broadcast
  else if dest.isGroup then .multicast
  else if dest = receiver.address then .host
  else .otherHost

/-- `m_receiveErrorModel && m_receiveErrorModel->IsCorrupt (packet)` -/
def isCorrupt (packet : Bytes) : Bool := receiver.receiveErrorModel.any (· packet)

/-- The end of `Receive`. -/
def passUp (packet : Bytes) (protocol : UInt16) (source dest : Mac48Address) : List Up :=
  (if receiver.promiscRxCallback then
    [.promiscRx packet protocol source dest (receiver.packetType dest)] else []) ++
  if receiver.packetType dest ≠ .otherHost then [.rx packet protocol source] else []

/-- `Receive` from another device. A packet that the error model marks is reported to the drop trace
and goes on. -/
def receive (checksumEnabled : Bool) (packet : Bytes) : Option (List Up) :=
  if !receiver.receiveEnable then some []
  else do
    let (fcs, packet) ← removeTrailer packet
    if !checkFcs checksumEnabled fcs packet then some []
    else do
      let (header, packet) ← EthernetHeader.remove packet
      if header.lengthType ≤ 1500 then do
        let (protocol, packet) ← removeLlcSnapHeader packet
        some (receiver.passUp packet protocol header.source header.destination)
      else some (receiver.passUp packet header.lengthType header.source header.destination)

end Receiver

/-! ## Headers and trailer -/

section Codecs
variable {p : Bytes} {v : ℕ}

theorem two_bytes (v : UInt16) : ofBytes (toBytes 2 v.toNat) = v.toNat :=
  ofBytes_toBytes v.toNat_lt

theorem length_serialize (h : EthernetHeader) : h.serialize.length = 14 := by
  simp [EthernetHeader.serialize, h.destination.length_eq, h.source.length_eq]

theorem remove_serialize (h : EthernetHeader) (p : Bytes) :
    EthernetHeader.remove (h.serialize ++ p) = some (h, p) := by
  have hlength : 14 ≤ (h.serialize ++ p).length := by
    rw [List.length_append, length_serialize]
    omega
  have hd := h.destination.length_eq
  have hs := h.source.length_eq
  have htype : (toBytes 2 h.lengthType.toNat).length = 2 := length_toBytes _ _
  have hsplit : h.serialize ++ p = h.destination.address ++ (h.source.address ++
      (toBytes 2 h.lengthType.toNat ++ p)) := by simp [EthernetHeader.serialize]
  have h6 : (h.serialize ++ p).drop 6 = h.source.address ++ (toBytes 2 h.lengthType.toNat ++ p) := by
    rw [hsplit, List.drop_left' hd]
  have h12 : (h.serialize ++ p).drop 12 = toBytes 2 h.lengthType.toNat ++ p := by
    rw [show 12 = 6 + 6 from rfl, ← List.drop_drop, h6, List.drop_left' hs]
  have h14 : (h.serialize ++ p).drop 14 = p := List.drop_left' (length_serialize h)
  have hdest : (h.serialize ++ p).take 6 = h.destination.address := by
    rw [hsplit, List.take_left' hd]
  have hsource : ((h.serialize ++ p).drop 6).take 6 = h.source.address := by
    rw [h6, List.take_left' hs]
  have hlt : ((h.serialize ++ p).drop 12).take 2 = toBytes 2 h.lengthType.toNat := by
    rw [h12, List.take_left' htype]
  rw [EthernetHeader.remove, dif_pos hlength]
  simp only [hdest, hsource, hlt, h14, two_bytes, UInt16.ofNat_toNat]

theorem removeLlcSnapHeader_append (etherType : UInt16) (p : Bytes) :
    removeLlcSnapHeader (llcSnapHeader etherType ++ p) = some (etherType, p) := by
  have htype : (toBytes 2 etherType.toNat).length = 2 := length_toBytes _ _
  have hlength : (llcSnapHeader etherType).length = 8 := by
    rw [llcSnapHeader, List.length_append, htype]
    rfl
  have h6 : (llcSnapHeader etherType ++ p).drop 6 = toBytes 2 etherType.toNat ++ p := rfl
  rw [removeLlcSnapHeader, if_pos (by rw [List.length_append]; omega), h6, List.take_left' htype,
    two_bytes, UInt16.ofNat_toNat, List.drop_left' hlength]

/-- The trailer fits the packet. -/
theorem removeTrailer_calcFcs (checksumEnabled : Bool) (p : Bytes) :
    ∃ fcs, removeTrailer (p ++ calcFcs checksumEnabled p) = some (fcs, p) ∧
      checkFcs checksumEnabled fcs p = true := by
  have hlength : (calcFcs checksumEnabled p).length = 4 := by
    rw [calcFcs, List.length_reverse, length_toBytes]
  have hbefore : (p ++ calcFcs checksumEnabled p).length - 4 = p.length := by
    rw [List.length_append, hlength, Nat.add_sub_cancel]
  refine ⟨_, by rw [removeTrailer, if_pos (by rw [List.length_append]; omega), hbefore,
    List.drop_left, List.take_left], ?_⟩
  cases checksumEnabled with
  | false => rfl
  | true =>
    have hlt : (doCalcFcs p).toNat < 256 ^ 4 := (doCalcFcs p).isLt
    simp only [checkFcs, calcFcs, if_true, List.reverse_reverse, ofBytes_toBytes hlt,
      BitVec.ofNat_toNat, BitVec.setWidth_eq]
    simp

end Codecs

/-! ## What is passed up -/

/-- Nobody is told about a frame for this destination. -/
def Receiver.Deaf (receiver : Receiver) (dest : Mac48Address) : Prop :=
  receiver.promiscRxCallback = false ∧ receiver.packetType dest = .otherHost

section Up
variable {receiver : Receiver} {packet packet' : Bytes} {protocol protocol' : UInt16}
  {source dest : Mac48Address}

theorem passUp_eq_nil_iff :
    receiver.passUp packet protocol source dest = [] ↔ receiver.Deaf dest := by
  simp [Receiver.passUp, Receiver.Deaf]

theorem passUp_inj (hdeaf : ¬receiver.Deaf dest)
    (h : receiver.passUp packet protocol source dest =
      receiver.passUp packet' protocol' source dest) : packet = packet' := by
  rw [Receiver.passUp, Receiver.passUp] at h
  cases hpromisc : receiver.promiscRxCallback
  · have htype : receiver.packetType dest ≠ .otherHost := fun htype => hdeaf ⟨hpromisc, htype⟩
    simp only [hpromisc, Bool.false_eq_true, if_false, if_pos htype, List.nil_append] at h
    injection (List.cons.inj h).1
  · simp only [hpromisc, if_true, List.singleton_append] at h
    injection (List.cons.inj h).1

end Up

/-! ## Frames -/

/-- The bytes of the LLC header, if there is one. -/
def overhead : EncapsulationMode → ℕ
  | .llc => 8
  | .dix => 0
  | .illegal => 0

theorem pad_eq (p : Bytes) : pad p = p ++ List.replicate (46 - p.length) 0 := by
  rw [pad]
  split
  · rfl
  · next h => rw [show 46 - p.length = 0 by omega, List.replicate_zero, List.append_nil]

section Frames
variable {sender : Sender} {receiver : Receiver} {checksumEnabled : Bool} {payload frame : Bytes}
  {source dest : Mac48Address} {protocol : UInt16}

/-- A frame in which nothing was changed reaches the test of the length. -/
theorem receive_frame (henable : receiver.receiveEnable = true) (h : EthernetHeader) (p : Bytes) :
    receiver.receive checksumEnabled
        (h.serialize ++ p ++ calcFcs checksumEnabled (h.serialize ++ p)) =
      if h.lengthType ≤ 1500 then
        (removeLlcSnapHeader p).map fun r => receiver.passUp r.2 r.1 h.source h.destination
      else some (receiver.passUp p h.lengthType h.source h.destination) := by
  obtain ⟨fcs, hremove, hcheck⟩ := removeTrailer_calcFcs checksumEnabled (h.serialize ++ p)
  rw [Receiver.receive, henable, hremove]
  simp only [Bool.not_true, Bool.false_eq_true, if_false, Option.bind_eq_bind, Option.bind_some,
    hcheck, remove_serialize]
  split
  · cases removeLlcSnapHeader p <;> rfl
  · rfl

/-- The payload and its padding. -/
def padded (encapMode : EncapsulationMode) (payload : Bytes) : Bytes :=
  payload ++ List.replicate (46 - (overhead encapMode + payload.length)) 0

/-- The bytes that the length field of an LLC frame counts. -/
def llcLength (payload : Bytes) : ℕ := max 46 (8 + payload.length)

theorem length_llcSnapHeader (etherType : UInt16) : (llcSnapHeader etherType).length = 8 := by
  rw [llcSnapHeader, List.length_append, length_toBytes]
  rfl

theorem pad_llc (etherType : UInt16) (payload : Bytes) :
    pad (llcSnapHeader etherType ++ payload) = llcSnapHeader etherType ++ padded .llc payload := by
  rw [pad_eq, padded, List.length_append, length_llcSnapHeader, List.append_assoc]
  rfl

theorem length_padded_llc (etherType : UInt16) (payload : Bytes) :
    (llcSnapHeader etherType ++ padded .llc payload).length = llcLength payload := by
  rw [List.length_append, length_llcSnapHeader, padded, List.length_append, List.length_replicate,
    llcLength, overhead]
  omega

theorem receive_dix (henable : receiver.receiveEnable = true) (hprotocol : 1536 ≤ protocol.toNat)
    (hmode : sender.encapMode = .dix)
    (hframe : sender.addHeader checksumEnabled payload source dest protocol = some frame) :
    receiver.receive checksumEnabled frame =
      some (receiver.passUp (padded .dix payload) protocol source dest) := by
  rw [Sender.addHeader, Sender.encapsulate, hmode] at hframe
  cases hframe
  have hpad : pad payload = padded .dix payload := by
    rw [pad_eq, padded, overhead, Nat.zero_add]
  have htype : ¬protocol ≤ 1500 := by
    rw [UInt16.le_iff_toNat_le]
    exact Nat.not_le.mpr (lt_of_lt_of_le (by decide) hprotocol)
  rw [receive_frame henable ⟨dest, source, protocol⟩, if_neg htype, hpad]

/-- A longer frame is taken for one that carries its length as the protocol number. -/
theorem receive_llc (henable : receiver.receiveEnable = true) (hmode : sender.encapMode = .llc)
    (hframe : sender.addHeader checksumEnabled payload source dest protocol = some frame) :
    receiver.receive checksumEnabled frame =
      if llcLength payload % 65536 ≤ 1500 then
        some (receiver.passUp (padded .llc payload) protocol source dest)
      else
        some (receiver.passUp (llcSnapHeader protocol ++ padded .llc payload)
          (UInt16.ofNat (llcLength payload)) source dest) := by
  rw [Sender.addHeader, Sender.encapsulate, hmode] at hframe
  dsimp only at hframe
  split at hframe
  · cases hframe
    have htype : UInt16.ofNat (llcLength payload) ≤ 1500 ↔ llcLength payload % 65536 ≤ 1500 := by
      rw [UInt16.le_iff_toNat_le, UInt16.toNat_ofNat']
      rfl
    rw [receive_frame henable ⟨dest, source, _⟩]
    simp only [pad_llc, length_padded_llc, htype, removeLlcSnapHeader_append, Option.map_some]
  · cases hframe

/-- What is to be passed up from a frame that arrives as it was sent. -/
def Delivers (encapMode : EncapsulationMode) (receiver : Receiver) (checksumEnabled : Bool)
    (payload : Bytes) (source dest : Mac48Address) (protocol : UInt16) (frame : Bytes) : Prop :=
  receiver.receive checksumEnabled frame =
    some (if receiver.isCorrupt frame then []
      else receiver.passUp (padded encapMode payload) protocol source dest)

theorem delivers_frame_iff (henable : receiver.receiveEnable = true)
    (hprotocol : 1536 ≤ protocol.toNat)
    (hframe : sender.addHeader checksumEnabled payload source dest protocol = some frame) :
    Delivers sender.encapMode receiver checksumEnabled payload source dest protocol frame ↔
      receiver.Deaf dest ∨ receiver.isCorrupt frame = false ∧
        (sender.encapMode = .dix ∨ llcLength payload % 65536 ≤ 1500) := by
  by_cases hdeaf : receiver.Deaf dest
  · refine iff_of_true ?_ (.inl hdeaf)
    have hnil (packet : Bytes) (protocol : UInt16) :
        receiver.passUp packet protocol source dest = [] := passUp_eq_nil_iff.mpr hdeaf
    rw [Delivers, hnil, ite_self]
    cases hmode : sender.encapMode with
    | dix => rw [receive_dix henable hprotocol hmode hframe, hnil]
    | llc => rw [receive_llc henable hmode hframe, hnil, hnil, ite_self]
    | illegal =>
      rw [Sender.addHeader, Sender.encapsulate, hmode] at hframe
      cases hframe
  · have hne (packet : Bytes) (protocol : UInt16) :
        receiver.passUp packet protocol source dest ≠ [] := fun h =>
      hdeaf (passUp_eq_nil_iff.mp h)
    rw [or_iff_right hdeaf, Delivers]
    cases hmode : sender.encapMode with
    | dix =>
      rw [receive_dix henable hprotocol hmode hframe]
      cases hcorrupt : receiver.isCorrupt frame
      · simp
      · simp [hne]
    | llc =>
      rw [receive_llc henable hmode hframe]
      have hlonger : receiver.passUp (llcSnapHeader protocol ++ padded .llc payload)
          (UInt16.ofNat (llcLength payload)) source dest ≠
            receiver.passUp (padded .llc payload) protocol source dest := by
        intro h
        have hlength := congrArg List.length (passUp_inj hdeaf h)
        rw [List.length_append, length_llcSnapHeader] at hlength
        omega
      by_cases hshort : llcLength payload % 65536 ≤ 1500
      · rw [if_pos hshort]
        cases hcorrupt : receiver.isCorrupt frame
        · simp [hshort]
        · simp [hne]
      · rw [if_neg hshort]
        cases hcorrupt : receiver.isCorrupt frame
        · simp [hshort, hlonger]
        · simp [hne]
    | illegal =>
      rw [Sender.addHeader, Sender.encapsulate, hmode] at hframe
      cases hframe

/-- A frame is passed up as it was sent unless it is marked as corrupt or its length is taken for a
protocol number. -/
theorem delivers_iff (sender : Sender) (mtu : UInt16) (henable : receiver.receiveEnable = true)
    (hprotocol : 1536 ≤ protocol.toNat)
    (hframe : (sender.setMtu mtu).2.addHeader checksumEnabled payload source dest protocol =
      some frame) :
    Delivers sender.encapMode receiver checksumEnabled payload source dest protocol frame ↔
      receiver.Deaf dest ∨ receiver.isCorrupt frame = false ∧
        (sender.encapMode = .dix ∨ llcLength payload % 65536 ≤ 1500) := by
  have h := delivers_frame_iff henable hprotocol hframe
  exact h

end Frames

/-- A device with the address `00:00:00:00:00:01`. -/
def deviceAddress : Mac48Address := ⟨[0, 0, 0, 0, 0, 1], rfl⟩

/-- Two bytes in an LLC frame, with checksums. -/
theorem delivers_twoBytes :
    ∃ frame, (Sender.setMtu ⟨.llc, 0⟩ 1500).2.addHeader true [7, 8] deviceAddress deviceAddress
        0x0800 = some frame ∧
      Delivers .llc ⟨deviceAddress, true, none, false⟩ true [7, 8] deviceAddress deviceAddress
        0x0800 frame :=
  ⟨_, rfl, (delivers_iff ⟨.llc, 0⟩ 1500 rfl (by decide) rfl).mpr (.inr ⟨rfl, .inr (by decide)⟩)⟩

/-- A frame that the error model marks is passed up. -/
theorem not_delivers_corrupt : ¬∀ (sender : Sender) (mtu : UInt16) (receiver : Receiver)
    (checksumEnabled : Bool) (payload frame : Bytes) (source dest : Mac48Address)
    (protocol : UInt16), receiver.receiveEnable = true → 1536 ≤ protocol.toNat →
      (sender.setMtu mtu).2.addHeader checksumEnabled payload source dest protocol = some frame →
        Delivers sender.encapMode receiver checksumEnabled payload source dest protocol frame := by
  intro h
  have hdelivers := h ⟨.dix, 0⟩ 1500 ⟨deviceAddress, true, some fun _ => true, false⟩ false [] _
    deviceAddress deviceAddress 0x0800 rfl (by decide) rfl
  have hmarked := (delivers_frame_iff rfl (by decide) rfl).mp hdelivers
  rcases hmarked with ⟨-, htype⟩ | ⟨hcorrupt, -⟩
  · exact absurd htype (by decide)
  · cases hcorrupt

end Ns3Noc.CsmaFraming
