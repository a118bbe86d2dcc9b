import Ns3Noc.BigEndian
import Ns3Noc.BufferOffsets
import Ns3Noc.LinkSensing
import Ns3Noc.WhileLoops

/-!
# OLSR messages

How the messages of an OLSR packet are written to bytes and read from them. Only `ReadU8` checks the
end of the buffer; what lies behind it is in the memory too.
-/
namespace Ns3Noc.Olsr
open BigEndian ByteSlices WhileLoops

def IPV4_ADDRESS_SIZE : ℕ := 4
def OLSR_MSG_HEADER_SIZE : ℕ := 12

inductive MessageType where
  | helloMessage
  | tcMessage
  | midMessage
  | hnaMessage
  deriving DecidableEq, Repr

def MessageType.code : MessageType → UInt8
  | .helloMessage => 1
  | .tcMessage => 2
  | .midMessage => 3
  | .hnaMessage => 4

def MessageType.ofCode? (code : UInt8) : Option MessageType :=
  [helloMessage, tcMessage, midMessage, hnaMessage].find? fun type => type.code = code

structure Mid where
  interfaceAddresses : List Ipv4Address
  deriving DecidableEq, Repr

structure Hello where
  hTime : UInt8
  willingness : UInt8
  linkMessages : List LinkMessage
  deriving DecidableEq, Repr

structure Tc where
  neighborAddresses : List Ipv4Address
  ansn : UInt16
  deriving DecidableEq, Repr

structure Association where
  address : Ipv4Address
  mask : BitVec 32
  deriving DecidableEq, Repr

structure Hna where
  associations : List Association
  deriving DecidableEq, Repr

/-- The part of `m_message` that belongs to the type of the message. -/
inductive Message where
  | mid (mid : Mid)
  | hello (hello : Hello)
  | tc (tc : Tc)
  | hna (hna : Hna)
  deriving DecidableEq, Repr

structure MessageHeader where
  vTime : UInt8
  originatorAddress : Ipv4Address
  timeToLive : UInt8
  hopCount : UInt8
  messageSequenceNumber : UInt16
  message : Message
  deriving DecidableEq, Repr

def Message.type : Message → MessageType
  | .mid _ => .midMessage
  | .hello _ => .helloMessage
  | .tc _ => .tcMessage
  | .hna _ => .hnaMessage

def MessageHeader.messageType (msg : MessageHeader) : MessageType := msg.message.type

/-! ## Sizes -/

def Mid.getSerializedSize (mid : Mid) : ℕ :=
  uint32 (mid.interfaceAddresses.length * IPV4_ADDRESS_SIZE)

def Hello.getSerializedSize (hello : Hello) : ℕ :=
  hello.linkMessages.foldl (fun size lm =>
    uint32 (uint32 (size + 4) + IPV4_ADDRESS_SIZE * lm.neighborInterfaceAddresses.length)) 4

def Tc.getSerializedSize (tc : Tc) : ℕ :=
  uint32 (4 + tc.neighborAddresses.length * IPV4_ADDRESS_SIZE)

def Hna.getSerializedSize (hna : Hna) : ℕ :=
  uint32 (2 * hna.associations.length * IPV4_ADDRESS_SIZE)

def Message.getSerializedSize : Message → ℕ
  | .mid m => m.getSerializedSize
  | .hello m => m.getSerializedSize
  | .tc m => m.getSerializedSize
  | .hna m => m.getSerializedSize

def MessageHeader.getSerializedSize (msg : MessageHeader) : ℕ :=
  uint32 (OLSR_MSG_HEADER_SIZE + msg.message.getSerializedSize)

/-! ## Writing -/

def writeHtonU32 (address : BitVec 32) : List UInt8 := toBytes 4 address.toNat

def Mid.serialize (mid : Mid) : List UInt8 := mid.interfaceAddresses.flatMap writeHtonU32

def LinkMessage.serialize (lm : LinkMessage) : List UInt8 :=
  [lm.linkCode, 0] ++ toBytes 2 (4 + lm.neighborInterfaceAddresses.length * IPV4_ADDRESS_SIZE) ++
    lm.neighborInterfaceAddresses.flatMap writeHtonU32

def Hello.serialize (hello : Hello) : List UInt8 :=
  [0, 0, hello.hTime, hello.willingness] ++ hello.linkMessages.flatMap LinkMessage.serialize

def Tc.serialize (tc : Tc) : List UInt8 :=
  toBytes 2 tc.ansn.toNat ++ toBytes 2 0 ++ tc.neighborAddresses.flatMap writeHtonU32

def Association.serialize (association : Association) : List UInt8 :=
  writeHtonU32 association.address ++ writeHtonU32 association.mask

def Hna.serialize (hna : Hna) : List UInt8 := hna.associations.flatMap Association.serialize

def Message.serialize : Message → List UInt8
  | .mid m => m.serialize
  | .hello m => m.serialize
  | .tc m => m.serialize
  | .hna m => m.serialize

def MessageHeader.serialize (msg : MessageHeader) : List UInt8 :=
  [msg.messageType.code, msg.vTime] ++ toBytes 2 msg.getSerializedSize ++
    writeHtonU32 msg.originatorAddress ++ [msg.timeToLive, msg.hopCount] ++
    toBytes 2 msg.messageSequenceNumber.toNat ++ msg.message.serialize

/-! ## Reading -/

/-- The memory that an iterator reads, and the end of its buffer, which has no zero area. -/
structure ReadBuffer where
  data : ℕ → UInt8
  dataEnd : ℕ

namespace ReadBuffer
variable (b : ReadBuffer)

def readU8 (p : ℕ) : Option UInt8 := if p ≤ b.dataEnd then some (b.data p) else none

def readNtohU16 (p : ℕ) : ℕ := ofBytes (slice b.data p 2)

def readNtohU32 (p : ℕ) : BitVec 32 := BitVec.ofNat 32 (ofBytes (slice b.data p 4))

/-- `n` addresses from position `p` on. -/
def readAddresses : ℕ → ℕ → List Ipv4Address
  | 0, _ => []
  | n + 1, p => b.readNtohU32 p :: readAddresses n (p + 4)

def readAssociations : ℕ → ℕ → List Association
  | 0, _ => []
  | n + 1, p => ⟨b.readNtohU32 p, b.readNtohU32 (p + 4)⟩ :: readAssociations n (p + 8)

end ReadBuffer

def Mid.deserialize (b : ReadBuffer) (start messageSize : ℕ) : Option (Mid × ℕ) :=
  if messageSize % IPV4_ADDRESS_SIZE = 0 then
    let mid : Mid := ⟨b.readAddresses (messageSize / IPV4_ADDRESS_SIZE) start⟩
    some (mid, mid.getSerializedSize)
  else none

def Tc.deserialize (b : ReadBuffer) (start messageSize : ℕ) : Option (Tc × ℕ) :=
  if messageSize ≥ 4 ∧ (messageSize - 4) % IPV4_ADDRESS_SIZE = 0 then
    some (⟨b.readAddresses ((messageSize - 4) / IPV4_ADDRESS_SIZE) (start + 4),
      UInt16.ofNat (b.readNtohU16 start)⟩, messageSize)
  else none

def Hna.deserialize (b : ReadBuffer) (start messageSize : ℕ) : Option (Hna × ℕ) :=
  if messageSize % (IPV4_ADDRESS_SIZE * 2) = 0 then
    some (⟨b.readAssociations (messageSize / IPV4_ADDRESS_SIZE / 2) start⟩, messageSize)
  else none

/-- The link message that is being read, its size, and the counter `n` of addresses to come. The
counter is an `int`, and the loop goes on until it is zero. -/
structure LinkReading where
  lm : LinkMessage
  lmSize : ℕ
  n : ℤ

structure HelloState where
  position : ℕ
  helloSizeLeft : ℕ
  linkMessages : List LinkMessage
  reading : Option LinkReading

namespace HelloState

/-- Subtraction of 16 bit values. -/
def uint16Sub (x y : ℕ) : ℕ := (x + 65536 - y) % 65536

/-- The first four bytes of a link message. -/
def readLink (b : ReadBuffer) (position : ℕ) : Option LinkReading := do
  let linkCode ← b.readU8 position
  let _ ← b.readU8 (position + 1)
  let lmSize := b.readNtohU16 (position + 2)
  if ((lmSize : ℤ) - 4).tmod IPV4_ADDRESS_SIZE = 0 then
    some ⟨⟨linkCode, []⟩, lmSize, ((lmSize : ℤ) - 4).tdiv IPV4_ADDRESS_SIZE⟩
  else none

/-- One turn of the loop over the link messages or of the loop inside it. -/
def turn (b : ReadBuffer) (s : HelloState) : Turn HelloState :=
  match s.reading with
  | some r =>
    if r.n ≠ 0 then
      .again { s with
        position := s.position + 4
        reading := some { r with
          lm := { r.lm with
            neighborInterfaceAddresses :=
              r.lm.neighborInterfaceAddresses ++ [b.readNtohU32 s.position] }
          n := r.n - 1 } }
    else
      .again { s with
        helloSizeLeft := uint16Sub s.helloSizeLeft r.lmSize
        linkMessages := s.linkMessages ++ [r.lm]
        reading := none }
  | none =>
    if s.helloSizeLeft ≠ 0 then
      if s.helloSizeLeft ≥ 4 then
        match readLink b s.position with
        | some r => .again { s with position := s.position + 4, reading := some r }
        | none => .fails
      else .fails
    else .ends s

end HelloState

/-- `Deserialize` of a HELLO up to its loop. -/
def Hello.startReading (b : ReadBuffer) (start messageSize : ℕ) :
    Option (UInt8 × UInt8 × HelloState) :=
  if messageSize ≥ 4 then do
    let hTime ← b.readU8 (start + 2)
    let willingness ← b.readU8 (start + 3)
    some (hTime, willingness,
      ⟨start + 4, HelloState.uint16Sub (messageSize % 65536) 4, [], none⟩)
  else none

/-- The outer `none` is a loop that needs more fuel, the inner one a failed assertion. -/
def Hello.deserialize (b : ReadBuffer) (fuel start messageSize : ℕ) :
    Option (Option (Hello × ℕ)) :=
  match startReading b start messageSize with
  | some (hTime, willingness, s) =>
    (loop (HelloState.turn b) fuel s).map fun r =>
      r.map fun s => (⟨hTime, willingness, s.linkMessages⟩, messageSize)
  | none => some none

def Message.deserialize (b : ReadBuffer) (fuel start messageSize : ℕ) :
    MessageType → Option (Option (Message × ℕ))
  | .midMessage => some ((Mid.deserialize b start messageSize).map fun r => (.mid r.1, r.2))
  | .helloMessage => (Hello.deserialize b fuel start messageSize).map fun r =>
      r.map fun r => (.hello r.1, r.2)
  | .tcMessage => some ((Tc.deserialize b start messageSize).map fun r => (.tc r.1, r.2))
  | .hnaMessage => some ((Hna.deserialize b start messageSize).map fun r => (.hna r.1, r.2))

/-- The fields before the message, with its type and size. -/
def MessageHeader.readFields (b : ReadBuffer) (start : ℕ) :
    Option (MessageType × ℕ × (Message → MessageHeader)) := do
  let type ← MessageType.ofCode? (← b.readU8 start)
  let vTime ← b.readU8 (start + 1)
  let messageSize := b.readNtohU16 (start + 2)
  let originatorAddress := b.readNtohU32 (start + 4)
  let timeToLive ← b.readU8 (start + 8)
  let hopCount ← b.readU8 (start + 9)
  let messageSequenceNumber := UInt16.ofNat (b.readNtohU16 (start + 10))
  some (type, messageSize,
    fun message => ⟨vTime, originatorAddress, timeToLive, hopCount, messageSequenceNumber, message⟩)

def MessageHeader.deserialize (b : ReadBuffer) (fuel start : ℕ) :
    Option (Option (MessageHeader × ℕ)) :=
  match readFields b start with
  | some (type, messageSize, header) =>
    (Message.deserialize b fuel (start + OLSR_MSG_HEADER_SIZE)
      (uint32Sub messageSize OLSR_MSG_HEADER_SIZE) type).map fun r =>
        r.map fun r => (header r.1, uint32 (OLSR_MSG_HEADER_SIZE + r.2))
  | none => some none

end Ns3Noc.Olsr
