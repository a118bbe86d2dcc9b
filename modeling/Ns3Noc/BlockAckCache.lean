import Ns3Noc.RingLoops

/-!
# The block ack cache

`BlockAckCache` with the sequence number tests of `QosUtils` and the bitmap of a block ack
response. A function returns `none` where an assertion fails, where the program stops with a fatal
error and where a loop does not end.
-/
namespace Ns3Noc.Wifi

open RingLoops

/-- `(a - b + 4096) % 4096`, in `int` -/
def intDistance (a b : ℤ) : ℤ := (a - b + 4096).tmod 4096

/-- The conversion of an `int` to `uint16_t`. -/
def uint16 (x : ℤ) : ℕ := (x % 65536).toNat

def qosUtilsIsOldPacket (startingSeq seqNumber : ℕ) : Option Bool :=
  if startingSeq < 4096 ∧ seqNumber < 4096 then
    some (uint16 (intDistance seqNumber startingSeq) ≥ 2048)
  else none

/-- The sequence control field of a received frame has 12 and 4 bits. -/
structure MpduHeader where
  sequenceNumber : Fin 4096
  fragmentNumber : Fin 16
  deriving DecidableEq, Repr

inductive BlockAckType where
  | basicBlockAck
  | compressedBlockAck
  | multiTidBlockAck
  deriving DecidableEq, Repr

/-- The bitmap is a union, of which a header uses one member. -/
structure CtrlBAckResponseHeader where
  type : BlockAckType
  startingSeq : ℕ
  bitmap : ℕ → BitVec 16
  compressedBitmap : BitVec 64

namespace CtrlBAckResponseHeader

/-- The constructor, `SetStartingSequence` and `SetType` -/
def create (type : BlockAckType) (startingSeq : ℕ) : CtrlBAckResponseHeader :=
  ⟨type, startingSeq, fun _ => 0, 0⟩

variable (header : CtrlBAckResponseHeader)

def isInBitmap (seq : ℕ) : Bool := intDistance seq header.startingSeq < 64

def indexInBitmap (seq : ℕ) : Option ℕ :=
  let index : ℤ :=
    if seq ≥ header.startingSeq then (seq : ℤ) - header.startingSeq
    else 4096 - (header.startingSeq : ℤ) + seq
  let index := (index % 256).toNat
  if index ≤ 63 then some index else none

def setReceivedPacket (seq : ℕ) : Option CtrlBAckResponseHeader :=
  if header.isInBitmap seq then
    match header.type with
    | .basicBlockAck => (header.indexInBitmap seq).map fun index =>
        { header with
          bitmap := Function.update header.bitmap index (header.bitmap index ||| 1#16) }
    | .compressedBlockAck => (header.indexInBitmap seq).map fun index =>
        { header with compressedBitmap := header.compressedBitmap ||| 1#64 <<< index }
    | .multiTidBlockAck => none
  else some header

def isPacketReceived (seq : ℕ) : Option Bool :=
  if header.isInBitmap seq then
    match header.type with
    | .basicBlockAck => some false
    | .compressedBlockAck => (header.indexInBitmap seq).map fun index =>
        (header.compressedBitmap >>> index &&& 1#64) == 1#64
    | .multiTidBlockAck => none
  else some false

end CtrlBAckResponseHeader

structure BlockAckCache where
  winStart : ℕ
  winSize : ℕ
  winEnd : ℕ
  bitmap : ℕ → BitVec 16

namespace BlockAckCache

def init (winStart winSize : ℕ) : BlockAckCache :=
  let winSize := if winSize ≤ 64 then winSize else 64
  { winStart := winStart
    winSize := winSize
    winEnd := uint16 (((winStart + winSize : ℕ) % 4096 : ℤ) - 1)
    bitmap := fun _ => 0 }

variable (cache : BlockAckCache)

/-- `WINSIZE_ASSERT` -/
def winsizeAssert : Option BlockAckCache :=
  if intDistance cache.winEnd cache.winStart = (cache.winSize : ℤ) - 1 then some cache else none

def isInWindow (seq : ℕ) : Bool := intDistance seq cache.winStart < cache.winSize

def resetPortionOfBitmap (start last : ℕ) : Option BlockAckCache :=
  (ringLoop 4096 (fun i bitmap => some (Function.update bitmap i 0#16)) last 4096 start
    cache.bitmap).map fun bitmap => { cache with bitmap := bitmap }

def record (hdr : MpduHeader) : BlockAckCache :=
  { cache with
    bitmap := Function.update cache.bitmap hdr.sequenceNumber
      (cache.bitmap hdr.sequenceNumber ||| 1#16 <<< hdr.fragmentNumber.val) }

def updateWithMpdu (hdr : MpduHeader) : Option BlockAckCache :=
  let seqNumber : ℕ := hdr.sequenceNumber
  (qosUtilsIsOldPacket cache.winStart seqNumber).bind fun old =>
    if old then some cache
    else if cache.isInWindow seqNumber then some (cache.record hdr)
    else
      let delta := uint16 (intDistance seqNumber cache.winEnd)
      let reset :=
        if delta > 1 then
          cache.resetPortionOfBitmap ((cache.winEnd + 1) % 4096)
            (uint16 (((seqNumber : ℤ) - 1 + 4096).tmod 4096))
        else some cache
      reset.bind fun cache =>
        (winsizeAssert { cache with
          winStart := (cache.winStart + delta) % 4096
          winEnd := seqNumber }).map fun cache => cache.record hdr

def updateWithBlockAckReq (startingSeq : ℕ) : Option BlockAckCache :=
  (qosUtilsIsOldPacket cache.winStart startingSeq).bind fun old =>
    if old then some cache
    else
      let newWinEnd := uint16 (((startingSeq + cache.winSize : ℕ) % 4096 : ℤ) - 1)
      if cache.isInWindow startingSeq then
        if startingSeq ≠ cache.winStart then
          (cache.resetPortionOfBitmap ((cache.winEnd + 1) % 4096) newWinEnd).bind fun cache =>
            winsizeAssert { cache with winStart := startingSeq, winEnd := newWinEnd }
        else some cache
      else
        (cache.resetPortionOfBitmap startingSeq newWinEnd).bind fun cache =>
          winsizeAssert { cache with winStart := startingSeq, winEnd := newWinEnd }

/-- The counters of the loop are 32-bit, so the end of a window up to 4095 is `0xffffffff`. -/
def fillBlockAckBitmap (blockAckHeader : CtrlBAckResponseHeader) : Option CtrlBAckResponseHeader :=
  match blockAckHeader.type with
  | .basicBlockAck => none
  | .compressedBlockAck =>
    let i := blockAckHeader.startingSeq
    let last := ((((i + cache.winSize : ℕ) % 4096 : ℤ) - 1) % 4294967296).toNat
    ringLoop 4096 (fun i header =>
      if cache.bitmap i = 1#16 then header.setReceivedPacket i else some header) last 4096 i
      blockAckHeader
  | .multiTidBlockAck => none

end BlockAckCache

/-! ## Sequence number arithmetic -/

theorem intDistance_eq {a b : ℕ} (hb : b ≤ 4096) : intDistance a b = ((a + 4096 - b) % 4096 : ℕ) := by
  rw [intDistance, Int.tmod_eq_emod_of_nonneg (by omega)]
  omega

theorem uint16_natCast {a : ℕ} (ha : a < 65536) : uint16 a = a := by
  rw [uint16]
  omega

theorem uint16_intDistance {a b : ℕ} (hb : b ≤ 4096) :
    uint16 (intDistance a b) = (a + 4096 - b) % 4096 := by
  rw [intDistance_eq hb, uint16_natCast (by omega)]

theorem uint16_pred {a : ℕ} (h : a % 4096 ≠ 0) :
    uint16 ((a % 4096 : ℤ) - 1) = (a - 1) % 4096 := by
  rw [uint16]
  omega

theorem uint16_pred_wrap {a : ℕ} (h : a % 4096 = 0) :
    uint16 ((a % 4096 : ℤ) - 1) = 65535 := by
  rw [uint16]
  omega

theorem ringDistance_4096 {i j : ℕ} (hi : i < 4096) (hj : j < 4096) :
    ringDistance 4096 i j = (j + 4096 - i) % 4096 := by
  rw [ringDistance]
  split <;> omega

theorem qosUtilsIsOldPacket_eq {startingSeq seqNumber : ℕ} (hstart : startingSeq < 4096)
    (hseq : seqNumber < 4096) :
    qosUtilsIsOldPacket startingSeq seqNumber =
      some (decide (2048 ≤ (seqNumber + 4096 - startingSeq) % 4096)) := by
  rw [qosUtilsIsOldPacket, if_pos ⟨hstart, hseq⟩, uint16_intDistance (by omega)]

namespace BlockAckCache

variable {cache cache' : BlockAckCache}

theorem isInWindow_eq {seq : ℕ} (hstart : cache.winStart < 4096) :
    cache.isInWindow seq = decide ((seq + 4096 - cache.winStart) % 4096 < cache.winSize) := by
  rw [isInWindow, intDistance_eq (by omega)]
  simp only [Nat.cast_lt]

theorem winsizeAssert_eq (hstart : cache.winStart < 4096)
    (hsize : (cache.winEnd + 4096 - cache.winStart) % 4096 + 1 = cache.winSize) :
    cache.winsizeAssert = some cache := by
  rw [winsizeAssert, intDistance_eq (by omega), if_pos (by omega)]

/-- The positions from `start` to `last` are cleared. -/
theorem resetPortionOfBitmap_eq {start last : ℕ} (hstart : start < 4096) (hlast : last < 4096) :
    ∃ bitmap, cache.resetPortionOfBitmap start last = some { cache with bitmap := bitmap } ∧
      ∀ s < 4096, bitmap s =
        if (s + 4096 - start) % 4096 ≤ (last + 4096 - start) % 4096 then 0 else cache.bitmap s := by
  have hlt := ringDistance_lt hstart hlast
  have hupdate := foldlM_update (fun _ => 0#16) (ringArc 4096 start (ringDistance 4096 start last + 1))
    cache.bitmap
  refine ⟨fun j => if j ∈ ringArc 4096 start (ringDistance 4096 start last + 1) then 0
    else cache.bitmap j, ?_, ?_⟩
  · rw [resetPortionOfBitmap, ringLoop_eq_foldlM hstart hlast hlt, hupdate]
    rfl
  · intro s hs
    simp only [mem_ringArc hstart hs hlt, Nat.lt_succ_iff]
    simp only [ringDistance_4096 hstart hs, ringDistance_4096 hstart hlast]

/-- The loop of a window up to 4095 does not end, whatever the fuel. -/
theorem resetPortionOfBitmap_eq_none {start last : ℕ} (hstart : start < 4096) (hlast : 4096 ≤ last) :
    cache.resetPortionOfBitmap start last = none := by
  rw [resetPortionOfBitmap, ringLoop_eq_none hstart hlast]
  rfl

variable {hdr : MpduHeader}

theorem updateWithMpdu_of_old
    (hold : qosUtilsIsOldPacket cache.winStart hdr.sequenceNumber = some true) :
    cache.updateWithMpdu hdr = some cache := by
  unfold updateWithMpdu
  simp only [hold, Option.bind_some, if_true]

theorem updateWithMpdu_of_isInWindow
    (hold : qosUtilsIsOldPacket cache.winStart hdr.sequenceNumber = some false)
    (hin : cache.isInWindow hdr.sequenceNumber = true) :
    cache.updateWithMpdu hdr = some (cache.record hdr) := by
  unfold updateWithMpdu
  simp only [hold, hin, Option.bind_some, Bool.false_eq_true, if_true, if_false]

theorem updateWithBlockAckReq_of_old {s : ℕ}
    (hold : qosUtilsIsOldPacket cache.winStart s = some true) :
    cache.updateWithBlockAckReq s = some cache := by
  unfold updateWithBlockAckReq
  simp only [hold, Option.bind_some, if_true]

theorem updateWithBlockAckReq_of_start {s : ℕ}
    (hold : qosUtilsIsOldPacket cache.winStart s = some false)
    (hin : cache.isInWindow s = true) (heq : s = cache.winStart) :
    cache.updateWithBlockAckReq s = some cache := by
  subst heq
  unfold updateWithBlockAckReq
  simp only [hold, hin, Option.bind_some, Bool.false_eq_true, if_true, if_false, ne_eq,
    not_true_eq_false]

/-- A request that moves the window. -/
theorem updateWithBlockAckReq_of_ne {s : ℕ}
    (hold : qosUtilsIsOldPacket cache.winStart s = some false) (hne : s ≠ cache.winStart) :
    cache.updateWithBlockAckReq s =
      (cache.resetPortionOfBitmap (if cache.isInWindow s then (cache.winEnd + 1) % 4096 else s)
        (uint16 (((s + cache.winSize : ℕ) % 4096 : ℤ) - 1))).bind fun cache' =>
          winsizeAssert { cache' with
            winStart := s
            winEnd := uint16 (((s + cache.winSize : ℕ) % 4096 : ℤ) - 1) } := by
  unfold updateWithBlockAckReq
  cases hin : cache.isInWindow s with
  | true => simp only [hold, hne, Option.bind_some, Bool.false_eq_true, if_false, if_true, ne_eq,
      not_false_eq_true]
  | false => simp only [hold, Option.bind_some, Bool.false_eq_true, if_false]

end BlockAckCache

/-! ## The bitmap of a compressed response -/

namespace CtrlBAckResponseHeader

variable {header header' : CtrlBAckResponseHeader}

theorem isInBitmap_eq {seq : ℕ} (hstart : header.startingSeq < 4096) :
    header.isInBitmap seq = decide ((seq + 4096 - header.startingSeq) % 4096 < 64) := by
  rw [isInBitmap, intDistance_eq (by omega)]
  exact decide_eq_decide.mpr (by omega)

/-- The assertion of `IndexInBitmap` holds for a number in the bitmap. -/
theorem indexInBitmap_eq {seq : ℕ} (hstart : header.startingSeq < 4096) (hseq : seq < 4096)
    (hin : (seq + 4096 - header.startingSeq) % 4096 < 64) :
    header.indexInBitmap seq = some ((seq + 4096 - header.startingSeq) % 4096) := by
  rw [indexInBitmap]
  split
  · rw [if_pos (by omega)]
    congr 1
    omega
  · rw [if_pos (by omega)]
    congr 1
    omega

theorem ushiftRight_and_one (b : BitVec 64) (k : ℕ) :
    (b >>> k &&& 1#64 == 1#64) = b.getLsbD k := by
  rw [BitVec.and_one_eq_setWidth_ofBool_getLsbD, BitVec.getLsbD_ushiftRight, Nat.add_zero]
  cases b.getLsbD k <;> rfl

theorem getLsbD_or_shiftLeft (b : BitVec 64) {k j : ℕ} (hj : j < 64) :
    (b ||| 1#64 <<< k).getLsbD j = (b.getLsbD j || decide (j = k)) := by
  by_cases h : j = k
  · simp [h]
    omega
  · simp [h]
    omega

theorem isPacketReceived_eq {seq : ℕ} (htype : header.type = .compressedBlockAck)
    (hstart : header.startingSeq < 4096) (hseq : seq < 4096) :
    header.isPacketReceived seq =
      some (header.compressedBitmap.getLsbD ((seq + 4096 - header.startingSeq) % 4096)) := by
  rw [isPacketReceived, isInBitmap_eq hstart, htype]
  by_cases hin : (seq + 4096 - header.startingSeq) % 4096 < 64
  · rw [if_pos (decide_eq_true hin)]
    simp only [indexInBitmap_eq hstart hseq hin, Option.map_some, ushiftRight_and_one]
  · rw [if_neg (by simpa using hin), BitVec.getLsbD_of_ge _ _ (by omega)]

/-- The numbers that the header marks in addition. -/
structure Adds (header header' : CtrlBAckResponseHeader) (p : ℕ → Prop) : Prop where
  type : header'.type = header.type
  startingSeq : header'.startingSeq = header.startingSeq
  marks : ∀ s < 4096, header'.isPacketReceived s = some true ↔
    header.isPacketReceived s = some true ∨ p s

theorem adds_setReceivedPacket {seq : ℕ} (htype : header.type = .compressedBlockAck)
    (hstart : header.startingSeq < 4096) (hseq : seq < 4096)
    (hin : (seq + 4096 - header.startingSeq) % 4096 < 64) :
    ∃ header', header.setReceivedPacket seq = some header' ∧ header.Adds header' (· = seq) := by
  rw [setReceivedPacket, isInBitmap_eq hstart, if_pos (decide_eq_true hin), htype]
  simp only [indexInBitmap_eq hstart hseq hin, Option.map_some]
  refine ⟨_, rfl, htype.symm, rfl, fun s hs => ?_⟩
  rw [isPacketReceived_eq htype hstart hs,
    @isPacketReceived_eq ⟨_, header.startingSeq, header.bitmap, _⟩ s rfl hstart hs]
  simp only [Option.some.injEq]
  by_cases hlt : (s + 4096 - header.startingSeq) % 4096 < 64
  · rw [getLsbD_or_shiftLeft _ hlt, Bool.or_eq_true, decide_eq_true_eq]
    have heq : (s + 4096 - header.startingSeq) % 4096 =
        (seq + 4096 - header.startingSeq) % 4096 ↔ s = seq := by omega
    rw [heq]
  · have hne : s ≠ seq := fun heq => hlt (heq ▸ hin)
    simp [BitVec.getLsbD_of_ge _ _ (Nat.le_of_not_lt hlt), hne]

/-- The loop over some numbers of the bitmap. -/
theorem adds_foldlM (bitmap : ℕ → BitVec 16) (l : List ℕ)
    (htype : header.type = .compressedBlockAck) (hstart : header.startingSeq < 4096)
    (hl : ∀ i ∈ l, i < 4096 ∧ (i + 4096 - header.startingSeq) % 4096 < 64) :
    ∃ header', l.foldlM (fun header i => if bitmap i = 1#16 then header.setReceivedPacket i
        else some header) header = some header' ∧
      header.Adds header' (fun s => s ∈ l ∧ bitmap s = 1#16) := by
  induction l generalizing header with
  | nil => exact ⟨header, rfl, rfl, rfl, by simp⟩
  | cons i l ih =>
    obtain ⟨hi, hin⟩ := hl i List.mem_cons_self
    have hrest := fun j hj => hl j (List.mem_cons_of_mem i hj)
    rw [List.foldlM_cons]
    by_cases hbit : bitmap i = 1#16
    · obtain ⟨header₁, hset, hadds₁⟩ := adds_setReceivedPacket htype hstart hi hin
      obtain ⟨header', hfold, hadds⟩ := ih (hadds₁.type.trans htype)
        (hadds₁.startingSeq ▸ hstart) (hadds₁.startingSeq ▸ hrest)
      rw [if_pos hbit, hset]
      refine ⟨header', hfold, hadds.type.trans hadds₁.type,
        hadds.startingSeq.trans hadds₁.startingSeq, fun s hs => ?_⟩
      rw [hadds.marks s hs, hadds₁.marks s hs, List.mem_cons, or_assoc]
      apply or_congr_right
      constructor
      · intro h
        rcases h with rfl | ⟨hmem, hone⟩
        · exact ⟨.inl rfl, hbit⟩
        · exact ⟨.inr hmem, hone⟩
      · intro ⟨hmem, hone⟩
        exact hmem.imp id fun hmem => ⟨hmem, hone⟩
    · obtain ⟨header', hfold, hadds⟩ := ih htype hstart hrest
      rw [if_neg hbit]
      refine ⟨header', hfold, hadds.type, hadds.startingSeq, fun s hs => ?_⟩
      rw [hadds.marks s hs, List.mem_cons]
      apply or_congr_right
      constructor
      · intro ⟨hmem, hone⟩
        exact ⟨.inr hmem, hone⟩
      · intro ⟨hmem, hone⟩
        exact ⟨hmem.resolve_left fun heq => hbit (heq ▸ hone), hone⟩

end CtrlBAckResponseHeader

namespace BlockAckCache

variable {cache : BlockAckCache} {header : CtrlBAckResponseHeader}

/-- A window that does not end at 4095 is copied to the response. -/
theorem fillBlockAckBitmap_adds (htype : header.type = .compressedBlockAck)
    (hstart : header.startingSeq < 4096) (hsize : 0 < cache.winSize ∧ cache.winSize ≤ 64)
    (hend : (header.startingSeq + cache.winSize) % 4096 ≠ 0) :
    ∃ header', cache.fillBlockAckBitmap header = some header' ∧ header.Adds header' (fun s =>
      (s + 4096 - header.startingSeq) % 4096 < cache.winSize ∧ cache.bitmap s = 1#16) := by
  have hlast : ((((header.startingSeq + cache.winSize : ℕ) % 4096 : ℤ) - 1) % 4294967296).toNat =
      (header.startingSeq + cache.winSize + 4095) % 4096 := by omega
  have hlt : (header.startingSeq + cache.winSize + 4095) % 4096 < 4096 := Nat.mod_lt _ (by omega)
  have hdistance : ringDistance 4096 header.startingSeq
      ((header.startingSeq + cache.winSize + 4095) % 4096) + 1 = cache.winSize := by
    rw [ringDistance_4096 hstart hlt]
    omega
  rw [fillBlockAckBitmap, htype]
  dsimp only
  rw [hlast, ringLoop_eq_foldlM hstart hlt (by omega), hdistance]
  have hmem : ∀ s < 4096, s ∈ ringArc 4096 header.startingSeq cache.winSize ↔
      (s + 4096 - header.startingSeq) % 4096 < cache.winSize := by
    intro s hs
    rw [mem_ringArc hstart hs (by omega), ringDistance_4096 hstart hs]
  obtain ⟨header', hfold, hadds⟩ := CtrlBAckResponseHeader.adds_foldlM cache.bitmap
    (ringArc 4096 header.startingSeq cache.winSize) htype hstart (fun i hi => by
      have hi' := lt_of_mem_ringArc hstart hi
      have hlen := (hmem i hi').mp hi
      exact ⟨hi', by omega⟩)
  refine ⟨header', hfold, hadds.type, hadds.startingSeq, fun s hs => ?_⟩
  rw [hadds.marks s hs, hmem s hs]

/-- A window that ends at 4095 is never copied. -/
theorem fillBlockAckBitmap_eq_none (htype : header.type = .compressedBlockAck)
    (hstart : header.startingSeq < 4096)
    (hend : (header.startingSeq + cache.winSize) % 4096 = 0) :
    cache.fillBlockAckBitmap header = none := by
  have hlast : ((((header.startingSeq + cache.winSize : ℕ) % 4096 : ℤ) - 1) % 4294967296).toNat =
      4294967295 := by omega
  rw [fillBlockAckBitmap, htype]
  dsimp only
  rw [hlast]
  exact ringLoop_eq_none hstart (by omega) 4096

end BlockAckCache

end Ns3Noc.Wifi
