import Ns3Noc.BlockAckCache
import Ns3Noc.PartialRuns

/-!
# The block ack scoreboard

What the cache is for: a window of sequence numbers and, for each of them, the fragments recorded
since it entered.
-/
namespace Ns3Noc.Wifi

open PartialRuns

structure Scoreboard where
  start : ℕ
  size : ℕ
  recorded : ℕ → Finset (Fin 16)

namespace Scoreboard

def Covers (board : Scoreboard) (s : ℕ) : Prop := (s + 4096 - board.start) % 4096 < board.size

def Old (board : Scoreboard) (s : ℕ) : Prop := 2048 ≤ (s + 4096 - board.start) % 4096

instance (board : Scoreboard) (s : ℕ) : Decidable (board.Covers s) :=
  inferInstanceAs (Decidable (_ < _))

instance (board : Scoreboard) (s : ℕ) : Decidable (board.Old s) :=
  inferInstanceAs (Decidable (_ ≤ _))

/-- Numbers enter empty. -/
def moveTo (board : Scoreboard) (start : ℕ) : Scoreboard :=
  { board with
    start := start
    recorded := fun s => if board.Covers s then board.recorded s else ∅ }

def record (board : Scoreboard) (hdr : MpduHeader) : Scoreboard :=
  { board with
    recorded := Function.update board.recorded hdr.sequenceNumber
      (insert hdr.fragmentNumber (board.recorded hdr.sequenceNumber)) }

/-- An MPDU ahead of the window becomes its end. -/
def mpdu (board : Scoreboard) (hdr : MpduHeader) : Scoreboard :=
  if board.Old hdr.sequenceNumber then board
  else if board.Covers hdr.sequenceNumber then board.record hdr
  else (board.moveTo ((hdr.sequenceNumber + 4097 - board.size) % 4096)).record hdr

def blockAckReq (board : Scoreboard) (startingSeq : ℕ) : Scoreboard :=
  if board.Old startingSeq then board else board.moveTo startingSeq

end Scoreboard

/-! ## Bits and recorded fragments -/

/-- Bits of earlier fragments that were not cleared are harmless next to a fragment other than 0. -/
def Agrees (bits : BitVec 16) (fragments : Finset (Fin 16)) : Prop :=
  (∃ f ∈ fragments, f ≠ 0 ∧ bits.getLsbD f) ∨ bits = 0#16 ∧ fragments = ∅ ∨
    bits = 1#16 ∧ fragments = {0}

namespace Agrees

variable {bits : BitVec 16} {fragments : Finset (Fin 16)} {f : Fin 16}

theorem eq_one_iff (h : Agrees bits fragments) : bits = 1#16 ↔ fragments = {0} := by
  rcases h with ⟨f, hf, hne, hbit⟩ | ⟨rfl, rfl⟩ | ⟨rfl, rfl⟩
  · constructor
    · intro h
      have hzero : (f : ℕ) ≠ 0 := fun h => hne (Fin.ext h)
      simp [h, hzero] at hbit
    · intro h
      rw [h, Finset.mem_singleton] at hf
      exact absurd hf hne
  · simp
  · simp

theorem empty : Agrees 0#16 ∅ := .inr (.inl ⟨rfl, rfl⟩)

theorem getLsbD_record (bits : BitVec 16) (f : Fin 16) :
    (bits ||| 1#16 <<< f.val).getLsbD f = true := by
  simp

/-- The first fragment of a number, on top of bits that it hides. -/
theorem enter (hbits : f = 0 → bits = 0#16 ∨ bits = 1#16) :
    Agrees (bits ||| 1#16 <<< f.val) {f} := by
  by_cases hf : f = 0
  · subst hf
    rcases hbits rfl with rfl | rfl
    · exact .inr (.inr ⟨rfl, rfl⟩)
    · exact .inr (.inr ⟨rfl, rfl⟩)
  · exact .inl ⟨f, Finset.mem_singleton_self f, hf, getLsbD_record bits f⟩

theorem record (h : Agrees bits fragments) (f : Fin 16) :
    Agrees (bits ||| 1#16 <<< f.val) (insert f fragments) := by
  rcases h with ⟨g, hg, hne, hbit⟩ | ⟨rfl, rfl⟩ | ⟨rfl, rfl⟩
  · exact .inl ⟨g, Finset.mem_insert_of_mem hg, hne, by rw [BitVec.getLsbD_or, hbit, Bool.true_or]⟩
  · exact enter fun _ => .inl rfl
  · by_cases hf : f = 0
    · subst hf
      exact .inr (.inr ⟨rfl, rfl⟩)
    · exact .inl ⟨f, Finset.mem_insert_self f _, hf, getLsbD_record 1#16 f⟩

end Agrees

/-- Bits other than that of fragment 0 are not hidden by it. -/
theorem eq_zero_or_one_of_or {bits : BitVec 16} (h : bits ||| 1#16 = 1#16) :
    bits = 0#16 ∨ bits = 1#16 := by
  have hand : bits &&& 1#16 = bits := by
    rw [← h, BitVec.and_comm]
    ext i hi
    simp
    exact .inl
  rw [BitVec.and_one_eq_setWidth_ofBool_getLsbD] at hand
  rw [← hand]
  cases bits.getLsbD 0
  · exact .inl rfl
  · exact .inr rfl

/-! ## The cache follows the scoreboard -/

/-- Positions are compared by their distance from the start of the window. -/
theorem offset_add {start s k : ℕ} (hstart : start < 4096) (hs : s < 4096) (hk : k ≤ 4096) :
    (s + 4096 - (start + k) % 4096) % 4096 = ((s + 4096 - start) % 4096 + 4096 - k) % 4096 := by
  omega

theorem offset_lt_iff {p k n : ℕ} (hp : p < 4096) (hkn : k + n ≤ 4096) :
    (p + 4096 - k) % 4096 < n ↔ k ≤ p ∧ p < k + n := by
  omega

theorem offset_start {start k : ℕ} (hstart : start < 4096) (hk : k < 4096) :
    ((start + k) % 4096 + 4096 - start) % 4096 = k := by
  omega

theorem offset_of_le {p k : ℕ} (hp : p < 4096) (hkp : k ≤ p) : (p + 4096 - k) % 4096 = p - k := by
  omega

/-- `k` positions down. -/
theorem add_mod_sub {start p k : ℕ} (hk : k ≤ p) (hle : k ≤ 4096) :
    ((start + p) % 4096 + (4096 - k)) % 4096 = (start + (p - k)) % 4096 := by
  omega

theorem add_offset {start s : ℕ} (hstart : start < 4096) (hs : s < 4096) :
    (start + (s + 4096 - start) % 4096) % 4096 = s := by
  omega

/-- The positions from distance `f` to distance `l` are cleared. -/
theorem resetPortionOfBitmap_offset (cache : BlockAckCache) {start f l : ℕ}
    (hstart : start < 4096) (hfl : f ≤ l) (hl : l < 4096) :
    ∃ bitmap, cache.resetPortionOfBitmap ((start + f) % 4096) ((start + l) % 4096) =
        some { cache with bitmap := bitmap } ∧
      ∀ s < 4096, bitmap s =
        if f ≤ (s + 4096 - start) % 4096 ∧ (s + 4096 - start) % 4096 < l + 1 then 0
        else cache.bitmap s := by
  obtain ⟨bitmap, hreset, hbitmap⟩ := @BlockAckCache.resetPortionOfBitmap_eq cache
    ((start + f) % 4096) ((start + l) % 4096) (Nat.mod_lt _ (by decide)) (Nat.mod_lt _ (by decide))
  refine ⟨bitmap, hreset, fun s hs => ?_⟩
  have hp := Nat.mod_lt (s + 4096 - start) (show 0 < 4096 by decide)
  have hiff := @offset_lt_iff _ f (l + 1 - f) hp (by omega)
  rw [Nat.add_sub_cancel' (by omega)] at hiff
  rw [hbitmap s hs, offset_add hstart hs (by omega),
    offset_add hstart (Nat.mod_lt _ (by decide)) (by omega), offset_start hstart hl,
    @offset_of_le l f hl hfl]
  apply if_congr _ rfl rfl
  rw [← hiff, Nat.succ_sub hfl, Nat.lt_succ_iff]

structure Follows (cache : BlockAckCache) (board : Scoreboard) : Prop where
  winStart : cache.winStart = board.start
  winStart_lt : board.start < 4096
  winSize : cache.winSize = board.size
  size_pos : 0 < board.size
  size_le : board.size ≤ 64
  winEnd : cache.winEnd = (board.start + (board.size - 1)) % 4096
  bitmap : ∀ s < 4096, board.Covers s → Agrees (cache.bitmap s) (board.recorded s)

namespace Follows

variable {cache cache' : BlockAckCache} {board : Scoreboard} {hdr : MpduHeader} {s : ℕ}

theorem isOldPacket (h : Follows cache board) (hs : s < 4096) :
    qosUtilsIsOldPacket cache.winStart s = some (decide (board.Old s)) := by
  rw [h.winStart, qosUtilsIsOldPacket_eq h.winStart_lt hs]
  rfl

theorem isInWindow (h : Follows cache board) : cache.isInWindow s = decide (board.Covers s) := by
  rw [BlockAckCache.isInWindow_eq (h.winStart ▸ h.winStart_lt), h.winStart, h.winSize]
  rfl

/-- One position changes. -/
theorem record (h : Follows cache board) {bitmap : ℕ → BitVec 16}
    (hother : ∀ s : ℕ, s < 4096 → s ≠ hdr.sequenceNumber → bitmap s = cache.bitmap s)
    (hagrees : Agrees (bitmap hdr.sequenceNumber)
      (insert hdr.fragmentNumber (board.recorded hdr.sequenceNumber))) :
    Follows { cache with bitmap := bitmap } (board.record hdr) := by
  refine ⟨h.winStart, h.winStart_lt, h.winSize, h.size_pos, h.size_le, h.winEnd, ?_⟩
  intro s hs hcovers
  rw [Scoreboard.record]
  dsimp only
  by_cases heq : s = hdr.sequenceNumber
  · rw [heq, Function.update_self]
    exact hagrees
  · rw [Function.update_of_ne heq, hother s hs heq]
    exact h.bitmap s hs hcovers

/-- The window moves, and the bitmap is cleared where numbers enter. -/
theorem moveTo (h : Follows cache board) {start : ℕ} (hstart : start < 4096)
    {bitmap : ℕ → BitVec 16}
    (hbitmap : ∀ s < 4096, (s + 4096 - start) % 4096 < board.size →
      bitmap s = if board.Covers s then cache.bitmap s else 0) :
    Follows
      { cache with
        winStart := start
        winEnd := (start + (board.size - 1)) % 4096
        bitmap := bitmap }
      (board.moveTo start) := by
  refine ⟨rfl, hstart, h.winSize, h.size_pos, h.size_le, rfl, ?_⟩
  intro s hs hcovers
  rw [Scoreboard.moveTo]
  dsimp only
  rw [hbitmap s hs hcovers]
  split
  · next hold => exact h.bitmap s hs hold
  · exact .empty

/-- The same with the cleared positions by their distance from the start. -/
theorem moveTo_offset (h : Follows cache board) {k f l : ℕ} (hk : k < 2048)
    {bitmap : ℕ → BitVec 16}
    (hbitmap : ∀ s < 4096, bitmap s =
      if f ≤ (s + 4096 - board.start) % 4096 ∧ (s + 4096 - board.start) % 4096 < l + 1 then 0
      else cache.bitmap s)
    (hcleared : ∀ p, k ≤ p → p < k + board.size → (f ≤ p ∧ p < l + 1 ↔ board.size ≤ p)) :
    Follows
      { cache with
        winStart := (board.start + k) % 4096
        winEnd := ((board.start + k) % 4096 + (board.size - 1)) % 4096
        bitmap := bitmap }
      (board.moveTo ((board.start + k) % 4096)) := by
  have hle := h.size_le
  refine h.moveTo (Nat.mod_lt _ (by decide)) fun s hs hin => ?_
  have hp := Nat.mod_lt (s + 4096 - board.start) (show 0 < 4096 by decide)
  rw [offset_add h.winStart_lt hs (by omega), offset_lt_iff hp (by omega)] at hin
  have hiff := hcleared _ hin.1 hin.2
  rw [hbitmap s hs]
  by_cases hc : board.Covers s
  · rw [if_pos hc, if_neg (fun hno => absurd (hiff.mp hno) (Nat.not_le.mpr hc))]
  · rw [if_neg hc, if_pos (hiff.mpr (Nat.not_lt.mp hc))]

/-- The only number that enters without being cleared is that of the MPDU. -/
def HidesStaleBits (cache : BlockAckCache) (hdr : MpduHeader) : Prop :=
  hdr.fragmentNumber = 0 → qosUtilsIsOldPacket cache.winStart hdr.sequenceNumber = some false →
    cache.isInWindow hdr.sequenceNumber = false →
    cache.bitmap hdr.sequenceNumber = 0#16 ∨ cache.bitmap hdr.sequenceNumber = 1#16

/-- An MPDU ahead of the window. -/
theorem updateWithMpdu_ahead (h : Follows cache board) (hold : ¬board.Old hdr.sequenceNumber)
    (hcovers : ¬board.Covers hdr.sequenceNumber) :
    ∃ bitmap, cache.updateWithMpdu hdr = some (BlockAckCache.record
        { cache with
          winStart := (hdr.sequenceNumber + 4097 - board.size) % 4096
          winEnd := hdr.sequenceNumber
          bitmap := bitmap } hdr) ∧
      bitmap hdr.sequenceNumber = cache.bitmap hdr.sequenceNumber ∧
      ∀ s : ℕ, s < 4096 → s ≠ hdr.sequenceNumber →
        (s + 4096 - (hdr.sequenceNumber + 4097 - board.size) % 4096) % 4096 < board.size →
        bitmap s = if board.Covers s then cache.bitmap s else 0 := by
  obtain ⟨seq, hseq⟩ : ∃ seq : ℕ, seq = hdr.sequenceNumber := ⟨_, rfl⟩
  rw [← hseq] at hold hcovers ⊢
  have hlt : seq < 4096 := hseq ▸ hdr.sequenceNumber.isLt
  have hstart := h.winStart_lt
  have hpos := h.size_pos
  have hle := h.size_le
  obtain ⟨q, hq⟩ : ∃ q, q = (seq + 4096 - board.start) % 4096 := ⟨_, rfl⟩
  have hsize_le : board.size ≤ q := by
    rw [hq]
    exact Nat.le_of_not_lt hcovers
  have hq_lt : q < 2048 := by
    rw [hq]
    exact Nat.lt_of_not_le hold
  have hseq_eq : (board.start + q) % 4096 = seq := hq ▸ add_offset hstart hlt
  have hdelta : (seq + 4096 - cache.winEnd) % 4096 = q + 1 - board.size := by
    rw [h.winEnd, offset_add hstart hlt (by omega), ← hq, offset_of_le (by omega) (by omega)]
    exact Nat.sub_sub_right q hpos
  have hnew : (seq + 4097 - board.size) % 4096 =
      (board.start + (q + 1 - board.size)) % 4096 := by
    rw [← hseq_eq, ← Nat.sub_sub_right q hpos, ← add_mod_sub (by omega) (by omega)]
    congr 1
    clear hseq_eq hq hdelta
    omega
  have hassert (bitmap : ℕ → BitVec 16) := @BlockAckCache.winsizeAssert_eq
    ⟨(board.start + (q + 1 - board.size)) % 4096, cache.winSize, seq, bitmap⟩
    (Nat.mod_lt _ (by decide)) (by
      dsimp only
      rw [offset_add hstart hlt (by omega), ← hq, h.winSize,
        offset_of_le (by omega) (by omega)]
      clear hseq_eq hq hdelta hnew
      omega)
  have hoffset : ∀ s < 4096, s ≠ seq → (s + 4096 - board.start) % 4096 ≠ q := by
    intro s hs hne heq
    exact hne (by rw [← add_offset hstart hs, heq, hseq_eq])
  rw [BlockAckCache.updateWithMpdu]
  dsimp only
  rw [← hseq, h.isOldPacket hlt, h.isInWindow, decide_eq_false hold, decide_eq_false hcovers,
    Option.bind_some, if_neg Bool.false_ne_true, if_neg Bool.false_ne_true,
    uint16_intDistance (by rw [h.winEnd]; exact (Nat.mod_lt _ (by decide)).le), hdelta]
  rw [hnew]
  clear hnew hdelta
  split
  · next hgt =>
    have hfirst : (cache.winEnd + 1) % 4096 = (board.start + board.size) % 4096 := by
      rw [h.winEnd, Nat.mod_add_mod, Nat.add_assoc, Nat.sub_add_cancel hpos]
    have hlast : uint16 ((seq - 1 + 4096 : ℤ).tmod 4096) = (board.start + (q - 1)) % 4096 := by
      rw [← add_mod_sub (by omega) (by omega), hseq_eq, Int.tmod_eq_emod_of_nonneg (by omega),
        uint16]
      clear hseq_eq hq hfirst
      omega
    obtain ⟨bitmap, hreset, hcleared⟩ := resetPortionOfBitmap_offset cache hstart
      (show board.size ≤ q - 1 by omega) (by omega)
    rw [Nat.sub_add_cancel (by omega)] at hcleared
    rw [← hfirst, ← hlast] at hreset
    clear hfirst hlast
    refine ⟨bitmap, ?_, ?_, fun s hs hne hin => ?_⟩
    · rw [hreset, Option.bind_some]
      dsimp only
      rw [h.winStart, hassert]
      rfl
    · rw [hcleared seq hlt, ← hq, if_neg (by omega)]
    · have hp := Nat.mod_lt (s + 4096 - board.start) (show 0 < 4096 by decide)
      rw [offset_add hstart hs (by omega), offset_lt_iff hp (by omega)] at hin
      have hq_ne := hoffset s hs hne
      rw [hcleared s hs]
      by_cases hc : board.Covers s
      · have hno : ¬(board.size ≤ (s + 4096 - board.start) % 4096 ∧
            (s + 4096 - board.start) % 4096 < q) := fun hno => absurd hno.1 (Nat.not_le.mpr hc)
        rw [if_pos hc, if_neg hno]
      · have hin : board.size ≤ (s + 4096 - board.start) % 4096 ∧
            (s + 4096 - board.start) % 4096 < q := by
          rw [Scoreboard.Covers] at hc
          omega
        rw [if_neg hc, if_pos hin]
  · next hle =>
    refine ⟨cache.bitmap, ?_, rfl, fun s hs hne hin => ?_⟩
    · rw [Option.bind_some, h.winStart, hassert]
      rfl
    · have hp := Nat.mod_lt (s + 4096 - board.start) (show 0 < 4096 by decide)
      rw [offset_add hstart hs (by omega), offset_lt_iff hp (by omega)] at hin
      have hq_ne := hoffset s hs hne
      have hc : board.Covers s := by
        rw [Scoreboard.Covers]
        omega
      rw [if_pos hc]

theorem updateWithMpdu (h : Follows cache board) (hok : HidesStaleBits cache hdr) :
    ∃ cache', cache.updateWithMpdu hdr = some cache' ∧ Follows cache' (board.mpdu hdr) := by
  have hlt := hdr.sequenceNumber.isLt
  rw [HidesStaleBits, h.isOldPacket hlt, h.isInWindow] at hok
  by_cases hold : board.Old hdr.sequenceNumber
  · refine ⟨cache, BlockAckCache.updateWithMpdu_of_old ?_, ?_⟩
    · rw [h.isOldPacket hlt, decide_eq_true hold]
    · rw [Scoreboard.mpdu, if_pos hold]
      exact h
  · rw [Scoreboard.mpdu, if_neg hold]
    by_cases hcovers : board.Covers hdr.sequenceNumber
    · refine ⟨cache.record hdr, BlockAckCache.updateWithMpdu_of_isInWindow ?_ ?_, ?_⟩
      · rw [h.isOldPacket hlt, decide_eq_false hold]
      · rw [h.isInWindow, decide_eq_true hcovers]
      · rw [if_pos hcovers]
        refine h.record (fun s _ hne => Function.update_of_ne hne _ _) ?_
        rw [Function.update_self]
        exact (h.bitmap _ hlt hcovers).record _
    · obtain ⟨bitmap, hupdate, hseq, hbitmap⟩ := h.updateWithMpdu_ahead hold hcovers
      refine ⟨_, hupdate, ?_⟩
      rw [if_neg hcovers]
      have hpos := h.size_pos
      have hle := h.size_le
      have hcleared := @moveTo cache board h ((hdr.sequenceNumber + 4097 - board.size) % 4096)
        (Nat.mod_lt _ (by decide)) (Function.update bitmap hdr.sequenceNumber 0#16)
        (fun s hs hin => by
          by_cases heq : s = hdr.sequenceNumber
          · rw [heq, Function.update_self, if_neg hcovers, BitVec.ofNat_eq_ofNat]
          · rw [Function.update_of_ne heq]
            exact hbitmap s hs heq hin)
      have hrecord := @record _ _ hdr hcleared
        (Function.update bitmap hdr.sequenceNumber
          (bitmap hdr.sequenceNumber ||| 1#16 <<< hdr.fragmentNumber.val))
        (fun s _ hne => by
          rw [Function.update_of_ne hne]
          exact (Function.update_of_ne hne _ _).symm)
        (by
          rw [Function.update_self, hseq, Scoreboard.moveTo]
          dsimp only
          rw [if_neg hcovers, Finset.insert_empty]
          exact .enter fun hf => hok hf (by rw [decide_eq_false hold]) (decide_eq_false hcovers))
      have hwinEnd : ((hdr.sequenceNumber + 4097 - board.size) % 4096 + (board.size - 1)) % 4096 =
          hdr.sequenceNumber := by
        clear hrecord hcleared hbitmap
        omega
      rw [hwinEnd] at hrecord
      exact hrecord

/-- Fragment 0 of a number that enters with other bits is not shown. -/
theorem updateWithMpdu_stale (h : Follows cache board) (hok : ¬HidesStaleBits cache hdr)
    (hupdate : cache.updateWithMpdu hdr = some cache') :
    (board.mpdu hdr).Covers hdr.sequenceNumber ∧
      (board.mpdu hdr).recorded hdr.sequenceNumber = {0} ∧
      cache'.bitmap hdr.sequenceNumber ≠ 1#16 := by
  have hlt := hdr.sequenceNumber.isLt
  have hpos := h.size_pos
  have hle := h.size_le
  rw [HidesStaleBits, h.isOldPacket hlt, h.isInWindow, Option.some.injEq, decide_eq_false_iff_not,
    decide_eq_false_iff_not] at hok
  push Not at hok
  obtain ⟨hfragment, hold, hcovers, hzero, hone⟩ := hok
  obtain ⟨bitmap, hahead, hseq, -⟩ := h.updateWithMpdu_ahead hold hcovers
  obtain rfl := Option.some.inj (hahead.symm.trans hupdate)
  rw [Scoreboard.mpdu, if_neg hold, if_neg hcovers]
  refine ⟨?_, ?_, ?_⟩
  · simp only [Scoreboard.Covers, Scoreboard.record, Scoreboard.moveTo]
    omega
  · simp only [Scoreboard.record, Scoreboard.moveTo, Function.update_self, if_neg hcovers]
    rw [hfragment, Finset.insert_empty]
  · intro hrecord
    rw [BlockAckCache.record] at hrecord
    dsimp only at hrecord
    rw [Function.update_self, hfragment, hseq] at hrecord
    exact (eq_zero_or_one_of_or hrecord).elim hzero hone

/-- A request that moves the window does not move its end to 4095. -/
def EndsBelowWrap (cache : BlockAckCache) (startingSeq : ℕ) : Prop :=
  qosUtilsIsOldPacket cache.winStart startingSeq = some false → startingSeq ≠ cache.winStart →
    (startingSeq + cache.winSize) % 4096 ≠ 0

theorem updateWithBlockAckReq (h : Follows cache board) (hs : s < 4096)
    (hok : EndsBelowWrap cache s) :
    ∃ cache', cache.updateWithBlockAckReq s = some cache' ∧
      Follows cache' (board.blockAckReq s) := by
  have hstart := h.winStart_lt
  have hpos := h.size_pos
  have hle := h.size_le
  rw [EndsBelowWrap, h.isOldPacket hs, h.winStart, h.winSize] at hok
  rw [Scoreboard.blockAckReq]
  by_cases hold : board.Old s
  · rw [if_pos hold]
    exact ⟨cache, BlockAckCache.updateWithBlockAckReq_of_old
      (by rw [h.isOldPacket hs, decide_eq_true hold]), h⟩
  · rw [if_neg hold]
    have hold' : qosUtilsIsOldPacket cache.winStart s = some false := by
      rw [h.isOldPacket hs, decide_eq_false hold]
    by_cases heq : s = board.start
    · refine ⟨cache, BlockAckCache.updateWithBlockAckReq_of_start hold' ?_ ?_, ?_⟩
      · rw [h.isInWindow, decide_eq_true_eq, Scoreboard.Covers, heq]
        omega
      · rw [heq, h.winStart]
      · refine ⟨h.winStart.trans heq.symm, hs, h.winSize, hpos, hle, ?_, ?_⟩
        · rw [h.winEnd, ← heq]
          rfl
        · intro t ht hcovers
          have hcovers' : board.Covers t := by
            rw [heq] at hcovers
            exact hcovers
          rw [Scoreboard.moveTo]
          dsimp only
          rw [if_pos hcovers']
          exact h.bitmap t ht hcovers'
    · obtain ⟨k, hk⟩ : ∃ k, k = (s + 4096 - board.start) % 4096 := ⟨_, rfl⟩
      have hs_eq : (board.start + k) % 4096 = s := hk ▸ add_offset hstart hs
      have hk_lt : k < 2048 := by
        rw [hk]
        exact Nat.lt_of_not_le hold
      have hend : uint16 (((s + cache.winSize : ℕ) % 4096 : ℤ) - 1) = (s + (board.size - 1)) % 4096 := by
        rw [uint16_pred (h.winSize ▸ hok (by rw [decide_eq_false hold]) heq), h.winSize,
          Nat.add_sub_assoc hpos]
      have hlast : (s + (board.size - 1)) % 4096 =
          (board.start + (k + (board.size - 1))) % 4096 := by
        rw [← hs_eq, Nat.mod_add_mod, Nat.add_assoc]
      have hfirst : (if cache.isInWindow s then (cache.winEnd + 1) % 4096 else s) =
          (board.start + max board.size k) % 4096 := by
        rw [h.isInWindow, h.winEnd, Nat.mod_add_mod, Nat.add_assoc, Nat.sub_add_cancel hpos]
        split
        · next hc =>
          have hc : k < board.size := hk ▸ of_decide_eq_true hc
          rw [max_eq_left hc.le]
        · next hc =>
          have hc : ¬k < board.size := hk ▸ fun hno => hc (decide_eq_true hno)
          rw [max_eq_right (by omega), hs_eq]
      obtain ⟨bitmap, hreset, hcleared⟩ := resetPortionOfBitmap_offset cache hstart
        (show max board.size k ≤ k + (board.size - 1) by omega) (by omega)
      have hassert := @BlockAckCache.winsizeAssert_eq
        ⟨s, cache.winSize, (s + (board.size - 1)) % 4096, bitmap⟩ hs (by
          dsimp only
          rw [offset_start hs (by omega), h.winSize, Nat.sub_add_cancel hpos])
      refine ⟨⟨s, cache.winSize, (s + (board.size - 1)) % 4096, bitmap⟩, ?_, ?_⟩
      · rw [BlockAckCache.updateWithBlockAckReq_of_ne hold' (h.winStart ▸ heq), hend, hfirst]
        rw [← hlast] at hreset
        rw [hreset, Option.bind_some]
        exact hassert
      · have hmove := h.moveTo_offset hk_lt hcleared fun p hkp hpk =>
          ⟨fun hp => (max_le_iff.mp hp.1).1, fun hp => ⟨max_le hp hkp, by
            rw [Nat.add_assoc, Nat.sub_add_cancel hpos]
            exact hpk⟩⟩
        rw [hs_eq] at hmove
        exact hmove

theorem updateWithBlockAckReq_eq_none (hs : s < 4096)
    (hok : ¬EndsBelowWrap cache s) : cache.updateWithBlockAckReq s = none := by
  rw [EndsBelowWrap] at hok
  push Not at hok
  obtain ⟨hold, hne, hend⟩ := hok
  rw [BlockAckCache.updateWithBlockAckReq_of_ne hold hne, uint16_pred_wrap hend,
    BlockAckCache.resetPortionOfBitmap_eq_none]
  · rfl
  · split
    · exact Nat.mod_lt _ (by decide)
    · exact hs
  · decide

theorem init {winStart winSize : ℕ} (hstart : winStart < 4096) (hpos : 0 < winSize)
    (hle : winSize ≤ 64) (hend : (winStart + winSize) % 4096 ≠ 0) :
    Follows (BlockAckCache.init winStart winSize) ⟨winStart, winSize, fun _ => ∅⟩ := by
  refine ⟨rfl, hstart, if_pos hle, hpos, hle, ?_, fun _ _ _ => .empty⟩
  simp only [BlockAckCache.init, if_pos hle, uint16_pred hend, Nat.add_sub_assoc hpos]

/-- A response whose window starts where that of the cache does. -/
theorem fillBlockAckBitmap (h : Follows cache board)
    (hend : (s + cache.winSize) % 4096 ≠ 0) (hs : s < 4096) :
    ∃ header, cache.fillBlockAckBitmap (.create .compressedBlockAck s) = some header ∧
      (header.startingSeq = cache.winStart → ∀ t < 4096,
        (header.isPacketReceived t = some true ↔ board.Covers t ∧ board.recorded t = {0})) := by
  obtain ⟨header, hfill, hadds⟩ := @BlockAckCache.fillBlockAckBitmap_adds cache
    (.create .compressedBlockAck s) rfl hs (h.winSize ▸ ⟨h.size_pos, h.size_le⟩) hend
  refine ⟨header, hfill, fun heq t ht => ?_⟩
  have hstart : s = board.start := hadds.startingSeq.symm.trans (heq.trans h.winStart)
  rw [hadds.marks t ht, CtrlBAckResponseHeader.isPacketReceived_eq rfl hs ht, h.winSize]
  have hempty : ∀ i, (CtrlBAckResponseHeader.create .compressedBlockAck s).compressedBitmap.getLsbD i
      = false := fun i => BitVec.getLsbD_zero
  rw [hempty, hstart]
  constructor
  · intro hmarks
    obtain ⟨hcovers, hone⟩ := hmarks.resolve_left (by simp)
    exact ⟨hcovers, (h.bitmap t ht hcovers).eq_one_iff.mp hone⟩
  · intro ⟨hcovers, hrecorded⟩
    exact .inr ⟨hcovers, (h.bitmap t ht hcovers).eq_one_iff.mpr hrecorded⟩

end Follows

/-! ## Runs -/

inductive CacheEvent where
  | mpdu (hdr : MpduHeader)
  | blockAckReq (startingSeq : Fin 4096)
  | fill (startingSeq : Fin 4096)
  deriving DecidableEq, Repr

/-- A cache beside its scoreboard, with the response just filled. -/
structure CacheRun where
  cache : BlockAckCache
  board : Scoreboard
  filled : Option CtrlBAckResponseHeader

namespace CacheRun

def start (winStart winSize : ℕ) : CacheRun :=
  ⟨.init winStart winSize, ⟨winStart, winSize, fun _ => ∅⟩, none⟩

def step (run : CacheRun) : CacheEvent → Option CacheRun
  | .mpdu hdr => (run.cache.updateWithMpdu hdr).map fun cache => ⟨cache, run.board.mpdu hdr, none⟩
  | .blockAckReq startingSeq => (run.cache.updateWithBlockAckReq startingSeq).map fun cache =>
      ⟨cache, run.board.blockAckReq startingSeq, none⟩
  | .fill startingSeq =>
    (run.cache.fillBlockAckBitmap (.create .compressedBlockAck startingSeq)).map fun header =>
      { run with filled := some header }

/-- The window of the cache is that of the scoreboard, its bitmap and the response just filled show
the numbers of the window with fragment 0 and no other. -/
structure Scores (run : CacheRun) : Prop where
  winStart : run.cache.winStart = run.board.start
  winSize : run.cache.winSize = run.board.size
  winEnd : run.cache.winEnd = (run.cache.winStart + run.cache.winSize - 1) % 4096
  bitmap : ∀ s < 4096, run.board.Covers s →
    (run.cache.bitmap s = 1#16 ↔ run.board.recorded s = {0})
  filled : ∀ header ∈ run.filled, header.startingSeq = run.cache.winStart → ∀ s < 4096,
    (header.isPacketReceived s = some true ↔ run.board.Covers s ∧ run.board.recorded s = {0})

/-- No window that is entered by a request or copied ends at 4095, and an MPDU of fragment 0 that
becomes the end of the window finds no bit of another fragment. -/
def Allows (run : CacheRun) : CacheEvent → Prop
  | .mpdu hdr => Follows.HidesStaleBits run.cache hdr
  | .blockAckReq startingSeq => Follows.EndsBelowWrap run.cache startingSeq
  | .fill startingSeq => (startingSeq + run.cache.winSize) % 4096 ≠ 0

structure Inv (run : CacheRun) : Prop where
  follows : Follows run.cache run.board
  filled : ∀ header ∈ run.filled, header.startingSeq = run.cache.winStart → ∀ s < 4096,
    (header.isPacketReceived s = some true ↔ run.board.Covers s ∧ run.board.recorded s = {0})

variable {run run' : CacheRun} {event : CacheEvent}

theorem Inv.scores (h : Inv run) : Scores run where
  winStart := h.follows.winStart
  winSize := h.follows.winSize
  winEnd := by
    rw [h.follows.winEnd, h.follows.winStart, h.follows.winSize,
      Nat.add_sub_assoc h.follows.size_pos]
  bitmap s hs hcovers := (h.follows.bitmap s hs hcovers).eq_one_iff
  filled := h.filled

theorem Inv.step (h : Inv run) (hok : run.Allows event) :
    ∃ run', run.step event = some run' ∧ Inv run' := by
  cases event with
  | mpdu hdr =>
    obtain ⟨cache, hupdate, hfollows⟩ := h.follows.updateWithMpdu hok
    refine ⟨⟨cache, run.board.mpdu hdr, none⟩, ?_, hfollows, ?_⟩
    · rw [CacheRun.step, hupdate, Option.map_some]
    · intro header hheader
      cases hheader
  | blockAckReq startingSeq =>
    obtain ⟨cache, hupdate, hfollows⟩ := h.follows.updateWithBlockAckReq startingSeq.isLt hok
    refine ⟨⟨cache, run.board.blockAckReq startingSeq, none⟩, ?_, hfollows, ?_⟩
    · rw [CacheRun.step, hupdate, Option.map_some]
    · intro header hheader
      cases hheader
  | fill startingSeq =>
    obtain ⟨header, hfill, hmarks⟩ := h.follows.fillBlockAckBitmap hok startingSeq.isLt
    refine ⟨{ run with filled := some header }, ?_, h.follows, ?_⟩
    · rw [CacheRun.step, hfill, Option.map_some]
    · intro header' hheader
      obtain rfl := Option.some.inj hheader
      exact hmarks

theorem Inv.not_scores (h : Inv run) (hok : ¬run.Allows event) (hstep : run.step event = some run') :
    ¬Scores run' := by
  cases event with
  | mpdu hdr =>
    obtain ⟨cache, hupdate, rfl⟩ := Option.map_eq_some_iff.mp hstep
    obtain ⟨hcovers, hrecorded, hbitmap⟩ := h.follows.updateWithMpdu_stale hok hupdate
    intro hscores
    exact hbitmap ((hscores.bitmap _ hdr.sequenceNumber.isLt hcovers).mpr hrecorded)
  | blockAckReq startingSeq =>
    rw [CacheRun.step, Follows.updateWithBlockAckReq_eq_none startingSeq.isLt hok] at hstep
    cases hstep
  | fill startingSeq =>
    have hnone := @BlockAckCache.fillBlockAckBitmap_eq_none run.cache
      (.create .compressedBlockAck startingSeq) rfl startingSeq.isLt (not_not.mp hok)
    rw [CacheRun.step, hnone] at hstep
    cases hstep

/-- The calls all return and the scoreboard is always right exactly where no window that is
initialised, requested or copied ends at 4095 and no number enters as the end of the window by its
fragment 0 with bits left from an earlier round. -/
theorem scores_iff {winStart winSize : ℕ} (hstart : winStart < 4096) (hpos : 0 < winSize)
    (hle : winSize ≤ 64) (events : List CacheEvent) :
    (PartialRuns.run step (start winStart winSize) events).isSome ∧
      Always step Scores (start winStart winSize) events ↔
    (winStart + winSize) % 4096 ≠ 0 ∧ Allowed step Allows (start winStart winSize) events := by
  by_cases hend : (winStart + winSize) % 4096 = 0
  · constructor
    · intro ⟨_, halways⟩
      have hwinEnd := halways.head.winEnd
      have hlt := Nat.mod_lt ((start winStart winSize).cache.winStart +
        (start winStart winSize).cache.winSize - 1) (show 0 < 4096 by decide)
      rw [← hwinEnd] at hlt
      simp only [start, BlockAckCache.init, if_pos hle, uint16_pred_wrap hend] at hlt
      exact absurd hlt (by decide)
    · intro ⟨hne, _⟩
      exact absurd hend hne
  · have hinv : Inv (start winStart winSize) :=
      ⟨.init hstart hpos hle hend, fun header hheader => by cases hheader⟩
    rw [completes_iff_allowed (fun _ => Inv.scores) (fun _ _ => Inv.step)
      (fun _ _ h hok _ => h.not_scores hok) hinv]
    exact ⟨fun h => ⟨hend, h⟩, And.right⟩

theorem scores_4_64 :
    (PartialRuns.run step (start 4 64) [.mpdu ⟨5, 0⟩, .blockAckReq 5, .fill 5]).isSome ∧
      Always step Scores (start 4 64) [.mpdu ⟨5, 0⟩, .blockAckReq 5, .fill 5] ↔
    (4 + 64) % 4096 ≠ 0 ∧
      Allowed step Allows (start 4 64) [.mpdu ⟨5, 0⟩, .blockAckReq 5, .fill 5] :=
  scores_iff (by decide) (by decide) (by decide) _

/-- A request for the window from 4032 to 4095 is never answered: the loop that clears the bitmap
does not end, whatever the fuel. -/
theorem blockAckReq_hangs :
    PartialRuns.run step (start 4000 64) [.blockAckReq 4032] = none ∧
      ∀ fuel, RingLoops.ringLoop 4096 (fun i bitmap => some (Function.update bitmap i 0#16))
        (uint16 (((4032 + 64 : ℕ) % 4096 : ℤ) - 1)) fuel
        (((start 4000 64).cache.winEnd + 1) % 4096) (start 4000 64).cache.bitmap = none := by
  have hnone : (start 4000 64).cache.updateWithBlockAckReq 4032 = none :=
    Follows.updateWithBlockAckReq_eq_none (by decide) (fun hok => hok rfl (by decide) (by decide))
  refine ⟨?_, fun fuel => ?_⟩
  · rw [run_cons, step]
    exact congrArg (fun cache => (Option.map _ cache).bind _) hnone
  · exact RingLoops.ringLoop_eq_none (by decide) (by decide) fuel

end CacheRun

end Ns3Noc.Wifi
