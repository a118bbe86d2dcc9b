import Ns3Noc.PartialRuns
import Ns3Noc.WhileLoops

/-!
# The packet loss counter of the UDP server

A circular bitmap remembers which of the last numbers have been received. A number takes the place
of the one that is a window below it, which is lost if its bit is not set.
-/
namespace Ns3Noc.PacketLoss
open PartialRuns WhileLoops

structure PacketLossCounter where
  lost : UInt32
  bitMapSize : UInt16
  lastMaxSeqNum : UInt32
  receiveBitMap : List (BitVec 8)
  deriving DecidableEq, Repr

namespace PacketLossCounter

/-- `none` is a failed assertion. -/
def setBitMapSize (c : PacketLossCounter) (winSize : UInt16) : Option PacketLossCounter :=
  if winSize % 8 = 0 then
    some { c with
      bitMapSize := winSize / 8
      receiveBitMap := List.replicate (winSize / 8).toNat 0xFF#8 }
  else none

def construct (bitmapSize : UInt8) : Option PacketLossCounter :=
  setBitMapSize ⟨0, 0, 0, []⟩ bitmapSize.toUInt16

def getLost (c : PacketLossCounter) : UInt32 := c.lost

/-- `m_bitMapSize * 8` -/
def window (c : PacketLossCounter) : ℕ := c.bitMapSize.toNat * 8

def getBit (c : PacketLossCounter) (seqNum : UInt32) : Bool :=
  (c.receiveBitMap.getD (seqNum.toNat % c.window / 8) 0 >>> (7 - seqNum.toNat % 8)) &&& 1#8 != 0#8

def setBit (c : PacketLossCounter) (seqNum : UInt32) (val : Bool) : PacketLossCounter :=
  { c with
    receiveBitMap := c.receiveBitMap.modify (seqNum.toNat % c.window / 8) fun byte =>
      if val then byte ||| 0x80#8 >>> (seqNum.toNat % 8)
      else byte &&& ~~~(0x80#8 >>> (seqNum.toNat % 8)) }

/-- One turn of the loop of `NotifyReceived`. -/
def notifyTurn (seqNum : UInt32) : UInt32 × PacketLossCounter → Turn (UInt32 × PacketLossCounter)
  | (i, c) =>
    if i ≤ seqNum then
      let counted := if c.getBit i then c else { c with lost := c.lost + 1 }
      .again (i + 1, counted.setBit i false)
    else .ends (i, c)

/-- `none` is a call that needs more fuel. -/
def notifyReceived (fuel : ℕ) (c : PacketLossCounter) (seqNum : UInt32) :
    Option PacketLossCounter :=
  match loop (notifyTurn seqNum) fuel (c.lastMaxSeqNum + 1, c) with
  | some (some (_, c)) =>
    let c := c.setBit seqNum true
    some (if c.lastMaxSeqNum < seqNum then { c with lastMaxSeqNum := seqNum } else c)
  | _ => none

section Fuel
variable {fuel more : ℕ} {c c' : PacketLossCounter} {n : UInt32} {seqs : List UInt32}

/-- More fuel does not change a call that returns. -/
theorem notifyReceived_mono (h : notifyReceived fuel c n = some c') (hle : fuel ≤ more) :
    notifyReceived more c n = some c' := by
  rw [notifyReceived] at h ⊢
  split at h
  · next hloop =>
    rw [loop_mono hloop hle]
    exact h
  · cases h

theorem run_mono (h : run (notifyReceived fuel) c seqs = some c') (hle : fuel ≤ more) :
    run (notifyReceived more) c seqs = some c' := by
  induction seqs generalizing c with
  | nil => exact h
  | cons n seqs ih =>
    obtain ⟨c₁, hcall, hrun⟩ := Option.bind_eq_some_iff.mp h
    rw [run_cons, notifyReceived_mono hcall hle]
    exact ih hrun

theorem allowed_mono {ok : PacketLossCounter → UInt32 → Prop}
    (h : run (notifyReceived fuel) c seqs = some c') (hle : fuel ≤ more)
    (hok : Allowed (notifyReceived fuel) ok c seqs) : Allowed (notifyReceived more) ok c seqs := by
  induction seqs generalizing c with
  | nil => exact True.intro
  | cons n seqs ih =>
    obtain ⟨c₁, hcall, hrun⟩ := Option.bind_eq_some_iff.mp h
    refine ⟨hok.1, fun c₂ hcall' => ?_⟩
    cases (notifyReceived_mono hcall hle).symm.trans hcall'
    exact ih hrun (hok.2 c₁ hcall)

end Fuel

/-! ## Bits of the map -/

theorem mask_getLsbD {k j : ℕ} (hk : k < 8) (hj : j < 8) :
    (0x80#8 >>> k).getLsbD (7 - j) = decide (k = j) := by
  have h : ∀ k j : Fin 8, (0x80#8 >>> k.val).getLsbD (7 - j.val) = decide (k = j) := by decide
  simpa [Fin.ext_iff] using h ⟨k, hk⟩ ⟨j, hj⟩

theorem lowest_ne_zero (byte : BitVec 8) (j : ℕ) :
    ((byte >>> j) &&& 1#8 != 0#8) = byte.getLsbD j := by
  rw [BitVec.and_one_eq_setWidth_ofBool_getLsbD]
  cases h : (byte >>> j).getLsbD 0 <;> simp_all

/-- The bit of a byte that is read for `j` after the bit for `k` has been written. -/
theorem written_bit (byte : BitVec 8) {k j : ℕ} (hk : k < 8) (hj : j < 8) (val : Bool) :
    (if val then byte ||| 0x80#8 >>> k else byte &&& ~~~(0x80#8 >>> k)).getLsbD (7 - j) =
      if k = j then val else byte.getLsbD (7 - j) := by
  have hlt : 7 - j < 8 := by omega
  have hmask := mask_getLsbD hk hj
  cases val
  · simp only [Bool.false_eq_true, if_false, BitVec.getLsbD_and, BitVec.getLsbD_not, hlt,
      decide_true, Bool.true_and, hmask]
    by_cases h : k = j <;> simp [h]
  · simp only [if_true, BitVec.getLsbD_or, hmask]
    by_cases h : k = j <;> simp [h]

/-- A written bit that had the value already changes nothing. -/
theorem written_same (byte : BitVec 8) {k : ℕ} (hk : k < 8) (h : byte.getLsbD (7 - k) = true) :
    byte ||| 0x80#8 >>> k = byte := by
  apply BitVec.eq_of_getLsbD_eq
  intro i hi
  have hmask := mask_getLsbD hk (show 7 - i < 8 by omega)
  rw [show 7 - (7 - i) = i by omega] at hmask
  rw [BitVec.getLsbD_or, hmask]
  by_cases heq : k = 7 - i
  · have hik : 7 - k = i := by omega
    rw [hik] at h
    simp [h]
  · simp [heq]

/-! ## Slots of the map -/

/-- The map has a byte for each eight numbers of the window. -/
def Sized (winSize : ℕ) (c : PacketLossCounter) : Prop :=
  c.window = winSize ∧ c.receiveBitMap.length = c.bitMapSize.toNat

theorem slot_eq_iff {winSize s t : ℕ} (hdvd : 8 ∣ winSize) :
    s % winSize = t % winSize ↔ s % winSize / 8 = t % winSize / 8 ∧ s % 8 = t % 8 := by
  have hs := Nat.mod_mod_of_dvd s hdvd
  have ht := Nat.mod_mod_of_dvd t hdvd
  omega

section Bits
variable {winSize : ℕ} {c : PacketLossCounter} {s t : UInt32}

theorem Sized.dvd (hc : Sized winSize c) : 8 ∣ winSize := ⟨c.bitMapSize.toNat, by
  rw [← hc.1, window, mul_comm]⟩

theorem Sized.index_lt (hc : Sized winSize c) (hpos : 0 < winSize) (s : UInt32) :
    s.toNat % winSize / 8 < c.receiveBitMap.length := by
  have hlt := Nat.mod_lt s.toNat hpos
  have hwindow := hc.1
  rw [window] at hwindow
  rw [hc.2]
  omega

@[simp] theorem setBit_window (c : PacketLossCounter) (s : UInt32) (val : Bool) :
    (c.setBit s val).window = c.window := rfl

@[simp] theorem setBit_lost (c : PacketLossCounter) (s : UInt32) (val : Bool) :
    (c.setBit s val).lost = c.lost := rfl

@[simp] theorem setBit_lastMaxSeqNum (c : PacketLossCounter) (s : UInt32) (val : Bool) :
    (c.setBit s val).lastMaxSeqNum = c.lastMaxSeqNum := rfl

theorem Sized.setBit (hc : Sized winSize c) (s : UInt32) (val : Bool) :
    Sized winSize (c.setBit s val) :=
  ⟨hc.1, by simpa [PacketLossCounter.setBit] using hc.2⟩

theorem getBit_setBit (hc : Sized winSize c) (hpos : 0 < winSize) (val : Bool) :
    (c.setBit s val).getBit t =
      if s.toNat % winSize = t.toNat % winSize then val else c.getBit t := by
  have hs := hc.index_lt hpos s
  have hs8 := Nat.mod_lt s.toNat (show 0 < 8 by decide)
  have ht8 := Nat.mod_lt t.toNat (show 0 < 8 by decide)
  simp only [getBit, setBit_window, hc.1, lowest_ne_zero]
  simp only [setBit, hc.1, List.getD_eq_getElem?_getD, List.getElem?_modify]
  by_cases hindex : s.toNat % winSize / 8 = t.toNat % winSize / 8
  · rw [← hindex, List.getElem?_eq_getElem hs]
    simp only [if_true, Option.map_eq_map, Option.map_some, Option.getD_some,
      written_bit _ hs8 ht8]
    by_cases hbit : s.toNat % 8 = t.toNat % 8
    · rw [if_pos hbit, if_pos ((slot_eq_iff hc.dvd).mpr ⟨hindex, hbit⟩)]
    · rw [if_neg hbit, if_neg fun h => hbit ((slot_eq_iff hc.dvd).mp h).2]
  · rw [if_neg fun h => hindex ((slot_eq_iff hc.dvd).mp h).1]
    simp only [hindex, if_false]
    simp

theorem getBit_congr (hc : Sized winSize c) (h : s.toNat % winSize = t.toNat % winSize) :
    c.getBit s = c.getBit t := by
  rw [getBit, getBit, hc.1, h, ((slot_eq_iff hc.dvd).mp h).2]

/-- A set bit that is set again. -/
theorem setBit_of_getBit (hc : Sized winSize c) (hpos : 0 < winSize) (h : c.getBit s = true) :
    c.setBit s true = c := by
  have hs := hc.index_lt hpos s
  have hs8 := Nat.mod_lt s.toNat (show 0 < 8 by decide)
  rw [getBit, lowest_ne_zero, hc.1, List.getD_eq_getElem?_getD, List.getElem?_eq_getElem hs,
    Option.getD_some] at h
  have hmap : (c.setBit s true).receiveBitMap = c.receiveBitMap := by
    simp only [setBit, hc.1, if_true]
    rw [List.modify_eq_set_getElem?, List.getElem?_eq_getElem hs]
    simp only [Option.map_some, Option.getD_some, Functor.map]
    rw [written_same _ hs8 h, List.set_getElem_self]
  cases c
  exact congrArg (PacketLossCounter.mk _ _ _) hmap

end Bits

end PacketLossCounter

/-! ## Lost numbers -/

/-- The highest number received, from 0 on. -/
def highest (seqs : List UInt32) : ℕ := (seqs.map UInt32.toNat).foldr max 0

/-- The number has not been received before the first one that is a window above it. -/
def MissedInTime (winSize : ℕ) (seqs : List UInt32) (s : ℕ) : Prop :=
  ∀ n ∈ seqs.takeWhile fun n => n.toNat < s + winSize, n.toNat ≠ s

instance (winSize : ℕ) (seqs : List UInt32) (s : ℕ) : Decidable (MissedInTime winSize seqs s) :=
  List.decidableBAll _ _

def lostNumbers (winSize : ℕ) (seqs : List UInt32) (head : ℕ) : Finset ℕ :=
  (Finset.Icc 1 head).filter fun s => s + winSize ≤ head ∧ MissedInTime winSize seqs s

section Lost
variable {winSize head s : ℕ} {seqs : List UInt32} {n : UInt32}

theorem le_highest (hn : n ∈ seqs) : n.toNat ≤ highest seqs := by
  induction seqs with
  | nil => cases hn
  | cons m seqs ih =>
    rw [highest, List.map_cons, List.foldr_cons]
    cases List.mem_cons.mp hn with
    | inl h => exact h ▸ Nat.le_max_left _ _
    | inr h => exact (ih h).trans (Nat.le_max_right _ _)

theorem highest_mem (h : 0 < highest seqs) : ∃ n ∈ seqs, n.toNat = highest seqs := by
  induction seqs with
  | nil => exact absurd h (by decide)
  | cons m seqs ih =>
    have hcons : highest (m :: seqs) = max m.toNat (highest seqs) := rfl
    by_cases hm : highest seqs ≤ m.toNat
    · exact ⟨m, List.mem_cons_self, by rw [hcons]; exact (Nat.max_eq_left hm).symm⟩
    · obtain ⟨n, hn, heq⟩ := ih (by omega)
      exact ⟨n, List.mem_cons_of_mem m hn, by rw [hcons, heq]; omega⟩

theorem highest_append (seqs : List UInt32) (n : UInt32) :
    highest (seqs ++ [n]) = max (highest seqs) n.toNat := by
  induction seqs with
  | nil => simp [highest]
  | cons m seqs ih =>
    have hcons (l : List UInt32) : highest (m :: l) = max m.toNat (highest l) := rfl
    rw [List.cons_append, hcons, hcons, ih]
    omega

theorem mem_lostNumbers :
    s ∈ lostNumbers winSize seqs head ↔
      1 ≤ s ∧ s + winSize ≤ head ∧ MissedInTime winSize seqs s := by
  simp only [lostNumbers, Finset.mem_filter, Finset.mem_Icc]
  constructor
  · exact fun h => ⟨h.1.1, h.2⟩
  · exact fun h => ⟨⟨h.1, by omega⟩, h.2⟩

theorem card_lostNumbers_le : (lostNumbers winSize seqs head).card ≤ head := by
  refine (Finset.card_filter_le _ _).trans ?_
  rw [Nat.card_Icc, Nat.add_sub_cancel]

/-- Nothing has been received that is a window above the number. -/
theorem missedInTime_of_le (hle : ∀ n ∈ seqs, n.toNat < s + winSize) :
    MissedInTime winSize seqs s ↔ ∀ n ∈ seqs, n.toNat ≠ s := by
  rw [MissedInTime, List.takeWhile_eq_self_iff.mpr fun n hn => decide_eq_true (hle n hn)]

/-- The numbers that are lost at the next number. -/
theorem mem_lostNumbers_succ (hle : ∀ n ∈ seqs, n.toNat ≤ head) :
    s ∈ lostNumbers winSize seqs (head + 1) ↔
      s ∈ lostNumbers winSize seqs head ∨
        1 ≤ s ∧ s + winSize = head + 1 ∧ ∀ n ∈ seqs, n.toNat ≠ s := by
  rw [mem_lostNumbers, mem_lostNumbers]
  by_cases hs : s + winSize = head + 1
  · rw [missedInTime_of_le fun n hn => by have := hle n hn; omega]
    constructor
    · exact fun h => .inr ⟨h.1, hs, h.2.2⟩
    · rintro (h | h)
      · exact ⟨h.1, by omega, h.2.2⟩
      · exact ⟨h.1, by omega, h.2.2⟩
  · constructor
    · exact fun h => .inl ⟨h.1, by omega, h.2.2⟩
    · rintro (h | h)
      · exact ⟨h.1, by omega, h.2.2⟩
      · exact absurd h.2.1 hs

/-- One more number, below the highest one or the new highest one. -/
theorem lostNumbers_append (seqs : List UInt32) (n : UInt32) :
    lostNumbers winSize (seqs ++ [n]) (highest (seqs ++ [n])) =
      lostNumbers winSize seqs (highest (seqs ++ [n])) := by
  ext s
  rw [mem_lostNumbers, mem_lostNumbers]
  refine and_congr_right fun hs => and_congr_right fun hle => ?_
  rw [MissedInTime, MissedInTime, List.takeWhile_append]
  split
  · next hall =>
    have hself := (List.takeWhile_prefix _).eq_of_length hall
    -- the number is a window above `s`, as no earlier one is
    have hn : s + winSize ≤ n.toNat := by
      by_contra hlt
      rw [highest_append] at hle
      obtain ⟨m, hm, hmax⟩ := highest_mem (show 0 < highest seqs by omega)
      have hlt' := List.takeWhile_eq_self_iff.mp hself m hm
      simp only [decide_eq_true_eq] at hlt'
      omega
    rw [List.takeWhile_cons_of_neg (by simpa using hn), List.append_nil, hself]
  · rfl

theorem lostNumbers_subset (seqs calls : List UInt32) :
    lostNumbers winSize seqs (highest seqs) ⊆
      lostNumbers winSize (seqs ++ calls) (highest (seqs ++ calls)) := by
  induction calls generalizing seqs with
  | nil => rw [List.append_nil]
  | cons n calls ih =>
    have hstep := ih (seqs ++ [n])
    rw [List.append_assoc, List.singleton_append] at hstep
    refine Finset.Subset.trans (fun s hs => ?_) hstep
    rw [lostNumbers_append, mem_lostNumbers]
    obtain ⟨hpos, hle, hmissed⟩ := mem_lostNumbers.mp hs
    exact ⟨hpos, by rw [highest_append]; omega, hmissed⟩

end Lost

/-! ## What the counter remembers -/

namespace PacketLossCounter

/-- The counter knows of the numbers up to `head`. -/
structure Remembers (winSize : ℕ) (seqs : List UInt32) (head : ℕ) (c : PacketLossCounter) : Prop where
  sized : Sized winSize c
  inWindow : ∀ t : UInt32, t.toNat ≤ head → head < t.toNat + winSize →
    (c.getBit t = true ↔ t = 0 ∨ t ∈ seqs)
  firstLap : ∀ t : UInt32, head < t.toNat → t.toNat < winSize → c.getBit t = true
  lost : c.lost.toNat = (lostNumbers winSize seqs head).card

/-- A late number finds the bit of the number that has taken its place set. -/
def KeepsOthers (c : PacketLossCounter) (n : UInt32) : Prop :=
  c.lastMaxSeqNum.toNat < n.toNat + c.window ∨ c.getBit n = true

instance (c : PacketLossCounter) (n : UInt32) : Decidable (c.KeepsOthers n) :=
  inferInstanceAs (Decidable (_ ∨ _))

section Steps
variable {winSize head : ℕ} {seqs : List UInt32} {c : PacketLossCounter} {i n : UInt32}

/-- Numbers less than a window apart have different slots. -/
theorem mod_ne_of_lt {s t : ℕ} (hlt : s < t) (h : t < s + winSize) : s % winSize ≠ t % winSize := by
  intro heq
  have hdvd := (Nat.modEq_iff_dvd' hlt.le).mp heq
  exact absurd (Nat.le_of_dvd (by omega) hdvd) (by omega)

theorem Sized.counted (hc : Sized winSize c) (lost : UInt32) : Sized winSize { c with lost := lost } :=
  hc

/-- The bit of the next number says whether the number that it replaces is lost. -/
theorem Remembers.getBit_next (hr : Remembers winSize seqs head c) (hpos : 0 < winSize)
    (hi : i.toNat = head + 1) :
    c.getBit i = true ↔ ∀ s, 1 ≤ s → s + winSize = head + 1 → ∃ n ∈ seqs, n.toNat = s := by
  by_cases hlap : i.toNat < winSize
  · refine iff_of_true (hr.firstLap i (by omega) hlap) fun s hs hadd => ?_
    omega
  · have hlt := i.toNat_lt
    obtain ⟨t, ht⟩ : ∃ t : UInt32, t.toNat + winSize = i.toNat := by
      refine ⟨UInt32.ofNat (i.toNat - winSize), ?_⟩
      rw [UInt32.toNat_ofNat_of_lt' (show i.toNat - winSize < 2 ^ 32 by omega)]
      omega
    have hslot : i.toNat % winSize = t.toNat % winSize := by rw [← ht, Nat.add_mod_right]
    rw [getBit_congr hr.sized hslot, hr.inWindow t (by omega) (by omega)]
    constructor
    · intro h s hs hadd
      cases h with
      | inl h =>
        subst h
        rw [UInt32.toNat_zero] at ht
        omega
      | inr h => exact ⟨t, h, by omega⟩
    · intro h
      by_cases hzero : t.toNat = 0
      · exact .inl (UInt32.toNat_inj.mp hzero)
      · obtain ⟨n, hn, heq⟩ := h t.toNat (by omega) (by omega)
        exact .inr (UInt32.toNat_inj.mp heq ▸ hn)

/-- One turn of the loop. -/
theorem Remembers.turn (hr : Remembers winSize seqs head c) (hpos : 0 < winSize)
    (hle : ∀ n ∈ seqs, n.toNat ≤ head) (hi : i.toNat = head + 1) :
    Remembers winSize seqs (head + 1)
      ((if c.getBit i then c else { c with lost := c.lost + 1 }).setBit i false) := by
  have hlt := i.toNat_lt
  have hnext := hr.getBit_next hpos hi
  have hsized : Sized winSize (if c.getBit i then c else { c with lost := c.lost + 1 }) := by
    split
    · exact hr.sized
    · exact hr.sized
  have hbit (t : UInt32) : (if c.getBit i then c else { c with lost := c.lost + 1 }).getBit t =
      c.getBit t := by
    split <;> rfl
  refine ⟨hsized.setBit i false, fun t hthead htwin => ?_, fun t hthead htwin => ?_, ?_⟩
  · rw [getBit_setBit hsized hpos]
    by_cases heq : t.toNat = head + 1
    · have hti : i.toNat = t.toNat := by omega
      rw [if_pos (by rw [hti])]
      refine iff_of_false (by simp) ?_
      rintro (rfl | h)
      · simp at heq
      · exact absurd (hle t h) (by omega)
    · rw [if_neg (Ne.symm (mod_ne_of_lt (by omega) (by omega))), hbit]
      exact hr.inWindow t (by omega) (by omega)
  · rw [getBit_setBit hsized hpos, if_neg (mod_ne_of_lt (by omega) (by omega)), hbit]
    exact hr.firstLap t (by omega) htwin
  · rw [setBit_lost]
    split
    · next hget =>
      rw [hr.lost]
      congr 1
      ext s
      rw [mem_lostNumbers_succ hle]
      refine ⟨.inl, fun h => h.resolve_right fun h => ?_⟩
      obtain ⟨n, hn, heq⟩ := hnext.mp hget s h.1 h.2.1
      exact h.2.2 n hn heq
    · next hget =>
      rw [hnext] at hget
      push Not at hget
      obtain ⟨s, hs, hadd, hmissed⟩ := hget
      have hinsert : lostNumbers winSize seqs (head + 1) =
          insert s (lostNumbers winSize seqs head) := by
        ext r
        rw [mem_lostNumbers_succ hle, Finset.mem_insert]
        constructor
        · rintro (h | h)
          · exact .inr h
          · exact .inl (by omega)
        · rintro (rfl | h)
          · exact .inr ⟨hs, hadd, hmissed⟩
          · exact .inl h
      have hnew : s ∉ lostNumbers winSize seqs head := by
        rw [mem_lostNumbers]
        omega
      have hcard : (lostNumbers winSize seqs head).card ≤ head := card_lostNumbers_le
      rw [hinsert, Finset.card_insert_of_notMem hnew, ← hr.lost, UInt32.toNat_add,
        UInt32.toNat_one, Nat.mod_eq_of_lt (by rw [hr.lost]; omega)]

theorem notifyTurn_lastMaxSeqNum {j : UInt32} {c' : PacketLossCounter}
    (h : notifyTurn n (i, c) = .again (j, c')) : c'.lastMaxSeqNum = c.lastMaxSeqNum := by
  rw [notifyTurn] at h
  split at h
  · cases h
    simp only [setBit_lastMaxSeqNum]
    split <;> rfl
  · cases h

/-- The whole loop, with a turn for each number up to the new one. -/
theorem Remembers.loop (hr : Remembers winSize seqs head c) (hpos : 0 < winSize)
    (hle : ∀ n ∈ seqs, n.toNat ≤ head) (hi : i.toNat = head + 1) (hn : n.toNat < 2 ^ 32 - 1)
    {fuel : ℕ} (hfuel : n.toNat - head < fuel) :
    ∃ j c', WhileLoops.loop (notifyTurn n) fuel (i, c) = some (some (j, c')) ∧
      Remembers winSize seqs (max head n.toNat) c' ∧ c'.lastMaxSeqNum = c.lastMaxSeqNum := by
  induction fuel generalizing head c i with
  | zero => exact absurd hfuel (Nat.not_lt_zero _)
  | succ fuel ih =>
    by_cases hin : i ≤ n
    · have hin' := UInt32.le_iff_toNat_le.mp hin
      have hturn : notifyTurn n (i, c) = .again (i + 1,
          (if c.getBit i then c else { c with lost := c.lost + 1 }).setBit i false) := by
        rw [notifyTurn, if_pos hin]
      have hsucc : (i + 1).toNat = head + 1 + 1 := by
        rw [UInt32.toNat_add, UInt32.toNat_one, hi, Nat.mod_eq_of_lt (by omega)]
      obtain ⟨j, c', hloop, hr', hlast⟩ := ih (hr.turn hpos hle hi)
        (fun m hm => (hle m hm).trans (Nat.le_succ head)) hsucc (by omega)
      refine ⟨j, c', (loop_succ_of_again hturn fuel).trans hloop, ?_, ?_⟩
      · rwa [show max (head + 1) n.toNat = max head n.toNat by omega] at hr'
      · exact hlast.trans (notifyTurn_lastMaxSeqNum hturn)
    · have hin' : n.toNat < i.toNat := UInt32.lt_iff_toNat_lt.mp (UInt32.not_le.mp hin)
      refine ⟨i, c, ?_, ?_, rfl⟩
      · rw [WhileLoops.loop, notifyTurn, if_neg hin]
      · rwa [show max head n.toNat = head by omega]

end Steps

/-! ## Runs -/

/-- Between the calls. -/
structure Tracks (winSize : ℕ) (seqs : List UInt32) (c : PacketLossCounter) : Prop where
  remembers : Remembers winSize seqs (highest seqs) c
  last : c.lastMaxSeqNum.toNat = highest seqs
  bounded : highest seqs < 2 ^ 32 - 1

section Runs
variable {winSize fuel : ℕ} {seqs : List UInt32} {c c' : PacketLossCounter} {n : UInt32}

/-- The bit of the number that has been received. -/
theorem Remembers.setBit {head : ℕ} (hr : Remembers winSize seqs head c) (hpos : 0 < winSize)
    (hn : n.toNat ≤ head) (hkeeps : head < n.toNat + winSize ∨ c.getBit n = true)
    (hlost : lostNumbers winSize (seqs ++ [n]) head = lostNumbers winSize seqs head) :
    Remembers winSize (seqs ++ [n]) head (c.setBit n true) := by
  refine ⟨hr.sized.setBit n true, fun t hthead htwin => ?_, fun t hthead htwin => ?_, ?_⟩
  · have hmem : t ∈ seqs ++ [n] ↔ t ∈ seqs ∨ t = n := by simp
    rw [hmem, ← or_assoc, ← hr.inWindow t hthead htwin, getBit_setBit hr.sized hpos]
    by_cases heq : n.toNat % winSize = t.toNat % winSize
    · rw [if_pos heq]
      refine iff_of_true rfl ?_
      by_cases htn : t = n
      · exact .inr htn
      · -- another number has the slot, so that the new one is late
        refine .inl ((getBit_congr hr.sized heq).symm.trans (hkeeps.resolve_left fun hwin => ?_))
        have hne : t.toNat ≠ n.toNat := fun h => htn (UInt32.toNat_inj.mp h)
        cases lt_or_gt_of_ne hne with
        | inl h => exact mod_ne_of_lt h (by omega) heq.symm
        | inr h => exact mod_ne_of_lt h (by omega) heq
    · rw [if_neg heq]
      refine ⟨.inl, fun h => h.resolve_right ?_⟩
      rintro rfl
      exact heq rfl
  · rw [getBit_setBit hr.sized hpos, hr.firstLap t hthead htwin, ite_self]
  · rw [setBit_lost, hlost, hr.lost]

theorem Tracks.notifyReceived (h : Tracks winSize seqs c) (hpos : 0 < winSize)
    (hn : n.toNat < 2 ^ 32 - 1) (hkeeps : c.KeepsOthers n) (hfuel : 2 ^ 32 ≤ fuel) :
    ∃ c', notifyReceived fuel c n = some c' ∧ Tracks winSize (seqs ++ [n]) c' := by
  have hbounded := h.bounded
  have hsucc : (c.lastMaxSeqNum + 1).toNat = highest seqs + 1 := by
    rw [UInt32.toNat_add, UInt32.toNat_one, h.last, Nat.mod_eq_of_lt (by omega)]
  obtain ⟨j, c₁, hloop, hr, hlast⟩ := h.remembers.loop hpos (fun m hm => le_highest hm) hsucc hn
    (show n.toNat - highest seqs < fuel by omega)
  have hkeeps₁ : highest (seqs ++ [n]) < n.toNat + winSize ∨ c₁.getBit n = true := by
    by_cases hle : n.toNat ≤ highest seqs
    · rw [highest_append, Nat.max_eq_left hle]
      have hc₁ : c₁ = c := by
        obtain ⟨fuel, rfl⟩ : ∃ k, fuel = k + 1 := ⟨fuel - 1, by omega⟩
        rw [loop, notifyTurn, if_neg (by rw [UInt32.le_iff_toNat_le]; omega)] at hloop
        exact (congrArg Prod.snd (Option.some.inj (Option.some.inj hloop))).symm
      rw [hc₁, ← h.last, ← h.remembers.sized.1]
      exact hkeeps
    · rw [highest_append]
      exact .inl (by omega)
  rw [← highest_append] at hr
  have hset := hr.setBit hpos (by rw [highest_append]; exact Nat.le_max_right _ _) hkeeps₁
    (lostNumbers_append seqs n)
  have hmax : (if (c₁.setBit n true).lastMaxSeqNum < n then n
      else (c₁.setBit n true).lastMaxSeqNum).toNat = highest (seqs ++ [n]) := by
    rw [highest_append, setBit_lastMaxSeqNum, hlast, apply_ite UInt32.toNat, h.last]
    simp only [UInt32.lt_iff_toNat_lt, h.last]
    split <;> omega
  refine ⟨{ c₁.setBit n true with lastMaxSeqNum := if (c₁.setBit n true).lastMaxSeqNum < n then n
      else (c₁.setBit n true).lastMaxSeqNum }, ?_, ⟨hset.sized, hset.inWindow, hset.firstLap,
      hset.lost⟩, hmax, ?_⟩
  · rw [PacketLossCounter.notifyReceived, hloop]
    dsimp only
    split <;> rfl
  · rw [highest_append]
    omega

/-- A number that is received again, or that is older than the window, changes nothing. -/
theorem Tracks.notifyReceived_again (h : Tracks winSize seqs c) (hpos : 0 < winSize)
    (hn : n.toNat ≤ highest seqs) (hset : c.getBit n = true) (hfuel : 2 ^ 32 ≤ fuel) :
    PacketLossCounter.notifyReceived fuel c n = some c := by
  have hbounded := h.bounded
  obtain ⟨fuel, rfl⟩ : ∃ k, fuel = k + 1 := ⟨fuel - 1, by omega⟩
  have hnot : ¬c.lastMaxSeqNum + 1 ≤ n := by
    rw [UInt32.le_iff_toNat_le, UInt32.toNat_add, UInt32.toNat_one, h.last,
      Nat.mod_eq_of_lt (by omega)]
    omega
  have hlast : ¬c.lastMaxSeqNum < n := by
    rw [UInt32.lt_iff_toNat_lt, h.last]
    omega
  rw [PacketLossCounter.notifyReceived, loop, notifyTurn, if_neg hnot]
  dsimp only
  rw [setBit_of_getBit h.remembers.sized hpos hset, if_neg hlast]

/-- Such a number finds its bit set. -/
theorem Tracks.getBit_again (h : Tracks winSize seqs c) (hkeeps : c.KeepsOthers n)
    (hagain : (n = 0 ∨ n ∈ seqs) ∨ n.toNat + winSize ≤ highest seqs) :
    n.toNat ≤ highest seqs ∧ c.getBit n = true := by
  have hkeeps' : highest seqs < n.toNat + winSize ∨ c.getBit n = true := by
    rw [← h.last, ← h.remembers.sized.1]
    exact hkeeps
  cases hagain with
  | inl hmem =>
    have hle : n.toNat ≤ highest seqs := by
      rcases hmem with rfl | hmem
      · exact Nat.zero_le _
      · exact le_highest hmem
    refine ⟨hle, hkeeps'.elim (fun hwin => ?_) id⟩
    exact (h.remembers.inWindow n hle hwin).mpr hmem
  | inr hlate => exact ⟨by omega, hkeeps'.resolve_left (by omega)⟩

theorem Tracks.run (h : Tracks winSize seqs c) (hpos : 0 < winSize) (hfuel : 2 ^ 32 ≤ fuel)
    {calls : List UInt32} (hcalls : ∀ n ∈ calls, n.toNat < 2 ^ 32 - 1)
    (hok : Allowed (PacketLossCounter.notifyReceived fuel) KeepsOthers c calls) :
    ∃ c', PartialRuns.run (PacketLossCounter.notifyReceived fuel) c calls = some c' ∧
      Tracks winSize (seqs ++ calls) c' := by
  induction calls generalizing c seqs with
  | nil => exact ⟨c, rfl, by rwa [List.append_nil]⟩
  | cons n calls ih =>
    obtain ⟨c₁, hcall, h₁⟩ := h.notifyReceived hpos (hcalls n List.mem_cons_self) hok.1 hfuel
    obtain ⟨c', hrun, h'⟩ := ih h₁ (fun m hm => hcalls m (List.mem_cons_of_mem n hm))
      (hok.2 c₁ hcall)
    refine ⟨c', ?_, ?_⟩
    · rw [run_cons, hcall]
      exact hrun
    · rwa [List.append_assoc, List.singleton_append] at h'

end Runs

/-- Before the first packet. -/
theorem tracks_start {bitmapSize : UInt8} {winSize : UInt16} {c : PacketLossCounter}
    (hc : (construct bitmapSize).bind (·.setBitMapSize winSize) = some c)
    (hpos : 0 < winSize.toNat) : Tracks winSize.toNat [] c := by
  obtain ⟨c₀, hc₀, hc⟩ := Option.bind_eq_some_iff.mp hc
  rw [construct, setBitMapSize] at hc₀
  rw [setBitMapSize] at hc
  split at hc₀
  · split at hc
    · next hmod =>
      cases hc₀
      cases hc
      have hmod' : winSize.toNat % 8 = 0 := by
        simpa using congrArg UInt16.toNat hmod
      have hdiv : (winSize / 8).toNat = winSize.toNat / 8 := by simp
      have hsized : Sized winSize.toNat
          ⟨0, winSize / 8, 0, List.replicate (winSize / 8).toNat 0xFF#8⟩ := by
        refine ⟨?_, List.length_replicate⟩
        rw [window, hdiv]
        omega
      have hset (t : UInt32) :
          getBit ⟨0, winSize / 8, 0, List.replicate (winSize / 8).toNat 0xFF#8⟩ t = true := by
        have hlt := hsized.index_lt hpos t
        have hbits : ∀ j < 8, (0xFF#8).getLsbD (7 - j) = true := by decide
        rw [List.length_replicate] at hlt
        rw [getBit, lowest_ne_zero, hsized.1, List.getD_eq_getElem?_getD,
          List.getElem?_replicate_of_lt hlt, Option.getD_some]
        exact hbits _ (Nat.mod_lt _ (by decide))
      refine ⟨⟨hsized, fun t ht _ => iff_of_true (hset t) (.inl ?_), fun t _ _ => hset t, rfl⟩,
        rfl, by decide⟩
      exact UInt32.toNat_inj.mp (Nat.le_zero.mp ht)
    · cases hc
  · cases hc₀

/-- After each call the losses are those that were missed in time, and what comes again or too late
changes nothing. -/
structure CountsLosses (winSize fuel : ℕ) (c : PacketLossCounter) (seqs : List UInt32) : Prop where
  counts : ∀ calls, calls <+: seqs → ∃ c', run (notifyReceived fuel) c calls = some c' ∧
    c'.getLost.toNat = (lostNumbers winSize calls (highest calls)).card
  increases : ∀ calls c₁ c₂, calls <+: seqs → run (notifyReceived fuel) c calls = some c₁ →
    run (notifyReceived fuel) c seqs = some c₂ → c₁.getLost ≤ c₂.getLost
  unchanged : ∀ calls n more, seqs = calls ++ n :: more →
    (n = 0 ∨ n ∈ calls) ∨ n.toNat + winSize ≤ highest calls →
      run (notifyReceived fuel) c seqs = run (notifyReceived fuel) c (calls ++ more)

/-- The losses are right while no late number takes the bit of one that has not been received. -/
theorem countsLosses_of_keepsOthers {bitmapSize : UInt8} {winSize : UInt16}
    {c : PacketLossCounter} (hc : (construct bitmapSize).bind (·.setBitMapSize winSize) = some c)
    (hpos : 8 ≤ winSize.toNat) {fuel : ℕ} (hfuel : 2 ^ 32 ≤ fuel) {seqs : List UInt32}
    (hseqs : ∀ n ∈ seqs, n.toNat < 2 ^ 32 - 1)
    (hok : Allowed (notifyReceived fuel) KeepsOthers c seqs) :
    CountsLosses winSize.toNat fuel c seqs := by
  have hpos' : 0 < winSize.toNat := by omega
  have hstart := tracks_start hc hpos'
  have hprefix : ∀ calls more, seqs = calls ++ more → ∃ c', run (notifyReceived fuel) c calls =
      some c' ∧ Tracks winSize.toNat calls c' ∧
        Allowed (notifyReceived fuel) KeepsOthers c' more := by
    rintro calls more rfl
    have hok' := Allowed.of_append hok
    obtain ⟨c', hrun, h'⟩ := hstart.run hpos' hfuel
      (fun n hn => hseqs n (List.mem_append_left more hn)) hok'.1
    exact ⟨c', hrun, h', hok'.2 c' hrun⟩
  refine ⟨fun calls hcalls => ?_, fun calls c₁ c₂ hcalls h₁ h₂ => ?_,
    fun calls n more hsplit hagain => ?_⟩
  · obtain ⟨more, rfl⟩ := hcalls
    obtain ⟨c', hrun, h', -⟩ := hprefix calls more rfl
    exact ⟨c', hrun, h'.remembers.lost⟩
  · obtain ⟨more, rfl⟩ := hcalls
    obtain ⟨c₁', hrun₁, h₁', -⟩ := hprefix calls more rfl
    obtain ⟨c₂', hrun₂, h₂', -⟩ := hprefix (calls ++ more) [] (List.append_nil _).symm
    cases hrun₁.symm.trans h₁
    cases hrun₂.symm.trans h₂
    rw [UInt32.le_iff_toNat_le, getLost, getLost, h₁'.remembers.lost, h₂'.remembers.lost]
    exact Finset.card_le_card (lostNumbers_subset calls more)
  · obtain ⟨c', hrun, h', hok'⟩ := hprefix calls (n :: more) hsplit
    obtain ⟨hle, hset⟩ := h'.getBit_again hok'.1 hagain
    subst hsplit
    rw [run_append, run_append, hrun]
    simp only [Option.bind_some]
    rw [run_cons, h'.notifyReceived_again hpos' hle hset hfuel, Option.bind_some]

/-- A window of eight numbers. -/
def eight : PacketLossCounter := ⟨0, 1, 0, [0xFF#8]⟩

/-- The number 2 comes late, after 10. -/
theorem countsLosses_lateAfterReceived :
    (construct 0).bind (·.setBitMapSize 8) = some eight ∧
      CountsLosses 8 (2 ^ 32) eight [10, 2, 20] := by
  have hrun : run (notifyReceived 30) eight [10, 2, 20] = some ⟨11, 1, 20, [0x08#8]⟩ := by decide +kernel
  have hok : Allowed (notifyReceived 30) KeepsOthers eight [10, 2, 20] := by decide +kernel
  exact ⟨by decide, countsLosses_of_keepsOthers
    (show (construct 0).bind (·.setBitMapSize 8) = some eight by decide) (by decide)
    (le_refl _) (by simp) (allowed_mono hrun (by norm_num) hok)⟩

/-- The late number 1 sets the bit of 9, which is then not counted. -/
theorem not_countsLosses_lateOne : ¬∀ (bitmapSize : UInt8) (winSize : UInt16)
    (c : PacketLossCounter) (seqs : List UInt32),
    (construct bitmapSize).bind (·.setBitMapSize winSize) = some c → 8 ≤ winSize.toNat →
      winSize.toNat ≤ 256 → (∀ n ∈ seqs, n.toNat < 2 ^ 32 - 1) →
        CountsLosses winSize.toNat (2 ^ 32) c seqs := by
  intro h
  have hrun : run (notifyReceived 30) eight [16, 1, 24] = some ⟨14, 1, 24, [0x80#8]⟩ := by
    decide +kernel
  obtain ⟨c', hrun', hlost⟩ := (h 0 8 eight [16, 1, 24] (by decide) (by decide) (by decide)
    (by simp)).counts _ List.prefix_rfl
  cases (run_mono hrun (by norm_num)).symm.trans hrun'
  exact absurd hlost (by decide +kernel)

end PacketLossCounter

end Ns3Noc.PacketLoss
