import Mathlib.Algebra.BigOperators.Group.List.Basic
import Mathlib.Data.List.Induction
import Mathlib.Data.List.Infix
import Ns3Noc.BitFields

/-!
# NixVector

Neighbour indices are packed into 32 bit words one after another and taken out again from the
end. Shifts of an `uint32_t` by 32 or more are undefined; here such a step gives `none`, as a
fatal error does.
-/
namespace Ns3Noc
open BitFields

structure NixVector where
  nixVector : List ℕ := [0]
  used : ℕ := 0
  currentVectorBitSize : ℕ := 0
  totalBitSize : ℕ := 0
  deriving DecidableEq, Repr

/-- `x << k` for an `uint32_t`. -/
def shl32 (x k : ℕ) : Option ℕ := if k < 32 then some (x <<< k % 2 ^ 32) else none

/-- `x >> k` for an `uint32_t`. -/
def shr32 (x k : ℕ) : Option ℕ := if k < 32 then some (x >>> k) else none

theorem shl32_of_lt {x k : ℕ} (h : k < 32) : shl32 x k = some (x <<< k % 2 ^ 32) := if_pos h

theorem shr32_of_lt {x k : ℕ} (h : k < 32) : shr32 x k = some (x >>> k) := if_pos h

namespace NixVector
variable (v : NixVector)

def copy : NixVector :=
  ⟨v.nixVector, v.used, v.currentVectorBitSize, v.totalBitSize⟩

def addNeighborIndex (newBits numberOfBits : ℕ) : Option NixVector :=
  if 32 < numberOfBits then none
  else if 32 < v.currentVectorBitSize + numberOfBits then
    if v.currentVectorBitSize = 32 then
      some { v with
        nixVector := v.nixVector ++ [newBits]
        currentVectorBitSize := numberOfBits
        totalBitSize := (v.totalBitSize + numberOfBits) % 2 ^ 32 }
    else do
      let back ← v.nixVector.getLast?
      let tempBits ← shl32 newBits v.currentVectorBitSize
      let rest ← shr32 newBits (32 - v.currentVectorBitSize)
      some { v with
        nixVector := v.nixVector.dropLast ++ [tempBits ||| back, rest]
        currentVectorBitSize := numberOfBits - (32 - v.currentVectorBitSize)
        totalBitSize := (v.totalBitSize + numberOfBits) % 2 ^ 32 }
  else do
    let back ← v.nixVector.getLast?
    let newBits ← shl32 newBits v.currentVectorBitSize
    some { v with
      nixVector := v.nixVector.dropLast ++ [newBits ||| back]
      currentVectorBitSize := v.currentVectorBitSize + numberOfBits
      totalBitSize := (v.totalBitSize + numberOfBits) % 2 ^ 32 }

/-- The difference of two `uint32_t`. -/
def getRemainingBits : ℕ := (v.totalBitSize + 2 ^ 32 - v.used) % 2 ^ 32

/-- The bits that one extraction reads. -/
def extractedBits (numberOfBits : ℕ) : Option ℕ :=
  let totalRemainingBits := v.getRemainingBits
  let vectorIndex := (totalRemainingBits - 1) / 32
  if 0 < vectorIndex ∧ (totalRemainingBits - 1) % 32 < numberOfBits - 1 then do
    let word ← v.nixVector[vectorIndex]?
    let extractedBits ← shl32 word (32 - totalRemainingBits % 32)
    let extractedBits ← shr32 extractedBits
      (32 - totalRemainingBits % 32 - (numberOfBits - totalRemainingBits % 32))
    let before ← v.nixVector[vectorIndex - 1]?
    let lower ← shr32 before (32 - (numberOfBits - totalRemainingBits % 32))
    some (extractedBits ||| lower)
  else do
    let word ← v.nixVector[vectorIndex]?
    let extractedBits ← shl32 word (32 - totalRemainingBits % 32)
    shr32 extractedBits (32 - numberOfBits)

def extractNeighborIndex (numberOfBits : ℕ) : Option (ℕ × NixVector) :=
  if 32 < numberOfBits ∨ v.getRemainingBits < numberOfBits ∨ numberOfBits = 0 then none
  else (v.extractedBits numberOfBits).map (fun bits =>
    (bits, { v with used := (v.used + numberOfBits) % 2 ^ 32 }))

def getSerializedSize : ℕ := (12 + 4 * v.nixVector.length) % 2 ^ 32

/-- `Serialize`, one word after another; it gives up when the next word exceeds the size. -/
def serialize (maxSize : ℕ) : Option (List ℕ) :=
  let words := v.used :: v.currentVectorBitSize :: v.totalBitSize :: v.nixVector
  if 4 * words.length ≤ maxSize then some words else none

/-- The loop of `Deserialize`. -/
def readWords : List ℕ → ℕ → Option (List ℕ)
  | _, 0 => some []
  | [], _ + 1 => none
  | word :: buffer, sizeCheck + 1 =>
    if sizeCheck + 1 < 4 then none
    else (readWords buffer (sizeCheck + 1 - 4)).map (word :: ·)

def deserialize (buffer : List ℕ) (size : ℕ) : Option NixVector :=
  match buffer with
  | used :: currentVectorBitSize :: totalBitSize :: rest =>
    if size - 4 < 12 then none
    else (readWords rest (size - 4 - 12)).map (fun words =>
      ⟨words, used, currentVectorBitSize, totalBitSize⟩)
  | _ => none

/-- How `Packet` serializes its vector and reads it back: the size in the buffer includes the
word that holds it. -/
def transfer : Option NixVector := do
  let buffer ← v.serialize v.getSerializedSize
  deserialize buffer (v.getSerializedSize + 4)

end NixVector

/-- What may happen to a vector between two extractions. -/
inductive Handover where
  | copy
  | serialize
  deriving DecidableEq, Repr

namespace NixVector

def handOver (v : NixVector) : Handover → Option NixVector
  | .copy => some v.copy
  | .serialize => v.transfer

/-- The insertions of values with their widths. -/
def addAll (pairs : List (ℕ × ℕ)) : Option NixVector :=
  pairs.foldlM (fun v p => v.addNeighborIndex p.1 p.2) {}

/-- Extractions of the given widths, each after some handovers. -/
def extractAll (v : NixVector) : List (List Handover × ℕ) → Option (List ℕ)
  | [] => some []
  | (handovers, numberOfBits) :: steps => do
    let v ← handovers.foldlM handOver v
    let (bits, v) ← v.extractNeighborIndex numberOfBits
    let more ← v.extractAll steps
    some (bits :: more)

/-- Extraction with the same widths in reverse order returns the inserted values, whatever
handovers come in between. -/
def Recovers (pairs : List (ℕ × ℕ)) : Prop :=
  ∃ v, addAll pairs = some v ∧ ∀ steps : List (List Handover × ℕ),
    steps.map Prod.snd = (pairs.map Prod.snd).reverse →
      v.extractAll steps = some (pairs.map Prod.fst).reverse

/-! ## Insertion -/

/-- The words hold the number `N` of `T` bits. -/
structure Packed (N T : ℕ) (v : NixVector) : Prop where
  words : ∀ word ∈ v.nixVector, word < 2 ^ 32
  value : Nat.ofDigits (2 ^ 32) v.nixVector = N
  length : ∃ k, v.nixVector.length = k + 1 ∧ 32 * k + v.currentVectorBitSize = T
  currentVectorBitSize_le : v.currentVectorBitSize ≤ 32
  lt : N < 2 ^ T
  totalBitSize : v.totalBitSize = T % 2 ^ 32

theorem packed_empty : Packed 0 0 {} where
  words := by simp
  value := by simp
  length := ⟨0, rfl, rfl⟩
  currentVectorBitSize_le := by decide
  lt := by decide
  totalBitSize := rfl

theorem Packed.back {N T : ℕ} {v : NixVector} (h : Packed N T v) :
    ∃ lower back, v.nixVector = lower ++ [back] ∧ 32 * lower.length + v.currentVectorBitSize = T ∧
      Nat.ofDigits (2 ^ 32) lower + 2 ^ (32 * lower.length) * back = N ∧
      back < 2 ^ v.currentVectorBitSize := by
  obtain ⟨k, hlength, hT⟩ := h.length
  obtain ⟨lower, back, hwords⟩ := List.eq_nil_or_concat' v.nixVector |>.resolve_left (by
    intro hnil
    rw [hnil] at hlength
    exact absurd hlength (by simp))
  have hk : lower.length = k := by
    rw [hwords, List.length_append] at hlength
    simpa using hlength
  have hvalue : Nat.ofDigits (2 ^ 32) lower + 2 ^ (32 * lower.length) * back = N := by
    rw [← h.value, hwords, Nat.ofDigits_append, Nat.ofDigits_singleton, pow_mul]
  refine ⟨lower, back, hwords, by rw [hk, hT], hvalue, ?_⟩
  have hlt := h.lt
  rw [← hvalue, ← hT, ← hk, pow_add] at hlt
  exact lt_of_mul_lt_mul_left (lt_of_le_of_lt (Nat.le_add_left _ _) hlt) (Nat.zero_le _)

theorem lt_two_pow_add {N T x n : ℕ} (hN : N < 2 ^ T) (hx : x < 2 ^ n) :
    N + 2 ^ T * x < 2 ^ (T + n) := by
  have hle : 2 ^ T * (x + 1) ≤ 2 ^ T * 2 ^ n := Nat.mul_le_mul_left _ hx
  rw [pow_add]
  rw [Nat.mul_succ] at hle
  omega

/-- A value goes on top of the bits that are there. -/
theorem Packed.addNeighborIndex {N T x n : ℕ} {v : NixVector} (h : Packed N T v) (hpos : 1 ≤ n)
    (hle : n ≤ 32) (hx : x < 2 ^ n) :
    ∃ v', v.addNeighborIndex x n = some v' ∧ Packed (N + 2 ^ T * x) (T + n) v' ∧
      v'.used = v.used := by
  obtain ⟨lower, back, hwords, hT, hvalue, hback⟩ := h.back
  have hc := h.currentVectorBitSize_le
  have hx32 : x < 2 ^ 32 := lt_of_lt_of_le hx (Nat.pow_le_pow_right (by decide) hle)
  have htotal : (v.totalBitSize + n) % 2 ^ 32 = (T + n) % 2 ^ 32 := by
    rw [h.totalBitSize, Nat.mod_add_mod]
  have hlower : ∀ word ∈ lower, word < 2 ^ 32 := by
    intro word hword
    exact h.words word (by rw [hwords]; exact List.mem_append_left _ hword)
  have hshift : x <<< v.currentVectorBitSize % 2 ^ 32 ||| back =
      (back + 2 ^ v.currentVectorBitSize * x) % 2 ^ 32 := or_shiftLeft_mod hback hc
  have hmod : (back + 2 ^ v.currentVectorBitSize * x) % 2 ^ 32 < 2 ^ 32 :=
    Nat.mod_lt _ (by decide)
  -- the words above the lower ones make up the old word with the new bits on top
  have htop : N + 2 ^ T * x = Nat.ofDigits (2 ^ 32) lower +
      2 ^ (32 * lower.length) * (back + 2 ^ v.currentVectorBitSize * x) := by
    rw [← hvalue, ← hT, pow_add]
    ring
  unfold NixVector.addNeighborIndex
  rw [if_neg (by omega)]
  split
  · split
    · next hfull =>
      refine ⟨_, rfl, ⟨?_, ?_, ?_, hle, lt_two_pow_add h.lt hx, htotal⟩, rfl⟩
      · intro word hword
        rcases List.mem_append.mp hword with hword | hword
        · exact h.words word hword
        · exact List.mem_singleton.mp hword ▸ hx32
      · rw [Nat.ofDigits_append, Nat.ofDigits_singleton, h.value, ← pow_mul, hwords,
          List.length_append, List.length_singleton, ← hT, hfull]
        rfl
      · refine ⟨lower.length + 1, by simp [hwords], ?_⟩
        dsimp only
        omega
    · next hpartial =>
      have hrest : x >>> (32 - v.currentVectorBitSize) =
          (back + 2 ^ v.currentVectorBitSize * x) / 2 ^ 32 := by
        have hsplit : (2 : ℕ) ^ 32 =
            2 ^ v.currentVectorBitSize * 2 ^ (32 - v.currentVectorBitSize) := by
          rw [← pow_add, Nat.add_sub_cancel' hc]
        rw [hsplit, ← Nat.div_div_eq_div_mul, Nat.add_mul_div_left _ _ (Nat.two_pow_pos _),
          Nat.div_eq_of_lt hback, Nat.zero_add, Nat.shiftRight_eq_div_pow]
      rw [shl32_of_lt (by omega), shr32_of_lt (by omega), hwords]
      simp only [List.getLast?_append, List.getLast?_singleton, List.dropLast_concat, Option.some_or,
        Option.bind_eq_bind, Option.bind_some]
      rw [hshift, hrest]
      refine ⟨_, rfl, ⟨?_, ?_, ?_, by dsimp only; omega, lt_two_pow_add h.lt hx, htotal⟩, rfl⟩
      · intro word hword
        simp only [List.mem_append, List.mem_cons, List.not_mem_nil, or_false] at hword
        rcases hword with hword | rfl | rfl
        · exact hlower word hword
        · exact hmod
        · rw [← hrest, Nat.shiftRight_eq_div_pow]
          exact lt_of_le_of_lt (Nat.div_le_self _ _) hx32
      · rw [htop, Nat.ofDigits_append, Nat.ofDigits_cons, Nat.ofDigits_singleton, Nat.mod_add_div,
          ← pow_mul]
      · refine ⟨lower.length + 1, by simp, ?_⟩
        dsimp only
        omega
  · next hfits =>
    rw [shl32_of_lt (by omega), hwords]
    simp only [List.getLast?_append, List.getLast?_singleton, List.dropLast_concat, Option.some_or,
      Option.bind_eq_bind, Option.bind_some]
    have hlt : back + 2 ^ v.currentVectorBitSize * x < 2 ^ 32 :=
      lt_of_lt_of_le (lt_two_pow_add hback hx) (Nat.pow_le_pow_right (by decide) (by omega))
    rw [hshift, Nat.mod_eq_of_lt hlt]
    refine ⟨_, rfl, ⟨?_, ?_, ?_, by dsimp only; omega, lt_two_pow_add h.lt hx, htotal⟩, rfl⟩
    · intro word hword
      rcases List.mem_append.mp hword with hword | hword
      · exact hlower word hword
      · exact List.mem_singleton.mp hword ▸ hlt
    · rw [htop, Nat.ofDigits_append, Nat.ofDigits_singleton, ← pow_mul]
    · refine ⟨lower.length, by simp, ?_⟩
      dsimp only
      omega

/-! ## Extraction -/

/-- Where no shift by 32 is needed, the bits below the remaining ones are read. -/
theorem extractedBits_eq {v : NixVector} (hwords : ∀ word ∈ v.nixVector, word < 2 ^ 32) {n : ℕ}
    (hroom : v.getRemainingBits ≤ 32 * v.nixVector.length) (hpos : 1 ≤ n) (hle : n ≤ 32)
    (hn : n ≤ v.getRemainingBits) (h32 : ¬32 ∣ v.getRemainingBits) :
    v.extractedBits n = some (field (Nat.ofDigits (2 ^ 32) v.nixVector) (v.getRemainingBits - n) n) := by
  unfold extractedBits
  dsimp only
  generalize v.getRemainingBits = R at hroom hn h32 ⊢
  obtain ⟨i, r, hr, hr32, rfl⟩ : ∃ i r, 0 < r ∧ r < 32 ∧ R = 32 * i + r :=
    ⟨R / 32, R % 32, by omega, by omega, by omega⟩
  have hindex : (32 * i + r - 1) / 32 = i := by omega
  have hlast : (32 * i + r - 1) % 32 = r - 1 := by omega
  have hmod : (32 * i + r) % 32 = r := by omega
  rw [hindex, hlast, hmod, getElem?_eq_field hwords (by omega)]
  split
  · next hspan =>
    -- the upper `r` bits are in one word and the rest in the word before
    simp only [Option.bind_eq_bind, Option.bind_some]
    rw [shl32_of_lt (by omega), Option.bind_some, shr32_of_lt (by omega), Option.bind_some,
      getElem?_eq_field hwords (by omega), Option.bind_some, shr32_of_lt (by omega),
      Option.bind_some, shiftLeft_mod_shiftRight_of_lt (by omega) hle, field_field _ _ _ (by omega),
      shiftRight_eq_field (field_lt _ _ _) (by omega), field_field _ _ _ (by omega),
      ← Nat.two_pow_add_eq_or_of_lt (field_lt _ _ _), Nat.add_comm]
    have hwidth : n = (n - r) + r := by omega
    have hsplit := field_add (Nat.ofDigits (2 ^ 32) v.nixVector) (32 * i + r - n) (n - r) r
    rw [← hwidth, show 32 * i + r - n + (n - r) = 32 * i by omega] at hsplit
    rw [hsplit, show 32 * (i - 1) + (32 - (n - r)) = 32 * i + r - n by omega, Nat.add_zero]
  · next hspan =>
    simp only [Option.bind_eq_bind, Option.bind_some]
    rw [shl32_of_lt (by omega), Option.bind_some, shr32_of_lt (by omega),
      shiftLeft_mod_shiftRight (by omega) hr32.le, field_field _ _ _ (by omega), show 32 * i + (r - n) = 32 * i + r - n by omega]

theorem extractedBits_eq_none {v : NixVector} {n : ℕ} (h32 : 32 ∣ v.getRemainingBits) :
    v.extractedBits n = none := by
  have hshift : ∀ word, shl32 word (32 - v.getRemainingBits % 32) = none := by
    intro word
    rw [Nat.mod_eq_zero_of_dvd h32]
    rfl
  unfold extractedBits
  simp [hshift]

theorem readWords_eq (words : List ℕ) : readWords words (4 * words.length) = some words := by
  induction words with
  | nil => rfl
  | cons word words ih =>
    rw [List.length_cons, Nat.mul_succ, readWords, if_neg (by omega),
      show 4 * words.length + 3 + 1 - 4 = 4 * words.length by omega, ih]
    rfl

/-- Nothing is lost on the way through a buffer. -/
theorem transfer_eq {v : NixVector} (h : 12 + 4 * v.nixVector.length < 2 ^ 32) :
    v.transfer = some v := by
  have hsize : v.getSerializedSize = 12 + 4 * v.nixVector.length := Nat.mod_eq_of_lt h
  rw [transfer, hsize, serialize]
  simp only [List.length_cons]
  rw [if_pos (by omega)]
  simp only [Option.bind_eq_bind, Option.bind_some, deserialize]
  rw [if_neg (by omega), show 12 + 4 * v.nixVector.length + 4 - 4 - 12 = 4 * v.nixVector.length by
    omega, readWords_eq]
  rfl

theorem handOvers_eq {v : NixVector} (h : 12 + 4 * v.nixVector.length < 2 ^ 32)
    (handovers : List Handover) : handovers.foldlM handOver v = some v := by
  induction handovers with
  | nil => rfl
  | cons handover handovers ih =>
    have hsame : v.handOver handover = some v := by
      cases handover with
      | copy => rfl
      | serialize => exact transfer_eq h
    rw [List.foldlM_cons, hsame]
    exact ih

/-! ## Insertion and extraction together -/

/-- The number of bits of all values. -/
def width (pairs : List (ℕ × ℕ)) : ℕ := (pairs.map Prod.snd).sum

/-- The number that the values make up. -/
def value : List (ℕ × ℕ) → ℕ
  | [] => 0
  | (x, n) :: pairs => x + 2 ^ n * value pairs

/-- The pairs that may be inserted. -/
def Valid (pairs : List (ℕ × ℕ)) : Prop := ∀ p ∈ pairs, 1 ≤ p.2 ∧ p.2 ≤ 32 ∧ p.1 < 2 ^ p.2

instance (pairs : List (ℕ × ℕ)) : Decidable (Valid pairs) :=
  inferInstanceAs (Decidable (∀ _ ∈ _, _))

@[simp] theorem width_concat (pairs : List (ℕ × ℕ)) (p : ℕ × ℕ) :
    width (pairs ++ [p]) = width pairs + p.2 := by
  simp [width]

theorem value_concat (pairs : List (ℕ × ℕ)) (p : ℕ × ℕ) :
    value (pairs ++ [p]) = value pairs + 2 ^ width pairs * p.1 := by
  induction pairs with
  | nil => simp [value, width]
  | cons q pairs ih =>
    have hwidth : width (q :: pairs) = q.2 + width pairs := by simp [width]
    rw [List.cons_append, value, ih, value, hwidth, pow_add]
    ring

theorem valid_concat {pairs : List (ℕ × ℕ)} {p : ℕ × ℕ} :
    Valid (pairs ++ [p]) ↔ Valid pairs ∧ 1 ≤ p.2 ∧ p.2 ≤ 32 ∧ p.1 < 2 ^ p.2 := by
  constructor
  · intro h
    exact ⟨fun q hq => h q (List.mem_append_left _ hq), h p (by simp)⟩
  · rintro ⟨h, hp⟩ q hq
    rcases List.mem_append.mp hq with hq | hq
    · exact h q hq
    · exact List.mem_singleton.mp hq ▸ hp

theorem value_lt {pairs : List (ℕ × ℕ)} (h : Valid pairs) : value pairs < 2 ^ width pairs := by
  induction pairs using List.reverseRecOn with
  | nil => decide
  | append_singleton pairs p ih =>
    obtain ⟨hpairs, -, -, hp⟩ := valid_concat.mp h
    rw [value_concat, width_concat]
    exact lt_two_pow_add (ih hpairs) hp

theorem packed_addAll {pairs : List (ℕ × ℕ)} (h : Valid pairs) :
    ∃ v, addAll pairs = some v ∧ Packed (value pairs) (width pairs) v ∧ v.used = 0 := by
  induction pairs using List.reverseRecOn with
  | nil => exact ⟨_, rfl, packed_empty, rfl⟩
  | append_singleton pairs p ih =>
    obtain ⟨hpairs, hpos, hle, hp⟩ := valid_concat.mp h
    obtain ⟨v, hv, hpacked, hused⟩ := ih hpairs
    obtain ⟨v', hv', hpacked', hused'⟩ := hpacked.addNeighborIndex hpos hle hp
    refine ⟨v', ?_, ?_, by rw [hused', hused]⟩
    · rw [addAll, List.foldlM_append, ← addAll, hv]
      simp [hv']
    · rw [value_concat, width_concat]
      exact hpacked'

theorem getRemainingBits_add_used {v : NixVector} {n : ℕ} (hused : v.used < 2 ^ 32)
    (hn : n ≤ v.getRemainingBits) :
    ({ v with used := (v.used + n) % 2 ^ 32 } : NixVector).getRemainingBits =
      v.getRemainingBits - n := by
  unfold getRemainingBits at hn ⊢
  dsimp only
  omega

theorem extractNeighborIndex_eq_some {v v' : NixVector} {n bits : ℕ}
    (h : v.extractNeighborIndex n = some (bits, v')) :
    n ≤ v.getRemainingBits ∧ v.extractedBits n = some bits ∧
      v' = { v with used := (v.used + n) % 2 ^ 32 } := by
  unfold extractNeighborIndex at h
  split at h
  · exact absurd h (by simp)
  · next hguard =>
    obtain ⟨bits', hbits, heq⟩ := Option.map_eq_some_iff.mp h
    obtain ⟨rfl, rfl⟩ := Prod.mk.inj heq
    exact ⟨by omega, hbits, rfl⟩

/-- No group of first values ends with a word. -/
def NeverAligned (pairs : List (ℕ × ℕ)) : Prop :=
  ∀ first, first <+: pairs → first ≠ [] → ¬32 ∣ width first

theorem neverAligned_concat {pairs : List (ℕ × ℕ)} {p : ℕ × ℕ} :
    NeverAligned (pairs ++ [p]) ↔ NeverAligned pairs ∧ ¬32 ∣ width (pairs ++ [p]) := by
  constructor
  · intro h
    refine ⟨?_, h _ List.prefix_rfl (by simp)⟩
    intro first hfirst
    exact h first (hfirst.trans (List.prefix_append _ _))
  · rintro ⟨h, hp⟩ first hfirst hne
    rcases List.prefix_concat_iff.mp hfirst with rfl | hfirst
    · exact hp
    · exact h first hfirst hne

/-- Extraction takes the values off again, from the last one to the first. -/
theorem extractAll_eq {pairs : List (ℕ × ℕ)} (hvalid : Valid pairs) (hwidth : width pairs < 2 ^ 32)
    (hnever : NeverAligned pairs) {v : NixVector} (hwords : ∀ word ∈ v.nixVector, word < 2 ^ 32)
    (hlength : 12 + 4 * v.nixVector.length < 2 ^ 32) (hused : v.used < 2 ^ 32)
    (hroom : width pairs ≤ 32 * v.nixVector.length) (hremaining : v.getRemainingBits = width pairs)
    (hvalue : field (Nat.ofDigits (2 ^ 32) v.nixVector) 0 (width pairs) = value pairs)
    {steps : List (List Handover × ℕ)}
    (hsteps : steps.map Prod.snd = (pairs.map Prod.snd).reverse) :
    v.extractAll steps = some (pairs.map Prod.fst).reverse := by
  induction pairs using List.reverseRecOn generalizing v steps with
  | nil =>
    have hnil : steps = [] := by simpa using hsteps
    rw [hnil]
    rfl
  | append_singleton pairs p ih =>
    obtain ⟨hvalid', hpos, hle, hp⟩ := valid_concat.mp hvalid
    obtain ⟨hnever', haligned⟩ := neverAligned_concat.mp hnever
    rw [width_concat] at hwidth hroom hremaining haligned hvalue
    obtain ⟨handovers, steps', rfl, hsteps'⟩ : ∃ handovers steps',
        steps = (handovers, p.2) :: steps' ∧ steps'.map Prod.snd = (pairs.map Prod.snd).reverse := by
      cases steps with
      | nil => simp at hsteps
      | cons step steps' =>
        simp only [List.map_cons, List.map_append, List.map_nil, List.reverse_append,
          List.reverse_cons, List.reverse_nil, List.nil_append, List.singleton_append,
          List.cons.injEq] at hsteps
        exact ⟨step.1, steps', by rw [← hsteps.1], hsteps.2⟩
    have hbits : v.extractedBits p.2 = some p.1 := by
      rw [extractedBits_eq hwords (by omega) hpos hle (by omega) (by rwa [hremaining]), hremaining,
        Nat.add_sub_cancel]
      have hfield := field_field (Nat.ofDigits (2 ^ 32) v.nixVector) 0 (width pairs + p.2)
        (le_refl (width pairs + p.2))
      rw [Nat.zero_add] at hfield
      rw [← hfield, hvalue, value_concat, field, Nat.add_mul_div_left _ _ (Nat.two_pow_pos _),
        Nat.div_eq_of_lt (value_lt hvalid'), Nat.zero_add, Nat.mod_eq_of_lt hp]
    have hextract : v.extractNeighborIndex p.2 =
        some (p.1, { v with used := (v.used + p.2) % 2 ^ 32 }) := by
      rw [extractNeighborIndex, if_neg (by omega), hbits]
      rfl
    have hlower : field (Nat.ofDigits (2 ^ 32) v.nixVector) 0 (width pairs) = value pairs := by
      have hfield := field_field (Nat.ofDigits (2 ^ 32) v.nixVector) 0 (width pairs + p.2)
        (show 0 + width pairs ≤ _ by omega)
      rw [Nat.zero_add] at hfield
      rw [← hfield, hvalue, value_concat, field, pow_zero, Nat.div_one, Nat.add_mul_mod_self_left,
        Nat.mod_eq_of_lt (value_lt hvalid')]
    have hrest := ih hvalid' (by omega) hnever'
      (v := { v with used := (v.used + p.2) % 2 ^ 32 }) hwords hlength (Nat.mod_lt _ (by decide))
      (by dsimp only; omega)
      (by rw [getRemainingBits_add_used hused (by omega), hremaining, Nat.add_sub_cancel]) hlower hsteps'
    rw [extractAll, handOvers_eq hlength]
    simp only [Option.bind_eq_bind, Option.bind_some, hextract, hrest]
    simp

/-- Extraction that succeeds has not met a full word, and the bit count did not wrap. -/
theorem neverAligned_of_extractAll {pairs : List (ℕ × ℕ)} {v : NixVector}
    (hused : v.used < 2 ^ 32) (hremaining : v.getRemainingBits = width pairs % 2 ^ 32)
    (h : (v.extractAll ((pairs.map Prod.snd).reverse.map (fun n => ([], n)))).isSome) :
    width pairs < 2 ^ 32 ∧ NeverAligned pairs := by
  induction pairs using List.reverseRecOn generalizing v with
  | nil => exact ⟨by decide, fun first hfirst hne => absurd (List.prefix_nil.mp hfirst) hne⟩
  | append_singleton pairs p ih =>
    simp only [List.map_append, List.map_cons, List.map_nil, List.reverse_append, List.reverse_cons,
      List.reverse_nil, List.nil_append, List.singleton_append, extractAll, List.foldlM_nil,
      Option.pure_def, Option.bind_eq_bind, Option.bind_some] at h
    obtain ⟨values, hvalues⟩ := Option.isSome_iff_exists.mp h
    obtain ⟨⟨bits, v'⟩, hextract, hmore⟩ := Option.bind_eq_some_iff.mp hvalues
    obtain ⟨rest, hrest, -⟩ := Option.bind_eq_some_iff.mp hmore
    obtain ⟨hn, hbits, rfl⟩ := extractNeighborIndex_eq_some hextract
    have haligned : ¬32 ∣ v.getRemainingBits := by
      intro h32
      rw [extractedBits_eq_none h32] at hbits
      exact absurd hbits (by simp)
    rw [width_concat] at hremaining
    obtain ⟨hwidth, hnever⟩ := ih
      (v := { v with used := (v.used + p.2) % 2 ^ 32 }) (Nat.mod_lt _ (by decide))
      (by rw [getRemainingBits_add_used hused hn]; omega) (by dsimp only at hrest; rw [hrest]; rfl)
    have hlt : width pairs + p.2 < 2 ^ 32 := by omega
    refine ⟨by rw [width_concat]; exact hlt, neverAligned_concat.mpr ⟨hnever, ?_⟩⟩
    rwa [width_concat, ← Nat.mod_eq_of_lt hlt, ← hremaining]

/-- The codec gives back what was inserted exactly if no value ends at the end of a word and
the bit count fits into its counter. -/
theorem recovers_iff {pairs : List (ℕ × ℕ)} (h : Valid pairs) :
    Recovers pairs ↔ width pairs < 2 ^ 32 ∧ NeverAligned pairs := by
  obtain ⟨v, hv, hpacked, hused⟩ := packed_addAll h
  have hremaining : v.getRemainingBits = width pairs % 2 ^ 32 := by
    rw [getRemainingBits, hused, hpacked.totalBitSize]
    omega
  constructor
  · rintro ⟨v', hv', hrecovers⟩
    rw [hv] at hv'
    cases hv'
    apply neverAligned_of_extractAll (by rw [hused]; decide) hremaining
    rw [hrecovers _ (by simp [Function.comp_def])]
    rfl
  · rintro ⟨hwidth, hnever⟩
    refine ⟨v, hv, ?_⟩
    intro steps hsteps
    obtain ⟨k, hlength, hk⟩ := hpacked.length
    have hcurrent := hpacked.currentVectorBitSize_le
    apply extractAll_eq h hwidth hnever hpacked.words (by omega) (by rw [hused]; decide) (by omega)
      (by rw [hremaining, Nat.mod_eq_of_lt hwidth]) ?_ hsteps
    rw [hpacked.value, field, pow_zero, Nat.div_one, Nat.mod_eq_of_lt (value_lt h)]

/-- Three values across a word boundary. -/
theorem recovers_three : Recovers [(5, 3), (2 ^ 31 + 1, 32), (77, 7)] := by
  refine (recovers_iff (by decide)).mpr ⟨by decide, ?_⟩
  have hfirsts : ∀ first ∈ [(5, 3), (2 ^ 31 + 1, 32), (77, 7)].inits, first ≠ [] →
      ¬32 ∣ width first := by decide
  intro first hfirst
  exact hfirsts first ((List.mem_inits _ _).mpr hfirst)

/-- A value of 32 bits is not even found again when it is the only one. -/
theorem not_recovers_word : Valid [(5, 32)] ∧ ¬Recovers [(5, 32)] := by
  refine ⟨by decide, ?_⟩
  rintro ⟨v, hv, hrecovers⟩
  have hnone : (addAll [(5, 32)]).bind (fun v => v.extractAll [([], 32)]) = none := by decide
  rw [hv, Option.bind_some, hrecovers [([], 32)] rfl] at hnone
  exact absurd hnone (by simp)

end NixVector
end Ns3Noc
