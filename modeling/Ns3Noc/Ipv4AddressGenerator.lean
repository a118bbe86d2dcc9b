import Mathlib.Data.List.Pairwise
import Ns3Noc.BufferOffsets
import Ns3Noc.PartialRuns

/-!
# Ipv4AddressGeneratorImpl

For each length of a network mask the generator has the next network number and the next address,
both moved by calls for that mask only. The addresses handed out are kept as a list of blocks, which
grow by one address at either end. A call gives `none` where the program aborts.
-/
namespace Ns3Noc
open PartialRuns

def N_BITS : ℕ := 32

def MOST_SIGNIFICANT_BIT : ℕ := 0x80000000

/-- `~` of a 32 bit value. -/
def uint32Not (x : ℕ) : ℕ := 2 ^ 32 - 1 - x

namespace Ipv4AddressGenerator

structure NetworkState where
  mask : ℕ
  shift : ℕ
  network : ℕ
  addr : ℕ
  addrMax : ℕ
  deriving DecidableEq

/-- A block of allocated addresses. -/
structure Entry where
  addrLow : ℕ
  addrHigh : ℕ
  deriving DecidableEq

end Ipv4AddressGenerator

structure Ipv4AddressGenerator where
  netTable : List Ipv4AddressGenerator.NetworkState
  entries : List Ipv4AddressGenerator.Entry
  test : Bool
  deriving DecidableEq

namespace Ipv4AddressGenerator

/-- The loop of `Reset` from entry `i` on. -/
def resetTable : ℕ → ℕ → ℕ → List NetworkState
  | 0, _, _ => []
  | k + 1, i, mask =>
    let next := (mask >>> 1) ||| MOST_SIGNIFICANT_BIT
    ⟨mask, N_BITS - i, 1, 1, uint32Not next⟩ :: resetTable k (i + 1) next

/-- The constructor and `Reset`. -/
def reset : Ipv4AddressGenerator := ⟨resetTable N_BITS 0 0, [], false⟩

/-- The loop of `MaskToIndex` with `k` passes left. -/
def maskToIndexLoop : ℕ → ℕ → ℕ → Option ℕ
  | 0, _, _ => none
  | k + 1, i, maskBits =>
    if maskBits &&& 1 ≠ 0 then
      let index := N_BITS - i
      if index > 0 ∧ index < N_BITS then some index else none
    else maskToIndexLoop k (i + 1) (maskBits >>> 1)

def maskToIndex (mask : ℕ) : Option ℕ := maskToIndexLoop N_BITS 0 mask

/-- The entry of the table for a mask, with its index. -/
def netState (g : Ipv4AddressGenerator) (mask : ℕ) : Option (ℕ × NetworkState) := do
  let index ← maskToIndex mask
  let s ← g.netTable[index]?
  some (index, s)

def setNetState (g : Ipv4AddressGenerator) (index : ℕ) (s : NetworkState) :
    Ipv4AddressGenerator :=
  { g with netTable := g.netTable.set index s }

def init (g : Ipv4AddressGenerator) (net mask addr : ℕ) : Option Ipv4AddressGenerator :=
  if net &&& uint32Not mask = 0 ∧ addr &&& mask = 0 then do
    let (index, s) ← g.netState mask
    let s := { s with network := net >>> s.shift }
    if addr ≤ s.addrMax then some (g.setNetState index { s with addr := addr }) else none
  else none

def getNetwork (g : Ipv4AddressGenerator) (mask : ℕ) : Option ℕ := do
  let (_, s) ← g.netState mask
  some (uint32 (s.network <<< s.shift))

def nextNetwork (g : Ipv4AddressGenerator) (mask : ℕ) : Option (ℕ × Ipv4AddressGenerator) := do
  let (index, s) ← g.netState mask
  let s := { s with network := uint32 (s.network + 1) }
  some (uint32 (s.network <<< s.shift), g.setNetState index s)

def initAddress (g : Ipv4AddressGenerator) (addr mask : ℕ) : Option Ipv4AddressGenerator := do
  let (index, s) ← g.netState mask
  if addr ≤ s.addrMax then some (g.setNetState index { s with addr := addr }) else none

def getAddress (g : Ipv4AddressGenerator) (mask : ℕ) : Option ℕ := do
  let (_, s) ← g.netState mask
  some (uint32 (s.network <<< s.shift) ||| s.addr)

/-- What `AddAllocated` does with an address that is allocated already. -/
def collision (test : Bool) (entries : List Entry) : Option (Bool × List Entry) :=
  if test then some (false, entries) else none

/-- The loop of `AddAllocated`. -/
def addEntry (test : Bool) (addr : ℕ) : List Entry → Option (Bool × List Entry)
  | [] => some (true, [⟨addr, addr⟩])
  | e :: es =>
    if addr ≥ e.addrLow ∧ addr ≤ e.addrHigh then collision test (e :: es)
    else if addr < uint32Sub e.addrLow 1 then some (true, ⟨addr, addr⟩ :: e :: es)
    else if addr = uint32 (e.addrHigh + 1) then
      if es.head?.any (addr = ·.addrLow) then collision test (e :: es)
      else some (true, { e with addrHigh := addr } :: es)
    else if addr = uint32Sub e.addrLow 1 then some (true, { e with addrLow := addr } :: es)
    else (addEntry test addr es).map fun (added, es) => (added, e :: es)

def addAllocated (g : Ipv4AddressGenerator) (addr : ℕ) : Option (Bool × Ipv4AddressGenerator) :=
  if addr ≠ 0 then
    (addEntry g.test addr g.entries).map fun (added, entries) => (added, { g with entries })
  else none

def nextAddress (g : Ipv4AddressGenerator) (mask : ℕ) : Option (ℕ × Ipv4AddressGenerator) := do
  let (index, s) ← g.netState mask
  if s.addr ≤ s.addrMax then
    let addr := uint32 (s.network <<< s.shift) ||| s.addr
    let g := g.setNetState index { s with addr := uint32 (s.addr + 1) }
    let (_, g) ← g.addAllocated addr
    some (addr, g)
  else none

def testMode (g : Ipv4AddressGenerator) : Ipv4AddressGenerator := { g with test := true }

/-- The addresses in a list of blocks. -/
def Covers (entries : List Entry) (addr : ℕ) : Prop :=
  ∃ e ∈ entries, e.addrLow ≤ addr ∧ addr ≤ e.addrHigh

instance (entries : List Entry) (addr : ℕ) : Decidable (Covers entries addr) := by
  unfold Covers
  infer_instance

/-- Blocks from address `low` on, one behind the other. -/
def Blocks : ℕ → List Entry → Prop
  | _, [] => True
  | low, e :: es =>
    low ≤ e.addrLow ∧ e.addrLow ≤ e.addrHigh ∧ e.addrHigh < 2 ^ 32 ∧ Blocks (e.addrHigh + 1) es

@[simp] theorem not_covers_nil (addr : ℕ) : ¬Covers [] addr := by
  simp [Covers]

@[simp] theorem covers_cons (e : Entry) (es : List Entry) (addr : ℕ) :
    Covers (e :: es) addr ↔ (e.addrLow ≤ addr ∧ addr ≤ e.addrHigh) ∨ Covers es addr := by
  simp [Covers]

variable {low addr : ℕ} {entries : List Entry}

theorem Blocks.le_of_covers (h : Blocks low entries) (hc : Covers entries addr) : low ≤ addr := by
  induction entries generalizing low with
  | nil => exact absurd hc (not_covers_nil addr)
  | cons e es ih =>
    obtain ⟨h1, h2, -, h4⟩ := h
    rcases (covers_cons e es addr).mp hc with hc | hc
    · omega
    · have := ih h4 hc
      omega

/-- The first address that blocks may have is in them, if and only if the first block has it. -/
theorem Blocks.covers_low (h : Blocks low entries) :
    Covers entries low ↔ entries.head?.any (low = ·.addrLow) = true := by
  cases entries with
  | nil => simp
  | cons e es =>
    obtain ⟨h1, h2, -, h4⟩ := h
    have hrest : ¬Covers es low := fun hc => by
      have := h4.le_of_covers hc
      omega
    rw [covers_cons, or_iff_left hrest]
    simp only [List.head?_cons, Option.any_some, decide_eq_true_eq]
    omega

theorem Blocks.mono {low' : ℕ} (h : Blocks low entries) (hle : low' ≤ low) :
    Blocks low' entries := by
  cases entries with
  | nil => exact True.intro
  | cons e es => exact ⟨hle.trans h.1, h.2⟩

theorem Blocks.succ (h : Blocks low entries) (hnot : ¬Covers entries low) :
    Blocks (low + 1) entries := by
  cases entries with
  | nil => exact True.intro
  | cons e es =>
    obtain ⟨h1, h2, h3, h4⟩ := h
    rw [covers_cons] at hnot
    exact ⟨by omega, h2, h3, h4⟩

/-- One call in test mode, from the blocks that are not passed yet. -/
theorem Blocks.addEntry (h : Blocks low entries) (hlow : low ≤ addr) (hpos : 0 < low)
    (hlt : addr < 2 ^ 32) :
    ∃ entries', addEntry true addr entries = some (decide ¬Covers entries addr, entries') ∧
      Blocks low entries' ∧ ∀ a, Covers entries' a ↔ Covers entries a ∨ a = addr := by
  induction entries generalizing low with
  | nil =>
    refine ⟨[⟨addr, addr⟩], by simp [Ipv4AddressGenerator.addEntry],
      ⟨hlow, le_rfl, hlt, True.intro⟩, fun a => ?_⟩
    simp only [covers_cons, not_covers_nil, or_false, false_or]
    omega
  | cons e es ih =>
    have hblocks := h
    obtain ⟨h1, h2, h3, h4⟩ := h
    have hbelow : uint32Sub e.addrLow 1 = e.addrLow - 1 := uint32Sub_of_le (by omega) (by omega)
    rw [Ipv4AddressGenerator.addEntry, hbelow]
    by_cases hin : e.addrLow ≤ addr ∧ addr ≤ e.addrHigh
    · have hcovers : Covers (e :: es) addr := (covers_cons e es addr).mpr (.inl hin)
      rw [if_pos ⟨hin.1, hin.2⟩, collision, if_pos rfl, decide_eq_false (not_not_intro hcovers)]
      refine ⟨e :: es, rfl, hblocks, fun a => ⟨.inl, ?_⟩⟩
      rintro (ha | rfl)
      · exact ha
      · exact hcovers
    rw [if_neg (by omega)]
    by_cases hbefore : addr < e.addrLow - 1
    · have hnew : ¬Covers (e :: es) addr := by
        rw [covers_cons]
        rintro (hc | hc)
        · exact hin hc
        · have := h4.le_of_covers hc
          omega
      rw [if_pos hbefore, decide_eq_true hnew]
      refine ⟨_, rfl, ⟨hlow, le_rfl, hlt, by dsimp only; omega, h2, h3, h4⟩, fun a => ?_⟩
      rw [covers_cons, or_comm]
      exact or_congr_right (by dsimp only; omega)
    rw [if_neg hbefore]
    by_cases hbehind : addr = e.addrHigh + 1
    · subst hbehind
      rw [if_pos (uint32_of_lt hlt).symm]
      by_cases hnext : es.head?.any (e.addrHigh + 1 = ·.addrLow) = true
      · have hcovers : Covers (e :: es) (e.addrHigh + 1) :=
          (covers_cons e es _).mpr (.inr (h4.covers_low.mpr hnext))
        rw [if_pos hnext, collision, if_pos rfl, decide_eq_false (not_not_intro hcovers)]
        refine ⟨e :: es, rfl, hblocks, fun a => ⟨.inl, ?_⟩⟩
        rintro (ha | rfl)
        · exact ha
        · exact hcovers
      · have hrest : ¬Covers es (e.addrHigh + 1) := fun hc => hnext (h4.covers_low.mp hc)
        have hnew : ¬Covers (e :: es) (e.addrHigh + 1) := by
          rw [covers_cons]
          exact not_or_intro hin hrest
        rw [if_neg hnext, decide_eq_true hnew]
        refine ⟨_, rfl, ⟨h1, by dsimp only; omega, hlt, h4.succ hrest⟩, fun a => ?_⟩
        rw [covers_cons, covers_cons, or_right_comm]
        exact or_congr_left (by dsimp only; omega)
    have hwrap : addr ≠ uint32 (e.addrHigh + 1) := by
      rw [uint32]
      omega
    rw [if_neg hwrap]
    by_cases habove : addr = e.addrLow - 1
    · have hnew : ¬Covers (e :: es) addr := by
        rw [covers_cons]
        rintro (hc | hc)
        · exact hin hc
        · have := h4.le_of_covers hc
          omega
      rw [if_pos habove, decide_eq_true hnew]
      refine ⟨_, rfl, ⟨hlow, by dsimp only; omega, h3, h4⟩, fun a => ?_⟩
      rw [covers_cons, covers_cons, or_right_comm]
      exact or_congr_left (by dsimp only; omega)
    · -- The blocks so far end before the one that is below the address by two or more.
      obtain ⟨es', hadd, hes', hcovers⟩ := ih h4 (by omega) (by omega)
      have hsame : Covers (e :: es) addr ↔ Covers es addr := by
        rw [covers_cons, or_iff_right hin]
      rw [if_neg habove, hadd]
      refine ⟨e :: es', ?_, ⟨h1, h2, h3, hes'⟩, fun a => ?_⟩
      · simp only [Option.map_some, hsame]
      · rw [covers_cons, covers_cons, hcovers, or_assoc]

theorem Blocks.bounds (h : Blocks low entries) {e : Entry} (he : e ∈ entries) :
    low ≤ e.addrLow ∧ e.addrLow ≤ e.addrHigh := by
  induction entries generalizing low with
  | nil => cases he
  | cons e' es ih =>
    obtain ⟨h1, h2, -, h4⟩ := h
    rcases List.mem_cons.mp he with rfl | he
    · exact ⟨h1, h2⟩
    · obtain ⟨hlow, hle⟩ := ih h4 he
      exact ⟨by omega, hle⟩

theorem Blocks.pairwise (h : Blocks low entries) :
    entries.Pairwise fun e e' => e.addrHigh < e'.addrLow := by
  induction entries generalizing low with
  | nil => exact List.Pairwise.nil
  | cons e es ih =>
    obtain ⟨-, -, -, h4⟩ := h
    exact List.pairwise_cons.mpr ⟨fun e' he' => (h4.bounds he').1, ih h4⟩

end Ipv4AddressGenerator

/-- A generator with the calls of `AddAllocated` so far and what they returned. -/
structure AllocationRun where
  generator : Ipv4AddressGenerator
  calls : List (ℕ × Bool)

namespace AllocationRun
open Ipv4AddressGenerator

def start : AllocationRun := ⟨reset.testMode, []⟩

def step (r : AllocationRun) (addr : ℕ) : Option AllocationRun :=
  (r.generator.addAllocated addr).map fun (added, g) => ⟨g, r.calls ++ [(addr, added)]⟩

/-- The blocks are the addresses of the successful calls, in order and apart from each other. -/
structure Accounted (r : AllocationRun) : Prop where
  answers : ∀ i addr added, r.calls[i]? = some (addr, added) →
    (added = false ↔ (addr, true) ∈ r.calls.take i)
  low_le_high : ∀ e ∈ r.generator.entries, e.addrLow ≤ e.addrHigh
  sorted : r.generator.entries.Pairwise fun e e' => e.addrHigh < e'.addrLow
  covers : ∀ addr, Covers r.generator.entries addr ↔ (addr, true) ∈ r.calls

structure Holds (r : AllocationRun) : Prop where
  test : r.generator.test = true
  blocks : Blocks 1 r.generator.entries
  answers : ∀ i addr added, r.calls[i]? = some (addr, added) →
    (added = false ↔ (addr, true) ∈ r.calls.take i)
  covers : ∀ addr, Covers r.generator.entries addr ↔ (addr, true) ∈ r.calls

theorem Holds.accounted {r : AllocationRun} (h : r.Holds) : r.Accounted :=
  ⟨h.answers, fun _ he => (h.blocks.bounds he).2, h.blocks.pairwise, h.covers⟩

theorem start_holds : start.Holds :=
  ⟨rfl, True.intro, fun i addr added hi => by simp [start] at hi, fun addr => by
    simp [start, reset, testMode]⟩

/-- A call never aborts in test mode, and answers whether the address is new. -/
theorem Holds.step {r : AllocationRun} (h : r.Holds) {addr : ℕ} (hpos : 0 < addr)
    (hlt : addr < 2 ^ 32) :
    ∃ r', r.step addr = some r' ∧ r'.Holds ∧
      ∃ added, r'.calls = r.calls ++ [(addr, added)] := by
  obtain ⟨entries, hadd, hblocks, hcovers⟩ := h.blocks.addEntry hpos Nat.one_pos hlt
  rw [← h.test] at hadd
  refine ⟨⟨{ r.generator with entries }, r.calls ++
    [(addr, decide ¬Covers r.generator.entries addr)]⟩, ?_, ⟨h.test, hblocks, ?_, ?_⟩, _, rfl⟩
  · rw [AllocationRun.step, addAllocated, if_pos hpos.ne', hadd]
    rfl
  · intro i a added hi
    rcases Nat.lt_trichotomy i r.calls.length with hlt | rfl | hgt
    · rw [List.getElem?_append_left hlt] at hi
      rw [List.take_append_of_le_length hlt.le]
      exact h.answers i a added hi
    · rw [List.getElem?_append_right le_rfl, Nat.sub_self] at hi
      obtain ⟨rfl, rfl⟩ := Prod.mk.inj (Option.some.inj hi)
      rw [List.take_left, ← h.covers, decide_eq_false_iff_not, not_not]
    · rw [List.getElem?_eq_none (by simp; omega)] at hi
      cases hi
  · intro a
    rw [hcovers, h.covers, List.mem_append, List.mem_singleton, Prod.mk.injEq]
    by_cases hnew : Covers r.generator.entries addr
    · rw [decide_eq_false (not_not_intro hnew)]
      refine ⟨?_, ?_⟩
      · rintro (ha | rfl)
        · exact .inl ha
        · exact .inl ((h.covers a).mp hnew)
      · rintro (ha | ⟨-, hfalse⟩)
        · exact .inl ha
        · cases hfalse
    · rw [decide_eq_true hnew]
      exact or_congr_right ⟨fun ha => ⟨ha, rfl⟩, fun ha => ha.1⟩

/-- In test mode every call answers, and is refused if and only if the address was added before. -/
theorem allocates (addrs : List ℕ) (h : ∀ addr ∈ addrs, 0 < addr ∧ addr < 2 ^ 32) :
    ∃ r, run step start addrs = some r ∧ r.calls.map Prod.fst = addrs ∧ r.Accounted := by
  suffices hrun : ∀ r : AllocationRun, r.Holds → ∃ r', run step r addrs = some r' ∧ r'.Holds ∧
      r'.calls.map Prod.fst = r.calls.map Prod.fst ++ addrs by
    obtain ⟨r, hr, hholds, hcalls⟩ := hrun start start_holds
    exact ⟨r, hr, hcalls, hholds.accounted⟩
  induction addrs with
  | nil => exact fun r hr => ⟨r, rfl, hr, (List.append_nil _).symm⟩
  | cons addr addrs ih =>
    intro r hr
    obtain ⟨hpos, hlt⟩ := h addr List.mem_cons_self
    obtain ⟨r₁, hstep, hholds, added, hcalls⟩ := hr.step hpos hlt
    obtain ⟨r₂, hrun, hholds₂, hcalls₂⟩ :=
      ih (fun a ha => h a (List.mem_cons_of_mem _ ha)) r₁ hholds
    refine ⟨r₂, by rw [run_cons, hstep]; exact hrun, hholds₂, ?_⟩
    rw [hcalls₂, hcalls, List.map_append, List.append_assoc]
    rfl

theorem allocates_adjacent : ∃ r, run step start [5, 10, 4, 6, 9, 7, 8, 8, 2 ^ 32 - 1] = some r ∧
    r.calls.map Prod.fst = [5, 10, 4, 6, 9, 7, 8, 8, 2 ^ 32 - 1] ∧ r.Accounted :=
  allocates _ (by decide)

end AllocationRun

end Ns3Noc
