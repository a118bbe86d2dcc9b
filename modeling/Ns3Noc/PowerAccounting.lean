import Mathlib
import Ns3Noc.PartialRuns

/-!
# Power accounting of flits

Routers and channels keep the flits of the current clock cycle in a list and measure their power at
the first flit of a later cycle, or when the statistics are asked for. The number of flits of the
cycle gives the load, which must not exceed the number of ports. The counters are 64 bits wide; times
are picoseconds below `2 ^ 63`, so that clock numbers do not wrap.
-/
namespace Ns3Noc.PowerAccounting
open PartialRuns

variable {φ : Type}

/-- The accounting fields of `NocRouter` and of `NocChannel` (there `arrivedFlits` is
`m_trasmittedFlits`), and beside them the current time, the flits handled so far with the clock
numbers they came at, and the flits passed to the power measurement. -/
structure PowerAccount (φ : Type) where
  powerCounter : UInt64
  lastClock : ℕ
  flitsFromLastClock : List φ
  arrivedFlits : UInt64
  now : ℕ
  handled : List (φ × ℕ)
  measured : List φ
  deriving DecidableEq

/-- Nothing handled yet, at the given time. -/
def PowerAccount.start (now : ℕ) : PowerAccount φ := ⟨0, 0, [], 0, now, [], []⟩

/-- `Simulator::Now ().GetPicoSeconds () / globalClock.GetPicoSeconds () + 1` -/
def clockNumber (globalClock now : ℕ) : Option ℕ :=
  if globalClock = 0 then none else some (now / globalClock + 1)

/-- The measurement of one flit, which asserts that the load is in [0,1]. -/
def measureFlit (ports : ℕ) (arrivedFlits : UInt64) (measured : List φ) (flit : φ) :
    Option (List φ) :=
  if 0 < ports ∧ arrivedFlits.toNat ≤ ports then some (measured ++ [flit]) else none

/-- The loop over the flits of the last cycle. -/
def measureLastClock (ports : ℕ) (s : PowerAccount φ) : Option (List φ) :=
  s.flitsFromLastClock.foldlM (measureFlit ports s.arrivedFlits) s.measured

/-- What `ManageFlit` and `TransmitEnd` do with a flit. -/
def accountFlit (ports globalClock : ℕ) (flit : φ) (s : PowerAccount φ) :
    Option (PowerAccount φ) := do
  let clock ← clockNumber globalClock s.now
  if s.lastClock < clock then
    let measured ← measureLastClock ports s
    some { s with
      powerCounter := s.powerCounter + 1
      lastClock := clock
      flitsFromLastClock := [flit]
      arrivedFlits := 1
      handled := s.handled ++ [(flit, clock)]
      measured := measured }
  else
    some { s with
      powerCounter := s.powerCounter + 1
      flitsFromLastClock := s.flitsFromLastClock ++ [flit]
      arrivedFlits := s.arrivedFlits + 1
      handled := s.handled ++ [(flit, clock)] }

/-- What the statistics queries do before they average. -/
def accountQuery (ports globalClock : ℕ) (s : PowerAccount φ) : Option (PowerAccount φ) := do
  let clock ← clockNumber globalClock s.now
  let measured ← measureLastClock ports s
  some { s with
    lastClock := clock
    flitsFromLastClock := []
    arrivedFlits := 0
    measured := measured }

namespace NocRouter

/-- The accounting of `NocRouter::ManageFlit`; a flit for its own node is not handled. -/
def manageFlit (ports globalClock sourceNodeId destinationNodeId : ℕ) (flit : φ)
    (s : PowerAccount φ) : Option (PowerAccount φ) :=
  if sourceNodeId = destinationNodeId then some s else accountFlit ports globalClock flit s

def measurePowerAndEnergyForLastClock (ports globalClock : ℕ) (s : PowerAccount φ) :
    Option (PowerAccount φ) := accountQuery ports globalClock s

inductive Call (φ : Type)
  | manageFlit (sourceNodeId destinationNodeId : ℕ) (flit : φ)
  | measurePowerAndEnergyForLastClock

end NocRouter

namespace NocChannel

/-- The size of `m_currentPkt`, which the constructor fills for both directions. -/
def links : ℕ := 2

/-- The accounting of `NocChannel::TransmitEnd`. -/
def transmitEnd (globalClock : ℕ) (flit : φ) (s : PowerAccount φ) : Option (PowerAccount φ) :=
  accountFlit links globalClock flit s

def measurePowerForLastClock (globalClock : ℕ) (s : PowerAccount φ) : Option (PowerAccount φ) :=
  accountQuery links globalClock s

inductive Call (φ : Type)
  | transmitEnd (flit : φ)
  | measurePowerForLastClock

end NocChannel

/-- The clock goes on by some picoseconds, as long as the time is representable. -/
def elapse (elapsed : ℕ) (s : PowerAccount φ) : Option (PowerAccount φ) :=
  if s.now + elapsed < 2 ^ 63 then some { s with now := s.now + elapsed } else none

/-- A router call after some time. -/
def NocRouter.step (ports globalClock : ℕ) (s : PowerAccount φ) :
    ℕ × NocRouter.Call φ → Option (PowerAccount φ)
  | (elapsed, .manageFlit source destination flit) =>
    (elapse elapsed s).bind (NocRouter.manageFlit ports globalClock source destination flit)
  | (elapsed, .measurePowerAndEnergyForLastClock) =>
    (elapse elapsed s).bind (NocRouter.measurePowerAndEnergyForLastClock ports globalClock)

/-- A channel call after some time. -/
def NocChannel.step (globalClock : ℕ) (s : PowerAccount φ) :
    ℕ × NocChannel.Call φ → Option (PowerAccount φ)
  | (elapsed, .transmitEnd flit) =>
    (elapse elapsed s).bind (NocChannel.transmitEnd globalClock flit)
  | (elapsed, .measurePowerForLastClock) =>
    (elapse elapsed s).bind (NocChannel.measurePowerForLastClock globalClock)

/-- The list has as many flits as the cycle counter says, all of the cycle `lastClock`; the flits
handled before them have been measured, each once and in the order they came; and the power counter
counts both. -/
structure Balanced (s : PowerAccount φ) : Prop where
  length_eq : s.arrivedFlits = UInt64.ofNat s.flitsFromLastClock.length
  handled_eq : ∃ old, s.handled = old ++ s.flitsFromLastClock.map (·, s.lastClock) ∧
    old.map Prod.fst = s.measured
  powerCounter_eq :
    s.powerCounter = UInt64.ofNat (s.measured.length + s.flitsFromLastClock.length)

theorem balanced_start (now : ℕ) : Balanced (PowerAccount.start now : PowerAccount φ) where
  length_eq := rfl
  handled_eq := ⟨[], rfl, rfl⟩
  powerCounter_eq := rfl

/-- The loop measures every flit of the list or stops. -/
theorem foldlM_measureFlit {ports : ℕ} {arrivedFlits : UInt64} {flits measured measured' : List φ}
    (h : flits.foldlM (measureFlit ports arrivedFlits) measured = some measured') :
    measured' = measured ++ flits := by
  induction flits generalizing measured with
  | nil => simpa using h.symm
  | cons flit flits ih =>
    obtain ⟨m, hm, h⟩ := Option.bind_eq_some_iff.mp h
    obtain ⟨-, hm⟩ := Option.ite_none_right_eq_some.mp hm
    obtain rfl := Option.some.inj hm
    rw [ih h, List.append_assoc, List.singleton_append]

theorem measureLastClock_eq {ports : ℕ} {s : PowerAccount φ} {measured : List φ}
    (h : measureLastClock ports s = some measured) :
    measured = s.measured ++ s.flitsFromLastClock := foldlM_measureFlit h

theorem clockNumber_eq {globalClock now clock : ℕ} (h : clockNumber globalClock now = some clock) :
    clock = now / globalClock + 1 := by
  obtain ⟨-, h⟩ := Option.ite_none_left_eq_some.mp h
  exact (Option.some.inj h).symm

/-- All flits are measured: what `handled_eq` says of an account with an empty list. -/
theorem Balanced.measured_all {s : PowerAccount φ} (hs : Balanced s) :
    s.handled.map Prod.fst = s.measured ++ s.flitsFromLastClock := by
  obtain ⟨old, hold, hmeasured⟩ := hs.handled_eq
  simp [hold, hmeasured, Function.comp_def]

/-- Balanced, and no later cycle than the current one has been seen. -/
structure UpToDate (globalClock : ℕ) (s : PowerAccount φ) : Prop where
  balanced : Balanced s
  lastClock_le : s.lastClock ≤ s.now / globalClock + 1

variable {ports globalClock : ℕ} {s s' : PowerAccount φ}

theorem UpToDate.elapse (hs : UpToDate globalClock s) {elapsed : ℕ}
    (h : elapse elapsed s = some s') : UpToDate globalClock s' := by
  obtain ⟨-, h⟩ := Option.ite_none_right_eq_some.mp h
  obtain rfl := Option.some.inj h
  refine ⟨⟨hs.balanced.length_eq, hs.balanced.handled_eq, hs.balanced.powerCounter_eq⟩, ?_⟩
  have hle : s.now / globalClock ≤ (s.now + elapsed) / globalClock :=
    Nat.div_le_div_right (Nat.le_add_right _ _)
  exact hs.lastClock_le.trans (Nat.succ_le_succ hle)

theorem UpToDate.accountFlit (hs : UpToDate globalClock s) {flit : φ}
    (h : accountFlit ports globalClock flit s = some s') : UpToDate globalClock s' := by
  obtain ⟨clock, hclock, h⟩ := Option.bind_eq_some_iff.mp h
  have hnow := clockNumber_eq hclock
  have hlength := hs.balanced.length_eq
  have hcounter := hs.balanced.powerCounter_eq
  split at h
  · obtain ⟨measured, hm, h⟩ := Option.bind_eq_some_iff.mp h
    obtain rfl := Option.some.inj h
    obtain rfl := measureLastClock_eq hm
    refine ⟨⟨rfl, ⟨s.handled, rfl, hs.balanced.measured_all⟩, ?_⟩, hnow.le⟩
    simp [hcounter, UInt64.ofNat_add, add_assoc]
  · rename_i hsame
    -- the clock has not gone back, so the flit is of the same cycle as the list
    have hlast : s.lastClock = clock := Nat.le_antisymm (hnow ▸ hs.lastClock_le) (not_lt.mp hsame)
    obtain rfl := Option.some.inj h
    obtain ⟨old, hold, hmeasured⟩ := hs.balanced.handled_eq
    refine ⟨⟨?_, ⟨old, ?_, hmeasured⟩, ?_⟩, hs.lastClock_le⟩
    · simp [hlength, UInt64.ofNat_add]
    · simp [hold, hlast]
    · simp [hcounter, UInt64.ofNat_add, add_assoc]

theorem UpToDate.accountQuery (hs : UpToDate globalClock s)
    (h : accountQuery ports globalClock s = some s') : UpToDate globalClock s' := by
  obtain ⟨clock, hclock, h⟩ := Option.bind_eq_some_iff.mp h
  obtain ⟨measured, hm, h⟩ := Option.bind_eq_some_iff.mp h
  obtain rfl := Option.some.inj h
  obtain rfl := measureLastClock_eq hm
  refine ⟨⟨rfl, ⟨s.handled, by simp, hs.balanced.measured_all⟩, ?_⟩, (clockNumber_eq hclock).le⟩
  simp [hs.balanced.powerCounter_eq]

theorem NocRouter.upToDate_step (hs : UpToDate globalClock s) {l : ℕ × NocRouter.Call φ}
    (h : NocRouter.step ports globalClock s l = some s') : UpToDate globalClock s' := by
  obtain ⟨elapsed, call⟩ := l
  cases call with
  | manageFlit source destination flit =>
    obtain ⟨t, ht, h⟩ := Option.bind_eq_some_iff.mp h
    have ht' := hs.elapse ht
    rw [NocRouter.manageFlit] at h
    split at h
    · exact Option.some.inj h ▸ ht'
    · exact ht'.accountFlit h
  | measurePowerAndEnergyForLastClock =>
    obtain ⟨t, ht, h⟩ := Option.bind_eq_some_iff.mp h
    exact (hs.elapse ht).accountQuery h

theorem NocChannel.upToDate_step (hs : UpToDate globalClock s) {l : ℕ × NocChannel.Call φ}
    (h : NocChannel.step globalClock s l = some s') : UpToDate globalClock s' := by
  obtain ⟨elapsed, call⟩ := l
  cases call with
  | transmitEnd flit =>
    obtain ⟨t, ht, h⟩ := Option.bind_eq_some_iff.mp h
    exact (hs.elapse ht).accountFlit h
  | measurePowerForLastClock =>
    obtain ⟨t, ht, h⟩ := Option.bind_eq_some_iff.mp h
    exact (hs.elapse ht).accountQuery h

theorem upToDate_start (globalClock now : ℕ) :
    UpToDate globalClock (PowerAccount.start now : PowerAccount φ) :=
  ⟨balanced_start now, Nat.zero_le _⟩

/-- Routers and channels balance their accounts in every state of every run. -/
theorem always_balanced (ports globalClock now : ℕ) (routerCalls : List (ℕ × NocRouter.Call φ))
    (channelCalls : List (ℕ × NocChannel.Call φ)) :
    Always (NocRouter.step ports globalClock) Balanced (.start now) routerCalls ∧
      Always (NocChannel.step globalClock) Balanced (.start now) channelCalls := by
  have hstart : UpToDate globalClock (PowerAccount.start now : PowerAccount φ) :=
    upToDate_start globalClock now
  constructor
  · have hstep : ∀ (s : PowerAccount φ) l s', UpToDate globalClock s → True →
        NocRouter.step ports globalClock s l = some s' → UpToDate globalClock s' :=
      fun _ _ _ hs _ h => NocRouter.upToDate_step hs h
    exact (Always.of_invariant hstep hstart (Allowed.trivial _ _ _)).mono fun _ hs => hs.balanced
  · have hstep : ∀ (s : PowerAccount φ) l s', UpToDate globalClock s → True →
        NocChannel.step globalClock s l = some s' → UpToDate globalClock s' :=
      fun _ _ _ hs _ h => NocChannel.upToDate_step hs h
    exact (Always.of_invariant hstep hstart (Allowed.trivial _ _ _)).mono fun _ hs => hs.balanced

end Ns3Noc.PowerAccounting
