import Ns3Noc.AdaptiveHeader

/-!
# FourWayLoadRouter and the load router components

A load router remembers one load for each of its four neighbours. Its component turns what
the router has seen into the load that a head flit is meant to take along.
-/
namespace Ns3Noc

/-- The number of an enumerator of `RoutingDirection`. -/
def RoutingDirection.value : RoutingDirection → ℕ
  | none => 0
  | forward => 1
  | back => 2

structure FourWayLoadRouter where
  northLoad : ℤ := 0
  eastLoad : ℤ := 0
  southLoad : ℤ := 0
  westLoad : ℤ := 0
  deriving DecidableEq, Repr

namespace FourWayLoadRouter

/-- `AddNeighborLoad`. The inner tests compare the direction, not the dimension, with 0. -/
def addNeighborLoad (r : FourWayLoadRouter) (load : ℤ) (sourceDevice : NocNetDevice) :
    FourWayLoadRouter :=
  match sourceDevice.routingDirection with
  | .forward =>
    if sourceDevice.routingDimension = 1 then { r with southLoad := load }
    else if sourceDevice.routingDirection.value = 0 then { r with westLoad := load }
    else r
  | .back =>
    if sourceDevice.routingDimension = 1 then { r with northLoad := load }
    else if sourceDevice.routingDirection.value = 0 then { r with eastLoad := load }
    else r
  | .none => r

/-- `GetNeighborLoad (sourceDevice)`. -/
def getNeighborLoad (r : FourWayLoadRouter) (sourceDevice : NocNetDevice) : ℤ :=
  match sourceDevice.routingDirection with
  | .forward =>
    if sourceDevice.routingDimension = 1 then r.southLoad
    else if sourceDevice.routingDimension = 0 then r.westLoad
    else 0
  | .back =>
    if sourceDevice.routingDimension = 1 then r.northLoad
    else if sourceDevice.routingDimension = 0 then r.eastLoad
    else 0
  | .none => 0

/-- `GetNeighborLoad (sourceDevice, direction, dimension)` of the router at `node`. -/
def getNeighborLoadOf (r : FourWayLoadRouter) (w : Wiring) (node : ℕ)
    (direction : RoutingDirection) (dimension : ℕ) : ℤ :=
  match w.getInputNetDevice node direction dimension with
  | none => 0
  | some device => r.getNeighborLoad device

@[simp] theorem addNeighborLoad_zero (sourceDevice : NocNetDevice) :
    addNeighborLoad {} 0 sourceDevice = {} := by
  unfold addNeighborLoad
  cases sourceDevice.routingDirection <;> simp

@[simp] theorem getNeighborLoad_zero (sourceDevice : NocNetDevice) :
    getNeighborLoad {} sourceDevice = 0 := by
  unfold getNeighborLoad
  cases sourceDevice.routingDirection <;> simp

@[simp] theorem getNeighborLoadOf_zero (w : Wiring) (node : ℕ) (direction : RoutingDirection)
    (dimension : ℕ) : getNeighborLoadOf {} w node direction dimension = 0 := by
  unfold getNeighborLoadOf
  cases w.getInputNetDevice node direction dimension <;> simp

end FourWayLoadRouter

/-- Which component a router uses; `SlbLoadRouterComponent` reads the registry attribute
`DataPacketSpeedup`. -/
inductive LoadRouterComponent where
  | slb (dataPacketSpeedup : ℕ)
  | so

/-- The members `m_load` and `m_dataLength` (-1 as `none`) of a component. -/
structure LoadState where
  load : ℕ := 0
  dataLength : Option ℕ := none

namespace LoadRouterComponent

def increaseLoad (s : LoadState) : LoadState := { s with load := s.load + 1 }

/-- `GetLocalLoad` for a head packet. `inChannels` counts the packets in the in-queues of the
router and the sizes of these queues. The quotients of doubles are taken exactly. -/
def getLocalLoad (c : LoadRouterComponent) (s : LoadState) (header : NocHeader)
    (dataFlitCount : ℕ) (inChannels : ℕ × ℕ) : Option (ℤ × LoadState) :=
  match c with
  | slb dataPacketSpeedup => do
    let s := if !header.isEmpty then { s with dataLength := some dataFlitCount } else s
    let dataLength ← s.dataLength
    if 6 * dataPacketSpeedup + dataLength = 0 then none
    else some (min (s.load * 100 / (8 * (6 * dataPacketSpeedup + dataLength)) : ℕ) 100, s)
  | so =>
    let occupancy := if inChannels.2 ≠ 0 ∧ inChannels.1 ≠ 0 then inChannels.1 / inChannels.2 else 0
    let load : ℤ := occupancy * 100
    if 0 ≤ load ∧ load ≤ 100 then some (load, s) else none

/-- The neighbours that count for a selected device: their sum and their number. -/
def neighbourLoads (neighborLoad : RoutingDirection → ℕ → ℤ) (selectedDevice : NocNetDevice) :
    ℤ × ℕ :=
  [(RoutingDirection.forward, 1), (.forward, 0), (.back, 1), (.back, 0)].foldl
    (fun acc p => if selectedDevice.routingDirection ≠ p.1 ∧ selectedDevice.routingDimension ≠ p.2
      then (acc.1 + neighborLoad p.1 p.2, acc.2 + 1) else acc) (0, 0)

/-- `GetLoadForDirection`, the same in both components. -/
def getLoadForDirection (c : LoadRouterComponent) (s : LoadState) (header : NocHeader)
    (dataFlitCount : ℕ) (inChannels : ℕ × ℕ) (neighborLoad : RoutingDirection → ℕ → ℤ)
    (selectedDevice : NocNetDevice) : Option (ℤ × LoadState) := do
  let (load, s) ← c.getLocalLoad s header dataFlitCount inChannels
  let (neighbourLoad, counter) := neighbourLoads neighborLoad selectedDevice
  let load := if counter ≠ 0 then (2 * load + neighbourLoad.tdiv counter).tdiv 3 else load
  some (load, { s with load := 0 })

/-- The local load is too low to show in the load for a direction. -/
def LowLoad (c : LoadRouterComponent) (s : LoadState) (inChannels : ℕ × ℕ) : Prop :=
  match c with
  | slb dataPacketSpeedup => 100 * s.load < 96 * dataPacketSpeedup
  | so => inChannels.1 < inChannels.2 ∨ inChannels.2 = 0

theorem neighbourLoads_zero {selectedDevice : NocNetDevice}
    (h : selectedDevice.routingDirection ≠ .none) (hd : selectedDevice.routingDimension < 2) :
    ∃ counter, neighbourLoads (fun _ _ => 0) selectedDevice = (0, counter + 1) := by
  obtain ⟨node, channel, routingDirection, routingDimension⟩ := selectedDevice
  dsimp only at h hd
  interval_cases routingDimension <;> cases routingDirection <;>
    simp_all [neighbourLoads]

/-- The local load is a percentage, and it is at most 1 exactly when it is low. -/
theorem getLocalLoad_le_one_iff {c : LoadRouterComponent} {s s' : LoadState} {header : NocHeader}
    {inChannels : ℕ × ℕ} {load : ℤ} (hs : ∀ n, s.dataLength = some n → n = 0)
    (h : c.getLocalLoad s header 0 inChannels = some (load, s')) :
    0 ≤ load ∧ (load ≤ 1 ↔ c.LowLoad s inChannels) ∧ ∀ n, s'.dataLength = some n → n = 0 := by
  cases c with
  | slb dataPacketSpeedup =>
    simp only [getLocalLoad, Option.bind_eq_bind, Option.bind_eq_some_iff] at h
    obtain ⟨n, hn, h⟩ := h
    have hzero : n = 0 := by
      split at hn
      · exact (Option.some.inj hn).symm
      · exact hs n hn
    subst hzero
    split at h
    · cases h
    · next hpos =>
      simp only [Option.some.injEq, Prod.mk.injEq] at h
      obtain ⟨rfl, rfl⟩ := h
      have hlt : s.load * 100 / (8 * (6 * dataPacketSpeedup + 0)) ≤ 1 ↔
          100 * s.load < 96 * dataPacketSpeedup := by
        rw [← Nat.lt_succ_iff, Nat.div_lt_iff_lt_mul (by omega)]
        omega
      have hload : (if (!header.isEmpty) = true then { s with dataLength := some 0 }
          else s).load = s.load := by split <;> rfl
      refine ⟨by positivity, ?_, ?_⟩
      · rw [LowLoad, ← hlt, hload]
        omega
      · intro m hm
        rw [hn] at hm
        exact (Option.some.inj hm).symm
  | so =>
    simp only [getLocalLoad, Option.ite_none_right_eq_some, Option.some.injEq,
      Prod.mk.injEq] at h
    obtain ⟨hload, rfl, rfl⟩ := h
    refine ⟨hload.1, ?_, hs⟩
    rw [LowLoad]
    split
    · next hne =>
      have hdiv : inChannels.1 / inChannels.2 = 0 ↔ inChannels.1 < inChannels.2 :=
        Nat.div_eq_zero_iff.trans (or_iff_right hne.1)
      generalize inChannels.1 / inChannels.2 = occupancy at hdiv ⊢
      omega
    · omega

/-- Next to neighbours without load, the load for a direction is 0 exactly when the local load
is low. -/
theorem getLoadForDirection_eq_zero_iff {c : LoadRouterComponent} {s s' : LoadState}
    {header : NocHeader} {inChannels : ℕ × ℕ} {selectedDevice : NocNetDevice} {load : ℤ}
    (hdir : selectedDevice.routingDirection ≠ .none) (hdim : selectedDevice.routingDimension < 2)
    (hs : ∀ n, s.dataLength = some n → n = 0)
    (h : c.getLoadForDirection s header 0 inChannels (fun _ _ => 0) selectedDevice =
      some (load, s')) :
    (load = 0 ↔ c.LowLoad s inChannels) ∧ ∀ n, s'.dataLength = some n → n = 0 := by
  obtain ⟨counter, hcounter⟩ := neighbourLoads_zero hdir hdim
  simp only [getLoadForDirection, Option.bind_eq_bind, Option.bind_eq_some_iff, hcounter,
    Prod.exists, Option.some.injEq, Prod.mk.injEq] at h
  obtain ⟨localLoad, s₁, hlocal, hload, rfl⟩ := h
  obtain ⟨hnonneg, hlow, hlength⟩ := getLocalLoad_le_one_iff hs hlocal
  simp only [Int.zero_tdiv, add_zero, ne_eq, Nat.add_eq_zero_iff, one_ne_zero, and_false,
    not_false_eq_true, if_true] at hload
  rw [Int.tdiv_eq_ediv_of_nonneg (by omega)] at hload
  refine ⟨?_, hlength⟩
  rw [← hlow]
  omega

end LoadRouterComponent
end Ns3Noc
