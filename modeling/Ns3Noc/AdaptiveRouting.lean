import Ns3Noc.BestOf
import Ns3Noc.DorRouting
import Ns3Noc.MeshTopologies2D

/-!
# SlbRouting and SoRouting

Both protocols evaluate the output devices of a router, keep the best ones and let a random
number pick one of them. What they read besides the header is gathered in `Surroundings`.
The load that `UpdateHeader` computes for the tag has no effect on the header; it belongs to
the load router components.
-/
namespace Ns3Noc

namespace Wiring

/-- `FourWayRouter::GetOutputNetDevices`. -/
def getOutputNetDevices (w : Wiring) (node : ℕ) : List NocNetDevice :=
  (w.routerDevices node).foldl (fun outputDevices d => d :: outputDevices) []

theorem mem_getOutputNetDevices {w : Wiring} {node : ℕ} {d : NocNetDevice} :
    d ∈ w.getOutputNetDevices node ↔ d ∈ w.devices ∧ d.node = node := by
  simp [getOutputNetDevices, mem_routerDevices]

end Wiring

/-- What a request sees of the neighbours, the channels and the packet. -/
structure Surroundings where
  neighborLoad : NocNetDevice → ℤ
  isBusy : NocNetDevice → Bool
  inQueueNPackets : NocNetDevice → ℕ
  dataFlitCount : ℕ

/-- `IsProgressiveDirection`, the same in both protocols. -/
def isProgressiveDirection (header : NocHeader) (device : NocNetDevice) : Bool :=
  (header.hasEastDirection && header.getXOffset > 0 && device.routingDirection == .forward &&
    device.routingDimension == 0) ||
  (header.hasWestDirection && header.getXOffset > 0 && device.routingDirection == .back &&
    device.routingDimension == 0) ||
  (header.hasNorthDirection && header.getYOffset > 0 && device.routingDirection == .forward &&
    device.routingDimension == 1) ||
  (header.hasSouthDirection && header.getYOffset > 0 && device.routingDirection == .back &&
    device.routingDimension == 1)

/-- `UpdateHeader`, the same in both protocols: an `int` offset of -1 becomes 255. -/
def updateHeader (header : NocHeader) (device : NocNetDevice) : NocHeader :=
  match device.routingDirection with
  | .forward | .back =>
    if device.routingDimension = 0 then header.setXOffset (header.getXOffset - 1)
    else if device.routingDimension = 1 then header.setYOffset (header.getYOffset - 1)
    else header
  | .none => header

/-- The attributes of `SlbRouting`. -/
structure SlbRouting where
  progressiveWeight : ℤ := 2
  remainingWeight : ℤ := -1
  loadWeight : ℤ := -4
  loadThreshold : ℤ := 50

namespace SlbRouting

/-- `DoRoutingFunction`: every device with another direction than the source device. -/
def doRoutingFunction (source : RoutingDirection) (devices : List NocNetDevice) :
    List NocNetDevice :=
  (devices.filter (fun d => d.routingDirection != source)).reverse

def evaluate (p : SlbRouting) (env : Surroundings) (header : NocHeader) (device : NocNetDevice) :
    ℤ :=
  (if isProgressiveDirection header device then p.progressiveWeight else 0) +
  (if env.neighborLoad device > p.loadThreshold then p.loadWeight else 0) +
  (if env.isBusy device then p.remainingWeight else 0)

end SlbRouting

/-- The attributes of `SoRouting`. -/
structure SoRouting where
  progressiveWeight : ℤ := 1
  remainingWeight : ℤ := 1
  loadWeight : ℤ := 1

namespace SoRouting

/-- `DoRoutingFunction`: only progressive devices once a dimension is finished. -/
def doRoutingFunction (source : RoutingDirection) (header : NocHeader)
    (devices : List NocNetDevice) : List NocNetDevice :=
  (devices.filter (fun d => d.routingDirection != source &&
    if header.getXOffset == 0 then d.routingDimension == 1 && isProgressiveDirection header d
    else if header.getYOffset == 0 then
      d.routingDimension == 0 && isProgressiveDirection header d
    else true)).reverse

/-- What `Evaluate` adds for a busy channel. -/
def addValue (p : SoRouting) (env : Surroundings) (device : NocNetDevice) : ℤ :=
  let inQueueNPackets := min (env.inQueueNPackets device) (env.dataFlitCount + 1)
  p.remainingWeight * (100 - (inQueueNPackets * 100 / (env.dataFlitCount + 1) : ℕ))

/-- The value of `Evaluate` before it is divided by the sum of the weights. -/
def weighted (p : SoRouting) (env : Surroundings) (header : NocHeader) (device : NocNetDevice) :
    ℤ :=
  p.loadWeight * (100 - env.neighborLoad device) +
  (if isProgressiveDirection header device then p.progressiveWeight * 100 else 0) +
  (if env.isBusy device then p.addValue env device else 0)

/-- `Evaluate`, with the division of C++ that rounds towards zero. -/
def evaluate (p : SoRouting) (env : Surroundings) (header : NocHeader) (device : NocNetDevice) :
    ℤ :=
  let value := p.weighted env header device
  if value ≠ 0 then value.tdiv (p.loadWeight + p.remainingWeight + p.progressiveWeight) else value

/-- The division by the weights and the final assertion of `Evaluate` succeed. -/
def evaluates (p : SoRouting) (env : Surroundings) (header : NocHeader) (device : NocNetDevice) :
    Bool :=
  (p.weighted env header device == 0 ||
    p.loadWeight + p.remainingWeight + p.progressiveWeight != 0) &&
  (0 ≤ p.evaluate env header device && p.evaluate env header device ≤ 100)

/-- `progressiveDevices` of `DoSelectionFunction`: consulted only in a draw. -/
def progressiveDevices (header : NocHeader) (selectedDevices : List NocNetDevice) :
    List NocNetDevice :=
  if selectedDevices.length > 1 then
    (selectedDevices.filter (isProgressiveDirection header)).reverse
  else []

theorem mem_progressiveDevices {header : NocHeader} {selectedDevices : List NocNetDevice}
    {d : NocNetDevice} : d ∈ progressiveDevices header selectedDevices ↔
      1 < selectedDevices.length ∧ d ∈ selectedDevices ∧
        isProgressiveDirection header d = true := by
  unfold progressiveDevices
  split
  · next h => simp [h]
  · next h => simp [h]

end SoRouting

/-- The two protocols. -/
inductive AdaptiveRouting where
  | slb (p : SlbRouting)
  | so (p : SoRouting)

namespace AdaptiveRouting

def doRoutingFunction : AdaptiveRouting → RoutingDirection → NocHeader → List NocNetDevice →
    List NocNetDevice
  | slb _, source, _, devices => SlbRouting.doRoutingFunction source devices
  | so _, source, header, devices => SoRouting.doRoutingFunction source header devices

def evaluate : AdaptiveRouting → Surroundings → NocHeader → NocNetDevice → ℤ
  | slb p => p.evaluate
  | so p => p.evaluate

/-- `selectedDevices` of `DoSelectionFunction`. -/
def selectedDevices (r : AdaptiveRouting) (env : Surroundings) (header : NocHeader)
    (devices : List NocNetDevice) : List NocNetDevice :=
  BestOf.bestOf (r.evaluate env header) (-1) devices

/-- The vector that `DoSelectionFunction` indexes with a random number; `none` is a failed
assertion of `Evaluate`. -/
def indexedDevices (r : AdaptiveRouting) (env : Surroundings) (header : NocHeader)
    (devices : List NocNetDevice) : Option (List NocNetDevice) :=
  let selected := r.selectedDevices env header devices
  match r with
  | slb _ => some selected
  | so p =>
    if devices.all (p.evaluates env header) then
      let progressive := SoRouting.progressiveDevices header selected
      some (if progressive.length > 0 then progressive else selected)
    else none

/-- `DoSelectionFunction`; the random number is an index into the vector. -/
def doSelectionFunction (r : AdaptiveRouting) (env : Surroundings) (header : NocHeader)
    (devices : List NocNetDevice) (choice : ℕ) : Option NocNetDevice := do
  (← r.indexedDevices env header devices)[choice]?

/-- `RequestNewRoute` at `node` for a packet that came through a device with direction
`source`; `none` is a failed assertion or an index into an empty vector. -/
def requestNewRoute (r : AdaptiveRouting) (w : Wiring) (node : ℕ) (source : RoutingDirection)
    (destination : ℕ) (header : NocHeader) (env : Surroundings) (choice : ℕ) : Option Route := do
  if header.isEmpty then none
  else
    let devices := r.doRoutingFunction source header (w.getOutputNetDevices node)
    let selectedDevice ← r.doSelectionFunction env header devices choice
    let sourceNetDevice ← w.getOutputNetDevice node selectedDevice.routingDirection
      selectedDevice.routingDimension
    let destinationNetDevice ←
      (((((w.getInputNetDevice destination selectedDevice.routingDirection.opposite
        selectedDevice.routingDimension).or
        (w.getInputNetDevice destination RoutingDirection.forward.opposite 1)).or
        (w.getInputNetDevice destination RoutingDirection.forward.opposite 0)).or
        (w.getInputNetDevice destination RoutingDirection.back.opposite 1)).or
        (w.getInputNetDevice destination RoutingDirection.back.opposite 0))
    some ⟨updateHeader header selectedDevice, sourceNetDevice, destinationNetDevice⟩

/-- Some progressive candidate reaches the floor of the selection and beats every other
candidate, where `SoRouting` also prefers it in a draw. -/
def PrefersProgressive (r : AdaptiveRouting) (env : Surroundings) (header : NocHeader)
    (devices : List NocNetDevice) : Prop :=
  ∃ d ∈ devices, isProgressiveDirection header d ∧ -1 ≤ r.evaluate env header d ∧
    ∀ e ∈ devices, ¬isProgressiveDirection header e → match r with
      | slb p => p.evaluate env header e < p.evaluate env header d
      | so p => p.evaluate env header e ≤ p.evaluate env header d

theorem mem_doRoutingFunction_slb {source : RoutingDirection} {devices : List NocNetDevice}
    {d : NocNetDevice} : d ∈ SlbRouting.doRoutingFunction source devices ↔
      d ∈ devices ∧ d.routingDirection ≠ source := by
  simp [SlbRouting.doRoutingFunction]

theorem mem_of_mem_doRoutingFunction {r : AdaptiveRouting} {source : RoutingDirection}
    {header : NocHeader} {devices : List NocNetDevice} {d : NocNetDevice}
    (h : d ∈ r.doRoutingFunction source header devices) :
    d ∈ devices ∧ d.routingDirection ≠ source := by
  cases r with
  | slb p => exact mem_doRoutingFunction_slb.mp h
  | so p =>
    simp only [doRoutingFunction, SoRouting.doRoutingFunction, List.mem_reverse, List.mem_filter,
      Bool.and_eq_true, bne_iff_ne] at h
    exact ⟨h.1, h.2.1⟩

/-- A progressive device points along a dimension with an offset left. -/
theorem isProgressiveDirection_iff {header : NocHeader} {device : NocNetDevice} :
    isProgressiveDirection header device = true ↔
      ∃ k < 2, device.routingDimension = k ∧
        ((0 < header.signedOffset k ∧ device.routingDirection = .forward) ∨
          (header.signedOffset k < 0 ∧ device.routingDirection = .back)) := by
  have hbyte : ∀ b : UInt8,
      (0 < OffsetByte.signed b ↔
        OffsetByte.isForward b = true ∧ decide (OffsetByte.offset b > 0) = true) ∧
      (OffsetByte.signed b < 0 ↔
        OffsetByte.isForward b = false ∧ decide (OffsetByte.offset b > 0) = true) := by
    refine OffsetByte.forall_byte ?_
    decide +kernel
  have hx := hbyte (header.byte 0)
  have hy := hbyte (header.byte 1)
  simp only [isProgressiveDirection, NocHeader.hasEastDirection, NocHeader.hasWestDirection,
    NocHeader.hasNorthDirection, NocHeader.hasSouthDirection, NocHeader.getXOffset,
    NocHeader.getYOffset, Bool.or_eq_true, Bool.and_eq_true, beq_iff_eq,
    Bool.not_eq_true', NocHeader.signedOffset]
  constructor
  · rintro (((⟨⟨⟨hd, ho⟩, hdir⟩, hdim⟩ | ⟨⟨⟨hd, ho⟩, hdir⟩, hdim⟩) | ⟨⟨⟨hd, ho⟩, hdir⟩, hdim⟩) |
      ⟨⟨⟨hd, ho⟩, hdir⟩, hdim⟩)
    · exact ⟨0, by omega, hdim, .inl ⟨hx.1.mpr ⟨hd, ho⟩, hdir⟩⟩
    · exact ⟨0, by omega, hdim, .inr ⟨hx.2.mpr ⟨hd, ho⟩, hdir⟩⟩
    · exact ⟨1, by omega, hdim, .inl ⟨hy.1.mpr ⟨hd, ho⟩, hdir⟩⟩
    · exact ⟨1, by omega, hdim, .inr ⟨hy.2.mpr ⟨hd, ho⟩, hdir⟩⟩
  · rintro ⟨k, hk, hdim, h⟩
    interval_cases k
    · rcases h with ⟨hs, hdir⟩ | ⟨hs, hdir⟩
      · exact .inl (.inl (.inl ⟨⟨hx.1.mp hs, hdir⟩, hdim⟩))
      · exact .inl (.inl (.inr ⟨⟨hx.2.mp hs, hdir⟩, hdim⟩))
    · rcases h with ⟨hs, hdir⟩ | ⟨hs, hdir⟩
      · exact .inl (.inr ⟨⟨hy.1.mp hs, hdir⟩, hdim⟩)
      · exact .inr ⟨⟨hy.2.mp hs, hdir⟩, hdim⟩

theorem updateHeader_eq_lower {header : NocHeader} {device : NocNetDevice}
    (hd : device.routingDirection ≠ .none) (hk : device.routingDimension < 2) :
    updateHeader header device = header.lower device.routingDimension := by
  have hlower : (if device.routingDimension = 0 then header.setXOffset (header.getXOffset - 1)
      else if device.routingDimension = 1 then header.setYOffset (header.getYOffset - 1)
      else header) = header.lower device.routingDimension := by
    have hdim : device.routingDimension = 0 ∨ device.routingDimension = 1 := by omega
    rcases hdim with h | h
    · simp [h, NocHeader.setXOffset, NocHeader.getXOffset, NocHeader.lower]
    · simp [h, NocHeader.setYOffset, NocHeader.getYOffset, NocHeader.lower]
  unfold updateHeader
  cases h : device.routingDirection with
  | none => exact absurd h hd
  | forward => exact hlower
  | back => exact hlower

/-- A progressive device is a candidate unless it has the direction of the source device. -/
theorem mem_doRoutingFunction_of_progressive {r : AdaptiveRouting} {source : RoutingDirection}
    {header : NocHeader} {devices : List NocNetDevice} {d : NocNetDevice}
    (hp : isProgressiveDirection header d = true) :
    d ∈ r.doRoutingFunction source header devices ↔
      d ∈ devices ∧ d.routingDirection ≠ source := by
  cases r with
  | slb p => exact mem_doRoutingFunction_slb
  | so p =>
    refine ⟨mem_of_mem_doRoutingFunction, ?_⟩
    rintro ⟨hd, hdir⟩
    have hdim : ∀ k < 2, header.signedOffset k = 0 → d.routingDimension ≠ k := by
      intro k hk hz heq
      obtain ⟨j, -, hj, hsign⟩ := isProgressiveDirection_iff.mp hp
      rw [← hj, heq] at hsign
      omega
    obtain ⟨j, hj, hjd, -⟩ := isProgressiveDirection_iff.mp hp
    have hx : header.getXOffset = 0 → d.routingDimension = 1 := by
      intro h
      have := hdim 0 (by omega) ((OffsetByte.signed_eq_zero_iff _).mpr h)
      omega
    have hy : header.getYOffset = 0 → d.routingDimension = 0 := by
      intro h
      have := hdim 1 (by omega) ((OffsetByte.signed_eq_zero_iff _).mpr h)
      omega
    simp only [doRoutingFunction, SoRouting.doRoutingFunction, List.mem_reverse, List.mem_filter,
      Bool.and_eq_true, bne_iff_ne]
    refine ⟨hd, hdir, ?_⟩
    split
    · next h => simp [hx (beq_iff_eq.mp h), hp]
    · split
      · next h => simp [hy (beq_iff_eq.mp h), hp]
      · rfl

/-- With the default weights the threshold decides whether a device reaches the floor. -/
theorem floor_le_evaluate_slb (env : Surroundings) (header : NocHeader) (d : NocNetDevice) :
    -1 ≤ SlbRouting.evaluate {} env header d ↔ env.neighborLoad d ≤ 50 := by
  unfold SlbRouting.evaluate
  split <;> split <;> split <;> simp_all

/-- With the default weights `SlbRouting` prefers progressive devices exactly when one of them
leads to a neighbour that is not loaded. -/
theorem prefersProgressive_slb_iff {env : Surroundings} {header : NocHeader}
    {devices : List NocNetDevice} : (slb {}).PrefersProgressive env header devices ↔
      ∃ d ∈ devices, isProgressiveDirection header d = true ∧ env.neighborLoad d ≤ 50 := by
  constructor
  · rintro ⟨d, hd, hp, hfloor, -⟩
    exact ⟨d, hd, hp, (floor_le_evaluate_slb env header d).mp hfloor⟩
  · rintro ⟨d, hd, hp, hload⟩
    refine ⟨d, hd, hp, (floor_le_evaluate_slb env header d).mpr hload, ?_⟩
    intro e _ he
    have hd' : 0 < SlbRouting.evaluate {} env header d := by
      unfold SlbRouting.evaluate
      rw [if_pos hp, if_neg (by simpa using hload)]
      split <;> decide
    have he' : SlbRouting.evaluate {} env header e ≤ 0 := by
      unfold SlbRouting.evaluate
      rw [if_neg he]
      split <;> split <;> decide
    exact he'.trans_lt hd'

/-- With the default weights and percentages for loads, `SoRouting` evaluates to a percentage. -/
theorem evaluate_so_bounds (env : Surroundings) (header : NocHeader) (d : NocNetDevice)
    (hload : 0 ≤ env.neighborLoad d ∧ env.neighborLoad d ≤ 100) :
    0 ≤ SoRouting.evaluate {} env header d ∧ SoRouting.evaluates {} env header d = true := by
  have hadd : 0 ≤ SoRouting.addValue {} env d ∧ SoRouting.addValue {} env d ≤ 100 := by
    have hle : min (env.inQueueNPackets d) (env.dataFlitCount + 1) * 100 /
        (env.dataFlitCount + 1) ≤ 100 := by
      apply Nat.div_le_of_le_mul
      exact Nat.mul_le_mul_right 100 (Nat.min_le_right _ _)
    simp only [SoRouting.addValue, one_mul]
    generalize min (env.inQueueNPackets d) (env.dataFlitCount + 1) * 100 /
      (env.dataFlitCount + 1) = occupied at hle ⊢
    omega
  have hw : 0 ≤ SoRouting.weighted {} env header d ∧ SoRouting.weighted {} env header d ≤ 300 := by
    simp only [SoRouting.weighted, one_mul]
    split <;> split <;> omega
  have hvalue : 0 ≤ SoRouting.evaluate {} env header d ∧
      SoRouting.evaluate {} env header d ≤ 100 := by
    simp only [SoRouting.evaluate]
    split
    · rw [Int.tdiv_eq_ediv_of_nonneg hw.1]
      omega
    · omega
  refine ⟨hvalue.1, ?_⟩
  simp [SoRouting.evaluates, hvalue]

/-- The vector that is indexed holds candidates with the best value only. -/
theorem mem_indexedDevices {r : AdaptiveRouting} {env : Surroundings} {header : NocHeader}
    {devices vector : List NocNetDevice} (h : r.indexedDevices env header devices = some vector)
    {d : NocNetDevice} (hd : d ∈ vector) : d ∈ r.selectedDevices env header devices := by
  cases r with
  | slb p => exact Option.some.inj h ▸ hd
  | so p =>
    simp only [indexedDevices] at h
    split at h
    · rw [Option.some.injEq] at h
      subst h
      split at hd
      · exact (SoRouting.mem_progressiveDevices.mp hd).2.1
      · exact hd
    · cases h

/-- Where a progressive candidate is preferred, only progressive ones can be picked. -/
theorem progressive_of_mem_indexedDevices {r : AdaptiveRouting} {env : Surroundings}
    {header : NocHeader} {devices vector : List NocNetDevice}
    (hp : r.PrefersProgressive env header devices)
    (h : r.indexedDevices env header devices = some vector) {d : NocNetDevice} (hd : d ∈ vector) :
    isProgressiveDirection header d = true := by
  obtain ⟨p, hpm, hprog, hfloor, hbeats⟩ := hp
  by_contra hnot
  obtain ⟨hdm, hdf, hbest⟩ := BestOf.mem_bestOf.mp (mem_indexedDevices h hd)
  have hle := hbest p hpm
  have hbeat := hbeats d hdm hnot
  cases r with
  | slb _ => exact absurd hle (not_le.mpr hbeat)
  | so q =>
    -- in a draw the progressive candidate is among the best as well
    have heq : q.evaluate env header d = q.evaluate env header p := le_antisymm hbeat hle
    have hpsel : p ∈ selectedDevices (so q) env header devices :=
      BestOf.mem_bestOf.mpr ⟨hpm, hfloor, fun e he => (hbest e he).trans hbeat⟩
    have hdsel := mem_indexedDevices h hd
    have hlen : (selectedDevices (so q) env header devices).length > 1 := by
      have hne : d ≠ p := fun h => hnot (h ▸ hprog)
      by_contra hle1
      match hs : selectedDevices (so q) env header devices with
      | [] => simp [hs] at hpsel
      | [a] =>
        rw [hs, List.mem_singleton] at hpsel hdsel
        exact hne (hdsel.trans hpsel.symm)
      | a :: b :: l => simp [hs] at hle1
    have hpprog := SoRouting.mem_progressiveDevices.mpr ⟨hlen, hpsel, hprog⟩
    simp only [indexedDevices] at h
    split at h
    · rw [Option.some.injEq, if_pos (List.length_pos_of_mem hpprog)] at h
      subst h
      exact hnot (SoRouting.mem_progressiveDevices.mp hd).2.2
    · cases h

/-- What a granted request has done. -/
theorem requestNewRoute_eq_some {r : AdaptiveRouting} {w : Wiring} {node : ℕ}
    {source : RoutingDirection} {destination : ℕ} {header : NocHeader} {env : Surroundings}
    {choice : ℕ} {route : Route}
    (h : r.requestNewRoute w node source destination header env choice = some route) :
    ∃ vector d, r.indexedDevices env header
        (r.doRoutingFunction source header (w.getOutputNetDevices node)) = some vector ∧
      vector[choice]? = some d ∧ route.header = updateHeader header d ∧
      w.getOutputNetDevice node d.routingDirection d.routingDimension =
        some route.sourceNetDevice := by
  simp only [requestNewRoute, doSelectionFunction] at h
  split at h
  · cases h
  · simp only [Option.bind_eq_bind, Option.bind_eq_some_iff, Option.some.injEq] at h
    obtain ⟨d, ⟨vector, hvector, hd⟩, s, hs, e, -, rfl⟩ := h
    exact ⟨vector, d, hvector, hd, rfl, hs⟩

end AdaptiveRouting
end Ns3Noc
