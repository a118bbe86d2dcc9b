import Ns3Noc.DorRouting

/-!
# XyRouting

The two dimensions are routed one after the other. The lookups in the router of the source
and in the router of the destination are parameters, because they differ between router
classes; they answer `none` for a missing device or a failed assertion.
-/
namespace Ns3Noc.XyRouting
open RoutingDirection (towards)

/-- The X branch: the new header, the direction and the dimension to leave by. -/
def routeX (nocHeader : NocHeader) : Option (NocHeader × RoutingDirection × ℕ) :=
  if nocHeader.getXOffset ≠ 0 then
    some (nocHeader.setXOffset (nocHeader.getXOffset - 1),
      if nocHeader.hasEastDirection then .forward else .back, 0)
  else none

/-- The Y branch. -/
def routeY (nocHeader : NocHeader) : Option (NocHeader × RoutingDirection × ℕ) :=
  if nocHeader.getYOffset ≠ 0 then
    some (nocHeader.setYOffset (nocHeader.getYOffset - 1),
      if nocHeader.hasNorthDirection then .forward else .back, 1)
  else none

/-- A null route (`some none`) means that no routing needs to be performed. -/
def requestNewRoute (routeXFirst : Bool)
    (getOutputNetDevice : RoutingDirection → ℕ → Option NocNetDevice)
    (getInputNetDevice : NocNetDevice → RoutingDirection → ℕ → Option NocNetDevice)
    (nocHeader : NocHeader) : Option (Option Route) :=
  match if routeXFirst then (routeX nocHeader).or (routeY nocHeader)
    else (routeY nocHeader).or (routeX nocHeader) with
  | none => some none
  | some (header, routingDirection, routingDimension) => do
    let sourceNetDevice ← getOutputNetDevice routingDirection routingDimension
    let destinationNetDevice ←
      getInputNetDevice sourceNetDevice routingDirection.opposite routingDimension
    some (some ⟨header, sourceNetDevice, destinationNetDevice⟩)

theorem towards_of_signed {b : UInt8} (h : OffsetByte.signed b ≠ 0) :
    (if OffsetByte.isForward b then RoutingDirection.forward else .back) =
      towards (OffsetByte.signed b) := by
  rcases lt_or_gt_of_ne h with hneg | hpos
  · simp [towards, OffsetByte.not_isForward_of_signed_neg hneg, hneg.not_gt]
  · simp [towards, OffsetByte.isForward_of_signed_pos hpos, hpos]

/-- With the X dimension first, the first non-zero offset decides. -/
theorem route_eq {nocHeader : NocHeader} {k : ℕ} (hk : nocHeader.signedOffset k ≠ 0)
    (hfirst : k = 0 ∨ k = 1 ∧ nocHeader.signedOffset 0 = 0) :
    (routeX nocHeader).or (routeY nocHeader) =
      some (nocHeader.lower k, towards (nocHeader.signedOffset k), k) := by
  have hoff : OffsetByte.offset (nocHeader.byte k) ≠ 0 := fun h =>
    hk ((OffsetByte.signed_eq_zero_iff _).mpr h)
  have hdir := towards_of_signed hk
  rcases hfirst with rfl | ⟨rfl, hzero⟩
  · simp [routeX, NocHeader.getXOffset, hoff, NocHeader.hasEastDirection, NocHeader.setXOffset,
      NocHeader.signedOffset, NocHeader.lower]
    exact hdir
  · have hx : OffsetByte.offset (nocHeader.byte 0) = 0 := (OffsetByte.signed_eq_zero_iff _).mp hzero
    simp [routeX, routeY, NocHeader.getXOffset, NocHeader.getYOffset, hx, hoff,
      NocHeader.hasNorthDirection, NocHeader.setYOffset, NocHeader.signedOffset,
      NocHeader.lower]
    exact hdir

theorem route_eq_none {nocHeader : NocHeader} (hx : nocHeader.signedOffset 0 = 0)
    (hy : nocHeader.signedOffset 1 = 0) : (routeX nocHeader).or (routeY nocHeader) = none := by
  have hx' : OffsetByte.offset (nocHeader.byte 0) = 0 := (OffsetByte.signed_eq_zero_iff _).mp hx
  have hy' : OffsetByte.offset (nocHeader.byte 1) = 0 := (OffsetByte.signed_eq_zero_iff _).mp hy
  simp [routeX, routeY, NocHeader.getXOffset, NocHeader.getYOffset, hx', hy']

/-- What a granted request has done. -/
theorem requestNewRoute_eq_some
    {getOutputNetDevice : RoutingDirection → ℕ → Option NocNetDevice}
    {getInputNetDevice : NocNetDevice → RoutingDirection → ℕ → Option NocNetDevice}
    {nocHeader : NocHeader} {route : Route}
    (h : requestNewRoute true getOutputNetDevice getInputNetDevice nocHeader =
      some (some route)) :
    ∃ k, (k = 0 ∨ k = 1 ∧ nocHeader.signedOffset 0 = 0) ∧ nocHeader.signedOffset k ≠ 0 ∧
      route.header = nocHeader.lower k ∧
      getOutputNetDevice (towards (nocHeader.signedOffset k)) k = some route.sourceNetDevice := by
  have hgranted : ∀ k, (k = 0 ∨ k = 1 ∧ nocHeader.signedOffset 0 = 0) →
      nocHeader.signedOffset k ≠ 0 → route.header = nocHeader.lower k ∧
      getOutputNetDevice (towards (nocHeader.signedOffset k)) k = some route.sourceNetDevice := by
    intro k hfirst hk
    simp only [requestNewRoute, if_true, route_eq hk hfirst, Option.bind_eq_bind,
      Option.bind_eq_some_iff, Option.some.injEq] at h
    obtain ⟨sourceNetDevice, hs, destinationNetDevice, hd, rfl⟩ := h
    exact ⟨rfl, hs⟩
  by_cases hx : nocHeader.signedOffset 0 = 0
  · by_cases hy : nocHeader.signedOffset 1 = 0
    · simp [requestNewRoute, route_eq_none hx hy] at h
    · exact ⟨1, .inr ⟨rfl, hx⟩, hy, hgranted 1 (.inr ⟨rfl, hx⟩) hy⟩
  · exact ⟨0, .inl rfl, hx, hgranted 0 (.inl rfl) hx⟩

theorem requestNewRoute_of_ports
    {getOutputNetDevice : RoutingDirection → ℕ → Option NocNetDevice}
    {getInputNetDevice : NocNetDevice → RoutingDirection → ℕ → Option NocNetDevice}
    {nocHeader : NocHeader} {k : ℕ} (hk : nocHeader.signedOffset k ≠ 0)
    (hfirst : k = 0 ∨ k = 1 ∧ nocHeader.signedOffset 0 = 0) {d e : NocNetDevice}
    (hd : getOutputNetDevice (towards (nocHeader.signedOffset k)) k = some d)
    (he : getInputNetDevice d (towards (nocHeader.signedOffset k)).opposite k = some e) :
    requestNewRoute true getOutputNetDevice getInputNetDevice nocHeader =
      some (some ⟨nocHeader.lower k, d, e⟩) := by
  simp only [requestNewRoute, if_true, route_eq hk hfirst, Option.bind_eq_bind, hd, he,
    Option.bind_some]

end Ns3Noc.XyRouting
