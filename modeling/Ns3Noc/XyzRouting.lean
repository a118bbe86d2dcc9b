import Ns3Noc.XyRouting

/-!
# XyzRouting, and the order that each protocol routes in

Routing in two and three dimensions written out by hand is routing in a fixed order of dimensions. The
step of a protocol is the new header, the direction and the dimension to leave by.
-/
namespace Ns3Noc

namespace NocHeader

def hasUpDirection (h : NocHeader) : Bool := OffsetByte.isForward (h.byte 2)
def hasDownDirection (h : NocHeader) : Bool := !h.hasUpDirection

def getZOffset (h : NocHeader) : UInt8 := OffsetByte.offset (h.byte 2)

def setZOffset (h : NocHeader) (zOffset : UInt8) : NocHeader :=
  { h with distance := h.distance.set 2 (OffsetByte.withOffset (h.byte 2) zOffset) }

end NocHeader

/-- A step, if one is needed -/
abbrev RoutingStep : Type := Option (NocHeader × RoutingDirection × ℕ)

namespace XyRouting

def route (routeXFirst : Bool) (nocHeader : NocHeader) : RoutingStep :=
  if routeXFirst then (routeX nocHeader).or (routeY nocHeader)
  else (routeY nocHeader).or (routeX nocHeader)

end XyRouting

namespace XyzRouting
open XyRouting (routeX routeY)

def routeZ (nocHeader : NocHeader) : RoutingStep :=
  if nocHeader.getZOffset ≠ 0 then
    some (nocHeader.setZOffset (nocHeader.getZOffset - 1),
      if nocHeader.hasUpDirection then .forward else .back, 2)
  else none

/-- The tree of tests. `routeXSecond` is only read where X is not first, `routeYSecond` where it is. -/
def route (routeXFirst routeXSecond routeYFirst routeYSecond : Bool) (nocHeader : NocHeader) :
    RoutingStep :=
  if routeXFirst then
    (routeX nocHeader).or
      (if routeYSecond then (routeY nocHeader).or (routeZ nocHeader)
      else (routeZ nocHeader).or (routeY nocHeader))
  else if routeYFirst then
    (routeY nocHeader).or
      (if routeXSecond then (routeX nocHeader).or (routeZ nocHeader)
      else (routeZ nocHeader).or (routeX nocHeader))
  else
    (routeZ nocHeader).or
      (if routeXSecond then (routeX nocHeader).or (routeY nocHeader)
      else (routeY nocHeader).or (routeX nocHeader))

/-- The order that the flags stand for -/
def routingOrder (routeXFirst routeXSecond routeYFirst routeYSecond : Bool) : List ℕ :=
  if routeXFirst then if routeYSecond then [0, 1, 2] else [0, 2, 1]
  else if routeYFirst then if routeXSecond then [1, 0, 2] else [1, 2, 0]
  else if routeXSecond then [2, 0, 1] else [2, 1, 0]

end XyzRouting

namespace DorRouting

/-- `RequestNewRoute` without the lookups of the devices -/
def route (routingOrder : List ℕ) (nocHeader : NocHeader) : Option RoutingStep :=
  if nocHeader.getOffset.length < routingOrder.length then none
  else
    let offset := nocHeader.getOffset.take routingOrder.length
    match firstOffset offset routingOrder with
    | none => none
    | some none => some none
    | some (some dimension) => do
      let routingDirection :=
        if nocHeader.hasForwardDirection dimension then RoutingDirection.forward else .back
      let header ← nocHeader.setOffset (offset.set dimension (offset.getD dimension 0 - 1))
      some (some (header, routingDirection, dimension))

/-- The devices of a route are looked up for its step. -/
theorem requestNewRoute_eq_route (w : Wiring) (routingOrder : List ℕ) (node destination : ℕ)
    (nocHeader : NocHeader) :
    requestNewRoute w routingOrder node destination nocHeader =
      (route routingOrder nocHeader).bind fun step =>
        match step with
        | none => some none
        | some (header, routingDirection, dimension) =>
          (w.getOutputNetDevice node routingDirection dimension).bind fun sourceNetDevice =>
            (w.getInputNetDevice destination routingDirection.opposite dimension).map
              fun destinationNetDevice =>
                some ⟨header, sourceNetDevice, destinationNetDevice⟩ := by
  rw [requestNewRoute, route]
  split
  · rfl
  · cases h : firstOffset (nocHeader.getOffset.take routingOrder.length) routingOrder with
    | none => simp only [h, Option.bind_none]
    | some first =>
      cases first with
      | none => simp only [h, Option.bind_some]
      | some dimension =>
        simp only [h, Option.bind_eq_bind, Option.bind_assoc, Option.bind_some, Option.map_eq_bind]
        rfl

/-! ## Steps in a fixed order -/

/-- The step in one dimension, which all protocols take alike -/
def stepIn (nocHeader : NocHeader) (k : ℕ) : RoutingStep :=
  if OffsetByte.offset (nocHeader.byte k) ≠ 0 then
    some (nocHeader.lower k,
      if nocHeader.hasForwardDirection k then RoutingDirection.forward else .back, k)
  else none

theorem firstOffset_some_of_ne {offset : List UInt8} {k : ℕ} {routingOrder : List ℕ}
    (hk : k < offset.length) (h : offset.getD k 0 ≠ 0) :
    firstOffset offset (k :: routingOrder) = some (some k) := by
  have hget : offset[k]? = some (offset.getD k 0) := by
    rw [List.getD_eq_getElem _ _ hk, List.getElem?_eq_getElem hk]
  simp only [firstOffset, hget]
  exact if_pos h

theorem firstOffset_cons_of_eq {offset : List UInt8} {k : ℕ} {routingOrder : List ℕ}
    (hk : k < offset.length) (h : offset.getD k 0 = 0) :
    firstOffset offset (k :: routingOrder) = firstOffset offset routingOrder := by
  have hget : offset[k]? = some (offset.getD k 0) := by
    rw [List.getD_eq_getElem _ _ hk, List.getElem?_eq_getElem hk]
  simp only [firstOffset, hget]
  exact if_neg (not_not.mpr h)

theorem findSome_cons (nocHeader : NocHeader) (k : ℕ) (routingOrder : List ℕ) :
    (k :: routingOrder).findSome? (stepIn nocHeader) =
      (stepIn nocHeader k).or (routingOrder.findSome? (stepIn nocHeader)) := by
  rw [List.findSome?_cons]
  cases stepIn nocHeader k with
  | none => rfl
  | some step => rfl

/-- The first dimension of the order with an offset left takes the step. -/
theorem firstOffset_eq_findSome (nocHeader : NocHeader) {routingOrder : List ℕ}
    (hin : ∀ k ∈ routingOrder, k < nocHeader.distance.length) :
    firstOffset nocHeader.getOffset routingOrder =
      some ((routingOrder.findSome? (stepIn nocHeader)).map fun step => step.2.2) := by
  induction routingOrder with
  | nil => rfl
  | cons k routingOrder ih =>
    have hk : k < nocHeader.getOffset.length := by
      simpa [NocHeader.getOffset] using hin k List.mem_cons_self
    by_cases h : OffsetByte.offset (nocHeader.byte k) = 0
    · rw [firstOffset_cons_of_eq hk (by rw [NocHeader.getOffset_getD, h]),
        ih fun i hi => hin i (List.mem_cons_of_mem k hi)]
      simp [stepIn, h]
    · rw [firstOffset_some_of_ne hk (by rw [NocHeader.getOffset_getD]; exact h)]
      simp [stepIn, h]

theorem stepIn_of_findSome {nocHeader : NocHeader} {routingOrder : List ℕ}
    {step : NocHeader × RoutingDirection × ℕ}
    (h : routingOrder.findSome? (stepIn nocHeader) = some step) :
    step.2.2 ∈ routingOrder ∧ stepIn nocHeader step.2.2 = some step := by
  obtain ⟨k, hk, hstep⟩ := List.exists_of_findSome?_eq_some h
  have hdimension : step.2.2 = k := by
    rw [stepIn] at hstep
    split at hstep
    · rw [← Option.some.inj hstep]
    · cases hstep
  exact ⟨hdimension ▸ hk, hdimension ▸ hstep⟩

/-- All offsets are rewritten, but only the one of the step changes. -/
theorem route_eq_findSome (nocHeader : NocHeader) {routingOrder : List ℕ}
    (hlength : routingOrder.length = nocHeader.distance.length)
    (hin : ∀ k ∈ routingOrder, k < nocHeader.distance.length) :
    route routingOrder nocHeader = some (routingOrder.findSome? (stepIn nocHeader)) := by
  have hoffset : nocHeader.getOffset.length = routingOrder.length := by
    simp [NocHeader.getOffset, hlength]
  have htake : nocHeader.getOffset.take routingOrder.length = nocHeader.getOffset :=
    List.take_of_length_le hoffset.le
  rw [route, if_neg (by omega)]
  simp only [htake, firstOffset_eq_findSome nocHeader hin]
  cases hfind : routingOrder.findSome? (stepIn nocHeader) with
  | none => rfl
  | some step =>
    obtain ⟨hmem, hstep⟩ := stepIn_of_findSome hfind
    have hset := NocHeader.setOffset_set nocHeader (hin _ hmem)
      (OffsetByte.offset (nocHeader.byte step.2.2) - 1)
    simp only [Option.map_some, NocHeader.getOffset_getD, hset, Option.bind_eq_bind,
      Option.bind_some]
    rw [stepIn] at hstep
    split at hstep
    · rw [← Option.some.inj hstep]
      rfl
    · cases hstep

end DorRouting

/-! ## The orders of the protocols -/

open DorRouting (stepIn findSome_cons)

theorem XyRouting.routeX_eq (nocHeader : NocHeader) :
    XyRouting.routeX nocHeader = stepIn nocHeader 0 := rfl

theorem XyRouting.routeY_eq (nocHeader : NocHeader) :
    XyRouting.routeY nocHeader = stepIn nocHeader 1 := rfl

theorem XyzRouting.routeZ_eq (nocHeader : NocHeader) :
    XyzRouting.routeZ nocHeader = stepIn nocHeader 2 := rfl

/-- Both values of the flag give an order of the two dimensions. -/
theorem XyRouting.route_eq_dor {nocHeader : NocHeader} (h : nocHeader.distance.length = 2)
    (routeXFirst : Bool) :
    DorRouting.route (if routeXFirst then [0, 1] else [1, 0]) nocHeader =
      some (XyRouting.route routeXFirst nocHeader) := by
  cases routeXFirst with
  | true =>
    rw [if_pos rfl, DorRouting.route_eq_findSome nocHeader (by simp [h]) (by simp [h])]
    simp only [findSome_cons, List.findSome?_nil, Option.or_none]
    rfl
  | false =>
    rw [if_neg Bool.false_ne_true,
      DorRouting.route_eq_findSome nocHeader (by simp [h]) (by simp [h])]
    simp only [findSome_cons, List.findSome?_nil, Option.or_none]
    rfl

theorem XyzRouting.routingOrder_perm (routeXFirst routeXSecond routeYFirst routeYSecond : Bool) :
    (routingOrder routeXFirst routeXSecond routeYFirst routeYSecond).Perm [0, 1, 2] := by
  cases routeXFirst <;> cases routeXSecond <;> cases routeYFirst <;> cases routeYSecond <;> decide

theorem XyzRouting.route_eq_findSome (routeXFirst routeXSecond routeYFirst routeYSecond : Bool)
    (nocHeader : NocHeader) :
    route routeXFirst routeXSecond routeYFirst routeYSecond nocHeader =
      (routingOrder routeXFirst routeXSecond routeYFirst routeYSecond).findSome?
        (stepIn nocHeader) := by
  rw [route, routingOrder]
  cases routeXFirst with
  | true =>
    cases routeYSecond with
    | true =>
      simp only [if_true, findSome_cons, List.findSome?_nil, Option.or_none]
      rfl
    | false =>
      simp only [if_true, Bool.false_eq_true, if_false, findSome_cons, List.findSome?_nil,
        Option.or_none]
      rfl
  | false =>
    cases routeYFirst with
    | true =>
      cases routeXSecond with
      | true =>
        simp only [if_true, Bool.false_eq_true, if_false, findSome_cons, List.findSome?_nil,
          Option.or_none]
        rfl
      | false =>
        simp only [if_true, Bool.false_eq_true, if_false, findSome_cons, List.findSome?_nil,
          Option.or_none]
        rfl
    | false =>
      cases routeXSecond with
      | true =>
        simp only [if_true, Bool.false_eq_true, if_false, findSome_cons, List.findSome?_nil,
          Option.or_none]
        rfl
      | false =>
        simp only [Bool.false_eq_true, if_false, findSome_cons, List.findSome?_nil, Option.or_none]
        rfl

theorem XyzRouting.route_eq_dor {nocHeader : NocHeader} (h : nocHeader.distance.length = 3)
    (routeXFirst routeXSecond routeYFirst routeYSecond : Bool) :
    DorRouting.route (routingOrder routeXFirst routeXSecond routeYFirst routeYSecond) nocHeader =
      some (route routeXFirst routeXSecond routeYFirst routeYSecond nocHeader) := by
  have hperm := routingOrder_perm routeXFirst routeXSecond routeYFirst routeYSecond
  have hin : ∀ k ∈ routingOrder routeXFirst routeXSecond routeYFirst routeYSecond,
      k < nocHeader.distance.length := by
    intro k hk
    have hmem := hperm.mem_iff.mp hk
    simp only [List.mem_cons, List.not_mem_nil, or_false] at hmem
    omega
  rw [DorRouting.route_eq_findSome nocHeader (hperm.length_eq.trans h.symm) hin,
    route_eq_findSome]

/-- XY and XYZ routing route in an order that their flags fix. -/
theorem fixed_orders :
    (∀ (routeXFirst : Bool) (nocHeader : NocHeader), nocHeader.distance.length = 2 →
      DorRouting.route (if routeXFirst then [0, 1] else [1, 0]) nocHeader =
        some (XyRouting.route routeXFirst nocHeader)) ∧
    ∀ routeXFirst routeXSecond routeYFirst routeYSecond : Bool, ∃ order : List ℕ,
      order.Perm [0, 1, 2] ∧ ∀ nocHeader : NocHeader, nocHeader.distance.length = 3 →
        DorRouting.route order nocHeader =
          some (XyzRouting.route routeXFirst routeXSecond routeYFirst routeYSecond nocHeader) := by
  refine ⟨fun routeXFirst nocHeader h => XyRouting.route_eq_dor h routeXFirst, ?_⟩
  intro routeXFirst routeXSecond routeYFirst routeYSecond
  refine ⟨_, XyzRouting.routingOrder_perm routeXFirst routeXSecond routeYFirst routeYSecond, ?_⟩
  exact fun nocHeader h => XyzRouting.route_eq_dor h _ _ _ _

/-- A header of two and one of three dimensions, with a direction bit on an empty offset -/
theorem fixed_orders_on_headers :
    DorRouting.route [1, 0] ⟨[0x83, 0x80], [0, 0]⟩ =
        some (some (⟨[0x82, 0x80], [0, 0]⟩, .back, 0)) ∧
      DorRouting.route [2, 1, 0] ⟨[0x83, 1, 0x80], [0, 0, 0]⟩ =
        some (some (⟨[0x83, 0, 0x80], [0, 0, 0]⟩, .forward, 1)) := by
  refine ⟨(fixed_orders.1 false _ rfl).trans (by decide), ?_⟩
  exact (XyzRouting.route_eq_dor rfl false false false false).trans (by decide)

end Ns3Noc
