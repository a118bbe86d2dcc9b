import Ns3Noc.NocWiring
import Ns3Noc.PartialRuns
import Mathlib.Data.List.Perm.Basic

/-!
# DorRouting on four-way routers

`RequestNewRoute` looks for the first dimension of the routing order with an offset left,
lowers that offset and asks the routers of the current node and of the destination for the
devices of the link. `none` stands for a failed assertion or a vector access out of range.
-/
namespace Ns3Noc

/-- A `Route`; of the packet only the header matters to the routers. -/
structure Route where
  header : NocHeader
  sourceNetDevice : NocNetDevice
  destinationNetDevice : NocNetDevice
  deriving DecidableEq, Repr

namespace DorRouting

/-- The first dimension of the order whose offset is not zero, if there is one. -/
def firstOffset (offset : List UInt8) : List ℕ → Option (Option ℕ)
  | [] => some none
  | dimension :: routingOrder =>
    match offset[dimension]? with
    | none => none
    | some o => if o ≠ 0 then some (some dimension) else firstOffset offset routingOrder

/-- A null route (`some none`) means that no routing needs to be performed. -/
def requestNewRoute (w : Wiring) (routingOrder : List ℕ) (node destination : ℕ)
    (nocHeader : NocHeader) : Option (Option Route) :=
  if nocHeader.getOffset.length < routingOrder.length then none
  else
    let offset := nocHeader.getOffset.take routingOrder.length
    match firstOffset offset routingOrder with
    | none => none
    | some none => some none
    | some (some dimension) => do
      let routingDirection :=
        if nocHeader.hasForwardDirection dimension then RoutingDirection.forward else .back
      let header ← nocHeader.setOffset (offset.set dimension (offset.getD dimension 0 - 1))
      let sourceNetDevice ← w.getOutputNetDevice node routingDirection dimension
      let destinationNetDevice ←
        w.getInputNetDevice destination routingDirection.opposite dimension
      some (some ⟨header, sourceNetDevice, destinationNetDevice⟩)

/-- One hop: the flit moves to the other end of the channel of the chosen output device. -/
def hop (w : Wiring) (routingOrder : List ℕ) (destination : ℕ) (s : ℕ × NocHeader) :
    Option (ℕ × NocHeader) := do
  let route ← (← requestNewRoute w routingOrder s.1 destination s.2)
  let receiver ← w.peer route.sourceNetDevice
  some (receiver.node, route.header)

theorem firstOffset_eq_some (offset : List UInt8) (routingOrder : List ℕ)
    (hin : ∀ k ∈ routingOrder, k < offset.length) (hne : ∃ k ∈ routingOrder, offset.getD k 0 ≠ 0) :
    ∃ k ∈ routingOrder, firstOffset offset routingOrder = some (some k) ∧ offset.getD k 0 ≠ 0 := by
  induction routingOrder with
  | nil => simp at hne
  | cons d order ih =>
    have hd : offset[d]? = some (offset.getD d 0) := by
      have hlt := hin d List.mem_cons_self
      rw [List.getD_eq_getElem _ _ hlt, List.getElem?_eq_getElem hlt]
    by_cases h : offset.getD d 0 = 0
    · obtain ⟨k, hk, hf, ho⟩ := ih (fun k hk => hin k (List.mem_cons_of_mem d hk)) (by
        obtain ⟨k, hk, ho⟩ := hne
        rcases List.mem_cons.mp hk with rfl | hk
        · exact absurd h ho
        · exact ⟨k, hk, ho⟩)
      refine ⟨k, List.mem_cons_of_mem d hk, ?_, ho⟩
      simp only [firstOffset, hd, h, ne_eq, not_true_eq_false, if_false]
      exact hf
    · refine ⟨d, List.mem_cons_self, ?_, h⟩
      simp only [firstOffset, hd, h, ne_eq, not_false_eq_true, if_true]

/-- What a request does when the ports it asks for exist: some dimension with an offset left
is chosen, and its distance byte is replaced. -/
theorem requestNewRoute_spec (w : Wiring) (node destination : ℕ) {routingOrder : List ℕ}
    {nocHeader : NocHeader} (hperm : routingOrder.Perm (List.range nocHeader.distance.length))
    (hne : nocHeader.magnitude ≠ 0) :
    ∃ k < nocHeader.distance.length, nocHeader.signedOffset k ≠ 0 ∧
      ∀ sourceNetDevice destinationNetDevice,
        w.getOutputNetDevice node
          (if 0 < nocHeader.signedOffset k then .forward else .back) k = some sourceNetDevice →
        w.getInputNetDevice destination
          (if 0 < nocHeader.signedOffset k then .back else .forward) k =
            some destinationNetDevice →
        requestNewRoute w routingOrder node destination nocHeader =
          some (some ⟨nocHeader.lower k, sourceNetDevice, destinationNetDevice⟩) := by
  have hlen : routingOrder.length = nocHeader.distance.length := by
    simpa using hperm.length_eq
  have hoff : nocHeader.getOffset.length = nocHeader.distance.length := by
    simp [NocHeader.getOffset]
  obtain ⟨j, hj, hjne⟩ : ∃ j < nocHeader.distance.length, nocHeader.signedOffset j ≠ 0 := by
    simpa using mt nocHeader.magnitude_eq_zero_iff.mpr hne
  obtain ⟨k, hk, hfirst, hko⟩ := firstOffset_eq_some nocHeader.getOffset routingOrder
    (fun i hi => by simpa [hoff] using (hperm.mem_iff.mp hi))
    ⟨j, hperm.mem_iff.mpr (List.mem_range.mpr hj), by
      rw [NocHeader.getOffset_getD]
      exact fun h => hjne ((OffsetByte.signed_eq_zero_iff _).mpr h)⟩
  have hk' : k < nocHeader.distance.length := by simpa using hperm.mem_iff.mp hk
  rw [NocHeader.getOffset_getD] at hko
  have hkne : nocHeader.signedOffset k ≠ 0 := by
    simpa [OffsetByte.signed_eq_zero_iff, NocHeader.signedOffset] using hko
  refine ⟨k, hk', hkne, ?_⟩
  intro sourceNetDevice destinationNetDevice hs hd
  -- the direction bit agrees with the sign because the offset is not zero
  have hdir : (if nocHeader.hasForwardDirection k then RoutingDirection.forward else .back) =
      if 0 < nocHeader.signedOffset k then .forward else .back := by
    rcases lt_or_gt_of_ne hkne with hneg | hpos
    · have := OffsetByte.not_isForward_of_signed_neg hneg
      simp [NocHeader.hasForwardDirection, this, hneg.le.not_gt]
    · have := OffsetByte.isForward_of_signed_pos hpos
      simp [NocHeader.hasForwardDirection, this, hpos]
  have hopp : (if 0 < nocHeader.signedOffset k then RoutingDirection.forward else .back).opposite =
      if 0 < nocHeader.signedOffset k then .back else .forward := by
    split <;> rfl
  have htake : nocHeader.getOffset.take routingOrder.length = nocHeader.getOffset :=
    List.take_of_length_le (by omega)
  have hnlt : ¬nocHeader.getOffset.length < routingOrder.length := by omega
  rw [requestNewRoute, if_neg hnlt]
  simp only [htake, hfirst, NocHeader.getOffset_getD, NocHeader.setOffset_set _ hk', hdir, hopp, hs, hd,
    Option.bind_eq_bind, Option.bind_some, NocHeader.lower]

end DorRouting
end Ns3Noc
