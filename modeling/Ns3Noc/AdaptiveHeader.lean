import Ns3Noc.AdaptiveRouting
import Ns3Noc.NocHeader
import Ns3Noc.PartialRuns

/-!
# The header under adaptive routing

`UpdateHeader` lowers the offset of the dimension a flit leaves by, whichever way it goes,
so the header stays truthful exactly along progressive hops. A step of a run is one request
with its surroundings and random number, followed by the move to the chosen neighbour.
-/
namespace Ns3Noc
open MeshWiring2D

/-- A head flit at a router: its node, the direction of the device it came through and its
header. A flit in an injection device has no direction. -/
structure AdaptiveFlit where
  node : ℕ
  source : RoutingDirection
  header : NocHeader
  deriving DecidableEq, Repr

namespace AdaptiveRouting

/-- One request and the move to the other end of the channel of the chosen device. -/
def hop (r : AdaptiveRouting) (w : Wiring) (destination : ℕ) (s : AdaptiveFlit)
    (l : Surroundings × ℕ) : Option AdaptiveFlit := do
  let route ← r.requestNewRoute w s.node s.source destination s.header l.1 l.2
  let receiver ← w.peer route.sourceNetDevice
  some ⟨receiver.node, receiver.routingDirection, route.header⟩

end AdaptiveRouting

namespace NocMesh2D

/-- How many columns (`k = 0`) or rows (`k = 1`) the destination lies ahead. -/
def displacement (hSize k node destination : ℕ) : ℤ :=
  match k with
  | 0 => ((destination % hSize : ℕ) : ℤ) - (node % hSize : ℕ)
  | 1 => ((destination / hSize : ℕ) : ℤ) - (node / hSize : ℕ)
  | _ => 0

/-- The header of the flit holds the true displacement to the destination. -/
def HeaderTruthful (hSize rows destination : ℕ) (s : AdaptiveFlit) : Prop :=
  Truthful 2 (rows * hSize) (displacement hSize) destination (s.node, s.header)

variable {hSize rows destination : ℕ}

/-- A step along the row towards the destination. -/
theorem displacement_column (hh : 0 < hSize) {v u : ℕ}
    (hmove : (0 < displacement hSize 0 v destination ∧ u = v + 1) ∨
      (displacement hSize 0 v destination < 0 ∧ v = u + 1)) :
    displacement hSize 0 u destination = displacement hSize 0 v destination -
        (displacement hSize 0 v destination).sign ∧
      ∀ j, j ≠ 0 → displacement hSize j u destination = displacement hSize j v destination := by
  obtain ⟨hcol, hrow⟩ := column_step hh rfl hmove
  refine ⟨hcol.symm, ?_⟩
  intro j hj
  match j with
  | 0 => exact absurd rfl hj
  | 1 => rw [displacement, displacement, hrow]
  | j + 2 => rfl

/-- A step along the column towards the destination. -/
theorem displacement_row (hh : 0 < hSize) {v u : ℕ}
    (hmove : (0 < displacement hSize 1 v destination ∧ u = v + hSize) ∨
      (displacement hSize 1 v destination < 0 ∧ v = u + hSize)) :
    displacement hSize 1 u destination = displacement hSize 1 v destination -
        (displacement hSize 1 v destination).sign ∧
      ∀ j, j ≠ 1 → displacement hSize j u destination = displacement hSize j v destination := by
  have hother : u % hSize = v % hSize →
      ∀ j, j ≠ 1 → displacement hSize j u destination = displacement hSize j v destination := by
    intro hcol j hj
    match j with
    | 0 => rw [displacement, displacement, hcol]
    | 1 => exact absurd rfl hj
    | j + 2 => rfl
  rcases hmove with ⟨hpos, rfl⟩ | ⟨hneg, rfl⟩
  · refine ⟨?_, hother (Nat.add_mod_right v hSize)⟩
    rw [Int.sign_eq_one_of_pos hpos, displacement, displacement, Nat.add_div_right _ hh]
    push_cast
    ring
  · refine ⟨?_, hother (Nat.add_mod_right u hSize).symm⟩
    rw [Int.sign_eq_neg_one_of_neg hneg, displacement, displacement, Nat.add_div_right _ hh]
    push_cast
    ring

/-- A hop through a progressive device keeps the header truthful. -/
theorem HeaderTruthful.progressive (hh : 0 < hSize) (hn : 1 < rows * hSize) {s : AdaptiveFlit}
    (hs : HeaderTruthful hSize rows destination s) {d e : NocNetDevice}
    (hd : isProgressiveDirection s.header d = true)
    {sourceNetDevice : NocNetDevice} (hout : (install hSize (rows * hSize)).getOutputNetDevice
      s.node d.routingDirection d.routingDimension = some sourceNetDevice)
    (hpeer : (install hSize (rows * hSize)).peer sourceNetDevice = some e) :
    HeaderTruthful hSize rows destination
      ⟨e.node, e.routingDirection, updateHeader s.header d⟩ := by
  obtain ⟨k, hk, hdim, hsign⟩ := AdaptiveRouting.isProgressiveDirection_iff.mp hd
  obtain ⟨hmem, hnode, hdir, hdim'⟩ := Wiring.getInputNetDevice_spec hout
  obtain ⟨e', he', helt, hcases⟩ := peer_cases hh hh hn hmem
  rw [install, he'] at hpeer
  cases hpeer
  have hoff : s.header.signedOffset k = displacement hSize k s.node destination :=
    hs.offsets k hk
  have hdir' : d.routingDirection ≠ .none := by
    rcases hsign with ⟨-, h⟩ | ⟨-, h⟩ <;> rw [h] <;> decide
  have hne : s.header.signedOffset k ≠ 0 := by omega
  have hstep : displacement hSize k e.node destination =
      displacement hSize k s.node destination - (displacement hSize k s.node destination).sign ∧
      ∀ j, j ≠ k →
        displacement hSize j e.node destination = displacement hSize j s.node destination := by
    rw [hnode, hdir, hdim', hdim] at hcases
    rw [hoff] at hsign
    interval_cases k
    · apply displacement_column hh
      rcases hsign with ⟨hpos, h⟩ | ⟨hneg, h⟩
      · exact .inl ⟨hpos, by simpa [h] using hcases⟩
      · exact .inr ⟨hneg, by simpa [h] using hcases⟩
    · apply displacement_row hh
      rcases hsign with ⟨hpos, h⟩ | ⟨hneg, h⟩
      · exact .inl ⟨hpos, by simpa [h] using hcases⟩
      · exact .inr ⟨hneg, by simpa [h] using hcases⟩
  rw [HeaderTruthful, AdaptiveRouting.updateHeader_eq_lower hdir' (by omega), hdim]
  exact hs.lower hk helt hne (by rw [hoff]; exact hstep.1) hstep.2

/-- What `RequestNewRoute` chooses from at a router. -/
def candidates (r : AdaptiveRouting) (w : Wiring) (s : AdaptiveFlit) : List NocNetDevice :=
  r.doRoutingFunction s.source s.header (w.getOutputNetDevices s.node)

/-- A request that prefers progressive devices keeps the header truthful, whatever the random
number is. -/
theorem HeaderTruthful.hop (hh : 0 < hSize) (hn : 1 < rows * hSize) {r : AdaptiveRouting}
    {s s' : AdaptiveFlit} {l : Surroundings × ℕ}
    (hs : HeaderTruthful hSize rows destination s)
    (hp : r.PrefersProgressive l.1 s.header (candidates r (install hSize (rows * hSize)) s))
    (h : r.hop (install hSize (rows * hSize)) destination s l = some s') :
    HeaderTruthful hSize rows destination s' := by
  simp only [AdaptiveRouting.hop, Option.bind_eq_bind, Option.bind_eq_some_iff,
    Option.some.injEq] at h
  obtain ⟨route, hroute, receiver, hpeer, rfl⟩ := h
  obtain ⟨vector, d, hvector, hd, hheader, hout⟩ :=
    AdaptiveRouting.requestNewRoute_eq_some hroute
  have hprog := AdaptiveRouting.progressive_of_mem_indexedDevices hp hvector
    (List.mem_of_getElem? hd)
  rw [hheader]
  exact hs.progressive hh hn hprog hout hpeer

/-- The head flit of a new packet in the injection device of its source. -/
def injectedFlit (hSize source destination : ℕ) (position : List UInt8) : AdaptiveFlit :=
  ⟨source, .none,
    ⟨getDestinationRelativeDimensionalPosition hSize source destination, position⟩⟩

/-- The encoder is truthful in a mesh of at most 128 rows and columns. -/
theorem headerTruthful_injectedFlit (hh : 0 < hSize) (hh' : hSize ≤ 128) (hr : rows ≤ 128)
    {source : ℕ} (hs : source < rows * hSize) (hd : destination < rows * hSize)
    (position : List UInt8) :
    HeaderTruthful hSize rows destination (injectedFlit hSize source destination position) := by
  obtain ⟨hx, hy⟩ := signedOffset_relativePositions hh hh' hr hs hd position
  refine ⟨hs, rfl, ?_⟩
  intro k hk
  interval_cases k
  · exact hx
  · exact hy

/-- Under either protocol, with any weights, the header stays truthful over every run whose
requests all prefer progressive devices, if the encoder's header was truthful. -/
theorem adaptive_headerTruthful (r : AdaptiveRouting) (hSize rows source destination : ℕ)
    (hh : 0 < hSize) (hne : source ≠ destination) (hd : destination < rows * hSize)
    (position : List UInt8)
    (hstart : HeaderTruthful hSize rows destination
      (injectedFlit hSize source destination position))
    (requests : List (Surroundings × ℕ))
    (hok : PartialRuns.Allowed (r.hop (install hSize (rows * hSize)) destination)
      (fun s l => r.PrefersProgressive l.1 s.header
        (candidates r (install hSize (rows * hSize)) s))
      (injectedFlit hSize source destination position) requests)
    (s : AdaptiveFlit)
    (hrun : PartialRuns.run (r.hop (install hSize (rows * hSize)) destination)
      (injectedFlit hSize source destination position) requests = some s) :
    HeaderTruthful hSize rows destination s := by
  have hn : 1 < rows * hSize := by
    have : source < rows * hSize := hstart.node_lt
    omega
  exact PartialRuns.invariant_of_allowed
    (fun s l s' hs hp h => hs.hop hh hn hp h) hstart hok hrun

/-- Surroundings without load or traffic. -/
def idleSurroundings : Surroundings := ⟨fun _ => 0, fun _ => false, fun _ => 0, 0⟩

theorem adaptive_headerTruthful_2_2 : HeaderTruthful 2 2 1 ⟨1, .back, ⟨[0, 0], [0, 0]⟩⟩ := by
  apply adaptive_headerTruthful (.slb {}) 2 2 0 1 (by decide) (by decide) (by decide) [0, 0]
    (headerTruthful_injectedFlit (by decide) (by decide) (by decide) (by decide) (by decide) _)
    [(idleSurroundings, 0)]
  · refine ⟨⟨⟨0, 0, .forward, 0⟩, by decide +kernel, by decide +kernel, by decide +kernel, ?_⟩,
      fun s' _ => True.intro⟩
    dsimp only
    decide +kernel
  · decide +kernel

/-- With a loaded east neighbour the flit is sent north, and an offset of 0 becomes -127. -/
theorem not_headerTruthful_2_2 : ∃ requests s,
    PartialRuns.run ((AdaptiveRouting.slb {}).hop (install 2 4) 1) (injectedFlit 2 0 1 [0, 0])
      requests = some s ∧ ¬HeaderTruthful 2 2 1 s := by
  refine ⟨[({ idleSurroundings with neighborLoad := fun d => if d.routingDimension = 0 then 60
    else 0 }, 0)], ⟨2, .back, ⟨[1, 0xFF], [0, 0]⟩⟩, by decide +kernel, ?_⟩
  intro h
  have hy := h.offsets 1 (by decide)
  revert hy
  decide +kernel

end NocMesh2D
end Ns3Noc
