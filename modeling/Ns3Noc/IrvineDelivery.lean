import Ns3Noc.IrvineRouter
import Ns3Noc.XyRouting

/-!
# XY routing on the Irvine mesh

A flit that only has to move along its row is delivered. A vertical hop lowers the offset
of the header but moves the flit the wrong way, because `Install` puts NORTH at the end of
a vertical channel that is farther from row 0 while the header counts rows upwards.
-/
namespace Ns3Noc
open MeshWiring2D IrvineRouter XyRouting
open RoutingDirection (towards towards_eq_forward towards_eq_back)

namespace IrvineRouter
variable {hSize rows : ℕ}

theorem mem_lane (hh : 0 < hSize) {c : ℕ} (hc : c < 2) {v : ℕ} {d : NocNetDevice}
    (hd : d ∈ lane hSize rows c v) : d.node = v ∧ d.routingDimension = 1 := by
  rw [lane_eq hh hc] at hd
  simp only [List.mem_append, List.mem_ite_nil_right, List.mem_singleton] at hd
  rcases hd with ⟨-, rfl⟩ | ⟨-, rfl⟩ <;> exact ⟨rfl, rfl⟩

theorem mem_westDevices {v : ℕ} {d : NocNetDevice} : d ∈ westDevices hSize v ↔
    hasWest hSize v ∧ d = ⟨v, eastChannel hSize (v - 1), .back, 0⟩ := by
  unfold westDevices
  simp only [List.mem_ite_nil_right, List.mem_singleton]

theorem mem_eastDevices {v : ℕ} {d : NocNetDevice} : d ∈ eastDevices hSize v ↔
    hasEast hSize v ∧ d = ⟨v, eastChannel hSize v, .forward, 0⟩ := by
  unfold eastDevices
  simp only [List.mem_ite_nil_right, List.mem_singleton]

/-- Whatever side the sender is on, the output is a device of the node with the port asked
for. -/
theorem getOutputNetDevice_spec (hh : 0 < hSize) {v : ℕ} (hv : v < rows * hSize)
    {sender : IrvineSender} {routingDirection : RoutingDirection} {routingDimension : ℕ}
    {d : NocNetDevice} (h : getOutputNetDevice (NocIrvineMesh2D.install hSize (rows * hSize)) v
      sender routingDirection routingDimension = some d) :
    d ∈ (NocIrvineMesh2D.install hSize (rows * hSize)).devices ∧ d.node = v ∧
      d.routingDirection = routingDirection ∧ d.routingDimension = routingDimension := by
  obtain ⟨r, hr, -, -, hro, hlo⟩ := router_eq hh hv
  simp only [getOutputNetDevice, hr, Option.bind_eq_bind, Option.bind_some,
    Option.bind_eq_some_iff] at h
  obtain ⟨right, -, hlast⟩ := h
  obtain ⟨hmem, hport⟩ := List.mem_filter.mp (List.mem_of_getLast? hlast)
  have hrouter : d ∈ (NocIrvineMesh2D.install hSize (rows * hSize)).routerDevices v := by
    rw [routerDevices_irvine hh hv]
    cases right with
    | true =>
      rw [if_pos rfl, hro] at hmem
      simp only [List.mem_append] at hmem ⊢
      tauto
    | false =>
      rw [if_neg Bool.false_ne_true, hlo] at hmem
      simp only [List.mem_append] at hmem ⊢
      tauto
  simp only [matchesPort, Bool.and_eq_true, beq_iff_eq] at hport
  exact ⟨(Wiring.mem_routerDevices.mp hrouter).1, (Wiring.mem_routerDevices.mp hrouter).2, hport⟩

theorem side_internal (w : Wiring) (v : ℕ) :
    side w v (.internalRightInputDevice v) = some true ∧
      side w v (.internalLeftInputDevice v) = some false := by
  simp [side, isRightRouter, isLeftRouter]

/-- A packet from the west is in the right router and one from the east in the left router. -/
theorem side_horizontal (hh : 0 < hSize) (self : ℕ) {v : ℕ} (hv : v < rows * hSize) :
    (hasWest hSize v → side (NocIrvineMesh2D.install hSize (rows * hSize)) self
      (.device ⟨v, eastChannel hSize (v - 1), .back, 0⟩) = some true) ∧
    (hasEast hSize v → side (NocIrvineMesh2D.install hSize (rows * hSize)) self
      (.device ⟨v, eastChannel hSize v, .forward, 0⟩) = some false) := by
  obtain ⟨r, hr, hri, hli, -, -⟩ := router_eq hh hv
  have hlane : ∀ c < 2, ∀ e : NocNetDevice, e.routingDimension = 0 → e ∉ lane hSize rows c v := by
    intro c hc e he hmem
    have := (mem_lane hh hc hmem).2
    omega
  constructor
  · intro hw
    simp [side, isRightRouter, isLeftRouter, hr, hri, hli, mem_westDevices, mem_eastDevices, hw,
      hlane]
  · intro he
    simp [side, isRightRouter, isLeftRouter, hr, hri, hli, mem_westDevices, mem_eastDevices, he,
      hlane]

/-- The horizontal output of either side. -/
theorem getOutputNetDevice_horizontal (hh : 0 < hSize) {v : ℕ} (hv : v < rows * hSize)
    {sender : IrvineSender} :
    (side (NocIrvineMesh2D.install hSize (rows * hSize)) v sender = some true → hasEast hSize v →
      getOutputNetDevice (NocIrvineMesh2D.install hSize (rows * hSize)) v sender .forward 0 =
        some ⟨v, eastChannel hSize v, .forward, 0⟩) ∧
    (side (NocIrvineMesh2D.install hSize (rows * hSize)) v sender = some false → hasWest hSize v →
      getOutputNetDevice (NocIrvineMesh2D.install hSize (rows * hSize)) v sender .back 0 =
        some ⟨v, eastChannel hSize (v - 1), .back, 0⟩) := by
  obtain ⟨r, hr, -, -, hro, hlo⟩ := router_eq hh hv
  have hlane : ∀ c < 2, ∀ routingDirection,
      (lane hSize rows c v).filter (matchesPort routingDirection 0) = [] := by
    intro c hc routingDirection
    apply List.filter_eq_nil_iff.mpr
    intro e he
    simp [matchesPort, (mem_lane hh hc he).2]
  constructor
  · intro hs he
    have hport : r.rightRouterOutputDevices.filter (matchesPort .forward 0) =
        [⟨v, eastChannel hSize v, .forward, 0⟩] := by
      simp [hro, hlane, eastDevices, he, matchesPort]
    simp only [getOutputNetDevice, hr, hs, Option.bind_eq_bind, Option.bind_some, if_true, hport,
      List.getLast?_singleton]
  · intro hs hw
    have hport : r.leftRouterOutputDevices.filter (matchesPort .back 0) =
        [⟨v, eastChannel hSize (v - 1), .back, 0⟩] := by
      simp [hlo, hlane, westDevices, hw, matchesPort]
    simp only [getOutputNetDevice, hr, hs, Option.bind_eq_bind, Option.bind_some,
      Bool.false_eq_true, if_false, hport, List.getLast?_singleton]

/-- The horizontal inputs are found from either side. -/
theorem getInputNetDevice_horizontal (hh : 0 < hSize) {v : ℕ} (hv : v < rows * hSize)
    {sender : IrvineSender} {right : Bool}
    (hs : side (NocIrvineMesh2D.install hSize (rows * hSize)) v sender = some right) :
    (hasEast hSize v → getInputNetDevice (NocIrvineMesh2D.install hSize (rows * hSize)) v sender
      .forward 0 = some ⟨v, eastChannel hSize v, .forward, 0⟩) ∧
    (hasWest hSize v → getInputNetDevice (NocIrvineMesh2D.install hSize (rows * hSize)) v sender
      .back 0 = some ⟨v, eastChannel hSize (v - 1), .back, 0⟩) := by
  obtain ⟨r, hr, hri, hli, -, -⟩ := router_eq hh hv
  have hlane : ∀ c < 2, ∀ routingDirection,
      (lane hSize rows c v).find? (matchesPort routingDirection 0) = none := by
    intro c hc routingDirection
    apply List.find?_eq_none.mpr
    intro e he
    simp [matchesPort, (mem_lane hh hc he).2]
  have hwest : (westDevices hSize v).find? (matchesPort .forward 0) = none := by
    apply List.find?_eq_none.mpr
    intro e he
    obtain ⟨-, rfl⟩ := mem_westDevices.mp he
    simp [matchesPort]
  have heast : (eastDevices hSize v).find? (matchesPort .back 0) = none := by
    apply List.find?_eq_none.mpr
    intro e he
    obtain ⟨-, rfl⟩ := mem_eastDevices.mp he
    simp [matchesPort]
  constructor
  · intro he
    have hfound : (eastDevices hSize v).find? (matchesPort .forward 0) =
        some ⟨v, eastChannel hSize v, .forward, 0⟩ := by
      simp [eastDevices, he, matchesPort]
    cases right <;> simp [getInputNetDevice, hr, hs, hri, hli, List.find?_append, hlane, hwest, hfound]
  · intro hw
    have hfound : (westDevices hSize v).find? (matchesPort .back 0) =
        some ⟨v, eastChannel hSize (v - 1), .back, 0⟩ := by
      simp [westDevices, hw, matchesPort]
    cases right <;> simp [getInputNetDevice, hr, hs, hri, hli, List.find?_append, hlane, heast, hfound]

end IrvineRouter

namespace NocIrvineMesh2D

/-- One hop of XY routing with the X dimension first: the flit moves to the other end of the
channel of the chosen output device. -/
def hop (w : Wiring) (destination : ℕ) (s : IrvineSender × NocHeader) :
    Option (IrvineSender × NocHeader) := do
  let route ← (← XyRouting.requestNewRoute true (getOutputNetDevice w s.1.node s.1)
    (fun d => getInputNetDevice w destination (.device d)) s.2)
  let receiver ← w.peer route.sourceNetDevice
  some (.device receiver, route.header)

/-- `|dx| + |dy|`. -/
def distance (hSize source destination : ℕ) : ℕ :=
  (((destination % hSize : ℕ) : ℤ) - (source % hSize : ℕ)).natAbs +
    (((destination / hSize : ℕ) : ℤ) - (source / hSize : ℕ)).natAbs

/-- From the injection device that the router selects, every request up to the distance is
granted and the flit is at the destination after exactly that many hops. -/
def XyDelivers (hSize nodes source destination : ℕ) (position : List UInt8) : Prop :=
  let w := install hSize nodes
  let header : NocHeader :=
    ⟨getDestinationRelativeDimensionalPosition hSize source destination, position⟩
  ∃ sender, getInjectionNetDevice source header = some sender ∧
    ∀ hops ≤ distance hSize source destination, ∃ s,
      PartialRuns.walk (hop w destination) hops (sender, header) = some s ∧
        (s.1.node = destination ↔ hops = distance hSize source destination)

/-- What the header says of a flit on its way: the column offset is true, and the row moves
against the row offset. -/
structure Drifting (hSize rows source destination : ℕ) (s : IrvineSender × NocHeader) : Prop where
  node_lt : s.1.node < rows * hSize
  length_eq : s.2.distance.length = 2
  column : s.2.signedOffset 0 = ((destination % hSize : ℕ) : ℤ) - (s.1.node % hSize : ℕ)
  row : ((s.1.node / hSize : ℕ) : ℤ) =
    s.2.signedOffset 1 + 2 * (source / hSize : ℕ) - (destination / hSize : ℕ)

variable {hSize rows source destination : ℕ}

/-- A hop in the Y dimension moves the flit against the sign of the header. -/
theorem row_step (hh : 0 < hSize) {v u : ℕ} {y : ℤ}
    (hmove : (0 < y ∧ v = u + hSize) ∨ (y < 0 ∧ u = v + hSize)) :
    ((u / hSize : ℕ) : ℤ) = (v / hSize : ℕ) - y.sign ∧ u % hSize = v % hSize := by
  rcases hmove with ⟨hpos, rfl⟩ | ⟨hneg, rfl⟩
  · rw [Int.sign_eq_one_of_pos hpos, Nat.add_div_right _ hh, Nat.add_mod_right]
    exact ⟨by push_cast; ring, rfl⟩
  · rw [Int.sign_eq_neg_one_of_neg hneg, Nat.add_div_right _ hh, Nat.add_mod_right]
    exact ⟨by push_cast; ring, rfl⟩

/-- A hop that does not fail lowers the header and keeps the drift. -/
theorem Drifting.hop (hh : 0 < hSize) (hn : 1 < rows * hSize) {s s' : IrvineSender × NocHeader}
    (hs : Drifting hSize rows source destination s)
    (h : hop (install hSize (rows * hSize)) destination s = some s') :
    Drifting hSize rows source destination s' ∧ s'.2.magnitude + 1 = s.2.magnitude := by
  obtain ⟨hv, hlen, hcol, hrow⟩ := hs
  simp only [NocIrvineMesh2D.hop, Option.bind_eq_bind, Option.bind_eq_some_iff,
    Option.some.injEq] at h
  obtain ⟨granted, hrequest, route, rfl, receiver, hpeer, rfl⟩ := h
  obtain ⟨k, hfirst, hk, hheader, hout⟩ := requestNewRoute_eq_some hrequest
  obtain ⟨hmem, hnode, hdir, hdim⟩ := getOutputNetDevice_spec hh hv hout
  obtain ⟨e, he, helt, hcases⟩ := peer_cases hh (by omega) hn hmem
  rw [install, he] at hpeer
  cases hpeer
  have hk2 : k < s.2.distance.length := by
    rcases hfirst with rfl | ⟨rfl, -⟩ <;> omega
  have hlower := s.2.signedOffset_lower hk2 hk
  have hmag := s.2.magnitude_lower hk2 hk
  rw [hnode] at hcases
  rw [← hheader] at hlower hmag
  have hlen' : route.header.distance.length = 2 := by rw [hheader, NocHeader.length_lower, hlen]
  refine ⟨⟨helt, hlen', ?_, ?_⟩, hmag⟩
  all_goals dsimp only [IrvineSender.node]
  all_goals rw [hlower]
  all_goals rcases hfirst with rfl | ⟨rfl, -⟩
  all_goals simp only [hdim, hdir, towards_eq_forward, towards_eq_back hk] at hcases
  · exact (column_step hh hcol (by simpa using hcases)).1
  · have hmove : receiver.node % hSize = s.1.node % hSize :=
      (row_step hh (by simpa using hcases)).2
    rw [if_neg Nat.zero_ne_one, hcol, hmove]
  · rw [if_neg Nat.one_ne_zero, (column_step hh hcol (by simpa using hcases)).2, hrow]
  · rw [if_pos rfl, (row_step hh (by simpa using hcases)).1, hrow]
    ring

/-- A flit that has a column to go on the row of its destination. -/
structure OnRow (hSize rows source destination : ℕ) (s : IrvineSender × NocHeader) : Prop where
  drifting : Drifting hSize rows source destination s
  row_eq : s.2.signedOffset 1 = 0
  side_eq : s.2.signedOffset 0 ≠ 0 →
    side (install hSize (rows * hSize)) s.1.node s.1 = some (decide (0 < s.2.signedOffset 0))

/-- One hop to the east. -/
theorem hop_east (hh : 0 < hSize) (hd : destination < rows * hSize)
    {s : IrvineSender × NocHeader} (hv : s.1.node + 1 < rows * hSize)
    (hx : 0 < s.2.signedOffset 0) (he : hasEast hSize s.1.node) (hw : hasWest hSize destination)
    (hs : side (install hSize (rows * hSize)) s.1.node s.1 = some true) :
    hop (install hSize (rows * hSize)) destination s =
      some (.device ⟨s.1.node + 1, eastChannel hSize s.1.node, .back, 0⟩, s.2.lower 0) := by
  have hvs : s.1.node < rows * hSize := by omega
  have hdir : towards (s.2.signedOffset 0) = .forward := if_pos hx
  have hout := (getOutputNetDevice_horizontal hh hvs).1 hs he
  have hin := (getInputNetDevice_horizontal hh hd
    ((side_horizontal hh destination hvs).2 he)).2 hw
  have hpeer : (install hSize (rows * hSize)).peer ⟨s.1.node, eastChannel hSize s.1.node,
      .forward, 0⟩ = some ⟨s.1.node + 1, eastChannel hSize s.1.node, .back, 0⟩ :=
    (peer_horizontal hh (by omega) hv he).1
  unfold hop
  rw [requestNewRoute_of_ports hx.ne' (.inl rfl) (hdir ▸ hout) (by rw [hdir]; exact hin)]
  simp only [Option.bind_eq_bind, Option.bind_some, hdir, hpeer]

/-- One hop to the west. -/
theorem hop_west (hh : 0 < hSize) (hd : destination < rows * hSize)
    {s : IrvineSender × NocHeader} (hv : s.1.node < rows * hSize)
    (hx : s.2.signedOffset 0 < 0) (hw : hasWest hSize s.1.node) (he : hasEast hSize destination)
    (hs : side (install hSize (rows * hSize)) s.1.node s.1 = some false) :
    hop (install hSize (rows * hSize)) destination s =
      some (.device ⟨s.1.node - 1, eastChannel hSize (s.1.node - 1), .forward, 0⟩,
        s.2.lower 0) := by
  have hdir : towards (s.2.signedOffset 0) = .back := if_neg hx.not_gt
  have hout := (getOutputNetDevice_horizontal hh hv).2 hs hw
  have hin := (getInputNetDevice_horizontal hh hd
    ((side_horizontal hh destination hv).1 hw)).1 he
  have hpred : s.1.node - 1 + 1 = s.1.node := Nat.sub_add_cancel hw.1
  have hpeer : (install hSize (rows * hSize)).peer ⟨s.1.node - 1 + 1,
      eastChannel hSize (s.1.node - 1), .back, 0⟩ =
      some ⟨s.1.node - 1, eastChannel hSize (s.1.node - 1), .forward, 0⟩ :=
    (peer_horizontal hh (by omega) (by omega) hw.2).2
  rw [hpred] at hpeer
  unfold hop
  rw [requestNewRoute_of_ports hx.ne (.inl rfl) (hdir ▸ hout) (by rw [hdir]; exact hin)]
  simp only [Option.bind_eq_bind, Option.bind_some, hdir, hpeer]

/-- Along the row every request is granted, and the flit stays on the side of its direction. -/
theorem OnRow.hop (hh : 0 < hSize) (hn : 1 < rows * hSize) (hd : destination < rows * hSize)
    {s : IrvineSender × NocHeader} (hs : OnRow hSize rows source destination s)
    (hne : 0 < s.2.magnitude) :
    ∃ s', NocIrvineMesh2D.hop (install hSize (rows * hSize)) destination s = some s' ∧
      OnRow hSize rows source destination s' ∧ s'.2.magnitude + 1 = s.2.magnitude := by
  obtain ⟨hdrift, hrow, hside⟩ := hs
  have hv := hdrift.node_lt
  have hcol := hdrift.column
  have hdm := Nat.mod_lt destination hh
  have hvm := Nat.mod_lt s.1.node hh
  have hx : s.2.signedOffset 0 ≠ 0 := by
    intro hz
    apply hne.ne'
    apply s.2.magnitude_eq_zero_iff.mpr
    intro k hk
    rw [hdrift.length_eq] at hk
    interval_cases k
    · exact hz
    · exact hrow
  have hlower := s.2.signedOffset_lower (k := 0) (by rw [hdrift.length_eq]; omega) hx
  have hkeep : ∀ e : NocNetDevice,
      NocIrvineMesh2D.hop (install hSize (rows * hSize)) destination s =
        some (.device e, s.2.lower 0) →
      side (install hSize (rows * hSize)) e.node (.device e) =
        some (decide (0 < s.2.signedOffset 0)) →
      ∃ s', NocIrvineMesh2D.hop (install hSize (rows * hSize)) destination s = some s' ∧
        OnRow hSize rows source destination s' ∧ s'.2.magnitude + 1 = s.2.magnitude := by
    intro e hhop he
    obtain ⟨hdrift', hmag⟩ := hdrift.hop hh hn hhop
    refine ⟨_, hhop, ⟨hdrift', ?_, ?_⟩, hmag⟩
    · rw [hlower, if_neg Nat.one_ne_zero, hrow]
    · intro hx'
      -- the offset keeps its sign until it is zero
      have hsign : 0 < (s.2.lower 0).signedOffset 0 ↔ 0 < s.2.signedOffset 0 := by
        rw [hlower, if_pos rfl] at hx' ⊢
        rcases lt_or_gt_of_ne hx with hneg | hpos
        · rw [Int.sign_eq_neg_one_of_neg hneg] at hx' ⊢
          omega
        · rw [Int.sign_eq_one_of_pos hpos] at hx' ⊢
          omega
      simp only [hsign]
      exact he
  rcases lt_or_gt_of_ne hx with hneg | hpos
  · have hw : hasWest hSize s.1.node := hasWest_of_pos (by omega)
    apply hkeep _ (hop_west hh hd hv hneg hw (hasEast_of_lt hh (by omega))
      (by simpa [hneg.not_gt] using hside hx))
    simp only [hneg.not_gt, decide_false]
    exact (side_horizontal hh _ (by omega)).2 hw.2
  · have he : hasEast hSize s.1.node := hasEast_of_lt hh (by omega)
    have hsucc := mod_div_succ hh (v := s.1.node) (by omega)
    have hdiv := (Nat.div_lt_iff_lt_mul hh).mpr hv
    have hv' : s.1.node + 1 < rows * hSize := by
      rw [← Nat.div_lt_iff_lt_mul hh, hsucc.2]
      exact hdiv
    apply hkeep _ (hop_east hh hd hv' hpos he (hasWest_of_pos (by omega))
      (by simpa [hpos] using hside hx))
    simp only [hpos, decide_true]
    exact (side_horizontal hh _ hv').1 ⟨by omega, he⟩

/-- The header of a new packet, at the injection device that the router selects for it. -/
theorem injected (hh : 0 < hSize) (hh' : hSize ≤ 127) (hr : rows ≤ 127)
    (hsrc : source < rows * hSize) (hd : destination < rows * hSize) (hne : source ≠ destination)
    (position : List UInt8) :
    let header : NocHeader :=
      ⟨getDestinationRelativeDimensionalPosition hSize source destination, position⟩
    ∃ sender, getInjectionNetDevice source header = some sender ∧
      Drifting hSize rows source destination (sender, header) ∧
      header.magnitude = distance hSize source destination ∧
      (header.signedOffset 0 ≠ 0 → side (install hSize (rows * hSize)) sender.node sender =
        some (decide (0 < header.signedOffset 0))) := by
  intro header
  obtain ⟨hx, hy⟩ : header.signedOffset 0 = _ ∧ header.signedOffset 1 = _ :=
    signedOffset_relativePositions hh (by omega) (by omega : rows ≤ 128) hsrc hd position
  have hmag : header.magnitude = distance hSize source destination := by
    have hsum : header.magnitude =
        (header.signedOffset 0).natAbs + (header.signedOffset 1).natAbs := by
      rw [NocHeader.signedOffset, NocHeader.signedOffset, OffsetByte.natAbs_signed,
        OffsetByte.natAbs_signed]
      rfl
    rw [hsum, hx, hy, distance]
  have hlen : header.distance.length = 2 := rfl
  -- a header with a displacement is not empty
  have hempty : header.isEmpty = false := by
    by_contra hall
    rw [Bool.not_eq_false, NocHeader.isEmpty, Bool.and_eq_true, List.all_eq_true] at hall
    have hzero : ∀ k < header.distance.length, header.byte k = 0 := by
      intro k hk
      have := hall.1 _ (List.getElem_mem hk)
      rw [NocHeader.byte, List.getD_eq_getElem _ _ hk]
      simpa using this
    apply hne
    have hx0 : header.signedOffset 0 = 0 := by
      rw [NocHeader.signedOffset, hzero 0 (by omega)]
      rfl
    have hy0 : header.signedOffset 1 = 0 := by
      rw [NocHeader.signedOffset, hzero 1 (by omega)]
      rfl
    have hxe := hx.symm.trans hx0
    have hye := hy.symm.trans hy0
    rw [← Nat.mod_add_div' source hSize, ← Nat.mod_add_div' destination hSize,
      show source % hSize = destination % hSize by omega,
      show source / hSize = destination / hSize by omega]
  have hdrift : ∀ sender : IrvineSender, sender.node = source →
      Drifting hSize rows source destination (sender, header) := by
    intro sender hs
    refine ⟨hs ▸ hsrc, rfl, hs ▸ hx, ?_⟩
    dsimp only
    rw [hy, hs]
    ring
  have hside := side_internal (install hSize (rows * hSize)) source
  by_cases he : header.hasEastDirection = true
  · refine ⟨.internalRightInputDevice source, by simp [getInjectionNetDevice, hempty, he],
      hdrift _ rfl, hmag, ?_⟩
    intro hx0
    have hpos : 0 < header.signedOffset 0 := by
      by_contra hle
      have hneg := OffsetByte.not_isForward_of_signed_neg
        (show OffsetByte.signed (header.byte 0) < 0 by
          simp only [NocHeader.signedOffset] at hx0 hle
          omega)
      rw [NocHeader.hasEastDirection, hneg] at he
      cases he
    refine hside.1.trans ?_
    simp [hpos]
  · refine ⟨.internalLeftInputDevice source, by simp [getInjectionNetDevice, hempty, he],
      hdrift _ rfl, hmag, ?_⟩
    intro hx0
    have hneg : ¬0 < header.signedOffset 0 := fun hpos =>
      he (OffsetByte.isForward_of_signed_pos hpos)
    refine hside.2.trans ?_
    simp [hneg]

/-- A flit is delivered exactly when its destination is on the row of its source. -/
theorem xyDelivers_iff (hSize rows : ℕ) (hh : 0 < hSize) (hh' : hSize ≤ 127) (hr : rows ≤ 127)
    (source destination : ℕ) (hsrc : source < rows * hSize) (hd : destination < rows * hSize)
    (hne : source ≠ destination) (position : List UInt8) :
    XyDelivers hSize (rows * hSize) source destination position ↔
      source / hSize = destination / hSize := by
  obtain ⟨sender, hsender, hdrift, hmag, hside⟩ := injected hh hh' hr hsrc hd hne position
  have hn : 1 < rows * hSize := by omega
  constructor
  · rintro ⟨sender', hsender', hwalk⟩
    rw [hsender] at hsender'
    cases hsender'
    obtain ⟨s, hw, harrive⟩ := hwalk _ le_rfl
    obtain ⟨hs, hm⟩ := PartialRuns.measure_of_walk (m := fun s => s.2.magnitude)
      (fun s s' hs h => hs.hop hh hn h) _ _ hdrift hw
    -- the header is used up, so the drift shows in the row of the node
    dsimp only at hm
    have hy := s.2.magnitude_eq_zero_iff.mp (by omega) 1 (by rw [hs.length_eq]; omega)
    have hrow := hs.row
    rw [hy, harrive.mpr rfl] at hrow
    omega
  · intro hrow
    have hy := (signedOffset_relativePositions hh (by omega) (by omega : rows ≤ 128) hsrc hd
      position).2
    rw [hrow, sub_self] at hy
    refine ⟨sender, hsender, ?_⟩
    intro hops hle
    obtain ⟨s, hw, hs, hm⟩ := PartialRuns.walk_of_measure (m := fun s => s.2.magnitude)
      (fun s hs h => hs.hop hh hn hd h) hops _ (OnRow.mk hdrift hy hside)
      (by dsimp only; rw [hmag]; exact hle)
    refine ⟨s, hw, ?_⟩
    dsimp only at hm
    have hcol := hs.drifting.column
    have hrow' := hs.drifting.row
    rw [hs.row_eq, hrow] at hrow'
    constructor
    · intro hnode
      have hzero : s.2.magnitude = 0 := by
        apply s.2.magnitude_eq_zero_iff.mpr
        intro k hk
        rw [hs.drifting.length_eq] at hk
        interval_cases k
        · rw [hcol, hnode, sub_self]
        · exact hs.row_eq
      omega
    · intro hend
      have hx := s.2.magnitude_eq_zero_iff.mp (by omega) 0 (by rw [hs.drifting.length_eq]; omega)
      rw [← Nat.mod_add_div' s.1.node hSize, ← Nat.mod_add_div' destination hSize,
        show s.1.node % hSize = destination % hSize by omega,
        show s.1.node / hSize = destination / hSize by omega]

theorem xyDelivers_same_row_3_2 : XyDelivers 3 6 3 5 [0, 0] :=
  (xyDelivers_iff 3 2 (by decide) (by decide) (by decide) 3 5 (by decide) (by decide) (by decide)
    [0, 0]).mpr (by decide)

/-- In row 0 there is no device called NORTH, so the first hop to row 1 already fails. -/
theorem not_xyDelivers_2_2 : ¬XyDelivers 2 4 0 2 [0, 0] := by
  rintro ⟨sender, hsender, hwalk⟩
  obtain ⟨s, hw, -⟩ := hwalk 1 (by decide)
  have hright : sender = .internalRightInputDevice 0 := by
    have : getInjectionNetDevice 0 ⟨[0, 1], [0, 0]⟩ = some (.internalRightInputDevice 0) := by decide
    exact Option.some.inj (hsender.symm.trans this)
  subst hright
  have hnone : PartialRuns.walk (hop (install 2 4) 2) 1
      (.internalRightInputDevice 0, ⟨[0, 1], [0, 0]⟩) = none := by decide +kernel
  exact absurd (hw.symm.trans hnone) (by simp)

end NocIrvineMesh2D
end Ns3Noc
