import Ns3Noc.DorRouting
import Ns3Noc.NdTopologies
import Ns3Noc.NocHeader

/-!
# Dimension-order delivery

`LineMoves` says what a topology owes to a dimension-order router: links move the flit one
position along a line, and a flit that still has to move finds a link in its direction, at
its own node and into the destination. Under that interface a walk of hops follows the
header; the mesh and the torus both provide it.
-/
namespace Ns3Noc
open MixedRadixIndices DimensionWiring

/-- How displacements change along the links `v → next k v`. -/
structure LineMoves (dimensions nodes : ℕ) (next : ℕ → ℕ → Option ℕ)
    (displacement : ℕ → ℕ → ℕ → ℤ) : Prop where
  self : ∀ k v, displacement k v v = 0
  eq_of_zero : ∀ v < nodes, ∀ d < nodes, (∀ k < dimensions, displacement k v d = 0) → v = d
  next_lt : ∀ k < dimensions, ∀ v < nodes, ∀ u, next k v = some u → u < nodes
  other : ∀ k < dimensions, ∀ v < nodes, ∀ u, next k v = some u → ∀ j, j ≠ k → ∀ d,
    displacement j u d = displacement j v d
  forward : ∀ k < dimensions, ∀ v < nodes, ∀ d < nodes, 0 < displacement k v d →
    ∃ u, next k v = some u ∧ displacement k u d = displacement k v d - 1
  back : ∀ k < dimensions, ∀ v < nodes, ∀ d < nodes, displacement k v d < 0 →
    ∃ u < nodes, next k u = some v ∧ displacement k u d = displacement k v d + 1
  into_forward : ∀ k < dimensions, ∀ v < nodes, ∀ d < nodes, 0 < displacement k v d →
    ∃ x < nodes, next k x = some d
  into_back : ∀ k < dimensions, ∀ v < nodes, ∀ d < nodes, displacement k v d < 0 →
    ∃ x, next k d = some x

section Walk
variable {w : Wiring} {dimensions nodes : ℕ} {next : ℕ → ℕ → Option ℕ}
variable {chan : ℕ → ℕ → ℕ} {displacement : ℕ → ℕ → ℕ → ℤ}

theorem Truthful.magnitude_eq_zero_iff (hm : LineMoves dimensions nodes next displacement)
    {destination : ℕ} (hd : destination < nodes) {s : ℕ × NocHeader}
    (hs : Truthful dimensions nodes displacement destination s) :
    s.2.magnitude = 0 ↔ s.1 = destination := by
  rw [NocHeader.magnitude_eq_zero_iff, hs.length_eq]
  constructor
  · intro hz
    apply hm.eq_of_zero _ hs.node_lt _ hd
    intro k hk
    rw [← hs.offsets k hk, hz k hk]
  · intro heq k hk
    rw [hs.offsets k hk, heq, hm.self]

/-- A flit short of its destination is routed, and the hop keeps its header truthful. -/
theorem Truthful.route (hl : LinkedBy w dimensions nodes next chan)
    (hm : LineMoves dimensions nodes next displacement) {routingOrder : List ℕ}
    (hperm : routingOrder.Perm (List.range dimensions)) {destination : ℕ}
    (hd : destination < nodes) {v : ℕ} {header : NocHeader}
    (hs : Truthful dimensions nodes displacement destination (v, header))
    (hne : header.magnitude ≠ 0) :
    ∃ route receiver, DorRouting.requestNewRoute w routingOrder v destination header =
        some (some route) ∧
      route.sourceNetDevice.node = v ∧ route.destinationNetDevice.node = destination ∧
      w.peer route.sourceNetDevice = some receiver ∧
      Truthful dimensions nodes displacement destination (receiver.node, route.header) ∧
      route.header.magnitude + 1 = header.magnitude := by
  have hv : v < nodes := hs.node_lt
  have hlen : header.distance.length = dimensions := hs.length_eq
  obtain ⟨k, hk, hko, hroute⟩ := DorRouting.requestNewRoute_spec w v destination
    (hlen ▸ hperm) hne
  have hmag := header.magnitude_lower hk hko
  rw [hlen] at hk
  have hsigned : header.signedOffset k = displacement k v destination := hs.offsets k hk
  rcases lt_or_gt_of_ne hko with hneg | hpos
  · simp only [hneg.not_gt, if_false] at hroute
    obtain ⟨u, hu, hnext, hdisp⟩ := hm.back k hk v hv destination hd (hsigned ▸ hneg)
    obtain ⟨x, hx⟩ := hm.into_back k hk v hv destination hd (hsigned ▸ hneg)
    refine ⟨_, _, hroute _ _ (hl.getInputNetDevice_back hk hu hnext)
      (hl.getInputNetDevice_forward hk hd hx), rfl, rfl, hl.peer_back hk hu hnext, ?_, hmag⟩
    exact hs.lower hk hu hko
      (by rw [hdisp, hsigned, Int.sign_eq_neg_one_of_neg (hsigned ▸ hneg)]; ring)
      (fun j hj => (hm.other k hk u hu v hnext j hj destination).symm)
  · simp only [hpos, if_true] at hroute
    obtain ⟨u, hnext, hdisp⟩ := hm.forward k hk v hv destination hd (hsigned ▸ hpos)
    obtain ⟨x, hx, hxd⟩ := hm.into_forward k hk v hv destination hd (hsigned ▸ hpos)
    refine ⟨_, _, hroute _ _ (hl.getInputNetDevice_forward hk hv hnext)
      (hl.getInputNetDevice_back hk hx hxd), rfl, rfl, hl.peer_forward hk hv hnext, ?_, hmag⟩
    exact hs.lower hk (hm.next_lt k hk v hv u hnext) hko
      (by rw [hdisp, hsigned, Int.sign_eq_one_of_pos (hsigned ▸ hpos)])
      (fun j hj => hm.other k hk v hv u hnext j hj destination)

/-- A walk of at most as many hops as the header asks for succeeds and stays truthful. -/
theorem Truthful.walk (hl : LinkedBy w dimensions nodes next chan)
    (hm : LineMoves dimensions nodes next displacement) {routingOrder : List ℕ}
    (hperm : routingOrder.Perm (List.range dimensions)) {destination : ℕ}
    (hd : destination < nodes) {s : ℕ × NocHeader}
    (hs : Truthful dimensions nodes displacement destination s) {hops : ℕ}
    (hh : hops ≤ s.2.magnitude) :
    ∃ s', PartialRuns.walk (DorRouting.hop w routingOrder destination) hops s = some s' ∧
      Truthful dimensions nodes displacement destination s' ∧
      s'.2.magnitude + hops = s.2.magnitude := by
  refine PartialRuns.walk_of_measure (m := fun s => s.2.magnitude) ?_ hops s hs hh
  rintro ⟨v, header⟩ hs hpos
  obtain ⟨route, receiver, hr, -, -, hp, ht, hμ⟩ := hs.route hl hm hperm hd hpos.ne'
  refine ⟨(receiver.node, route.header), ?_, ht, hμ⟩
  simp [DorRouting.hop, hr, hp]

end Walk

section Lines
variable {size : List ℕ} {torus : Bool} {k v u : ℕ}

/-- A link changes no coordinate but its own. -/
theorem coordinate_of_next (hs : ∀ s ∈ size, 0 < s) (h : next torus size k v = some u) {j : ℕ}
    (hj : j ≠ k) : coordinate size j u = coordinate size j v := by
  rcases next_eq_some h with ⟨hn, rfl⟩ | ⟨-, -, rfl⟩
  · have hadd := coordinate_add hs (c := 1) hn j
    rwa [Nat.one_mul, if_neg hj] at hadd
  · rw [coordinate_sub hs le_rfl, if_neg hj]

/-- Around a ring a link adds one to its coordinate. -/
theorem coordinate_of_next_modEq (hs : ∀ s ∈ size, 0 < s) (h : next torus size k v = some u) :
    (coordinate size k u : ℤ) ≡ coordinate size k v + 1 [ZMOD extent size k] := by
  rcases next_eq_some h with ⟨hn, rfl⟩ | ⟨-, hn, rfl⟩
  · rw [coordinate_next hs hn]
    push_cast
    rfl
  · have hlast := (not_hasNext_iff hs v).mp hn
    have hself := coordinate_sub_self hs (le_refl (coordinate size k v))
    have hzero : coordinate size k (v - coordinate size k v * stride size k) = 0 := by omega
    rw [hzero, ← hlast]
    push_cast
    exact (Int.modEq_iff_dvd.mpr ⟨1, by ring⟩)

variable (torus) in
theorem exists_next_of_lt (hs : ∀ s ∈ size, 0 < s) (hv : 0 < coordinate size k v) :
    next torus size k (v - stride size k) = some v := by
  rw [next_of_hasNext (hasNext_sub hs hv), Nat.sub_add_cancel (stride_le_of_coordinate_pos hv)]

/-- In a torus every node is entered in every dimension. -/
theorem exists_next_torus (hs : ∀ s ∈ size, 0 < s) (hk : k < size.length)
    (hv : v < size.prod) : ∃ x < size.prod, next true size k x = some v := by
  rcases Nat.eq_zero_or_pos (coordinate size k v) with hz | hpos
  · have hend := ring_end hs hz
    have he := extent_pos hs k
    have hlast : ¬hasNext size k (v + (extent size k - 1) * stride size k) := by
      rw [not_hasNext_iff hs, hend]
      omega
    refine ⟨v + (extent size k - 1) * stride size k, add_lt_prod hs hk hv (by omega), ?_⟩
    rw [next, if_neg hlast, if_pos rfl, hend, Nat.add_sub_cancel]
  · exact ⟨v - stride size k, by omega, exists_next_of_lt _ hs hpos⟩

theorem next_torus_isSome (size : List ℕ) (k v : ℕ) : ∃ x, next true size k v = some x := by
  unfold next
  split
  · exact ⟨_, rfl⟩
  · exact ⟨_, rfl⟩

theorem mesh_lineMoves (hs : ∀ s ∈ size, 0 < s) :
    LineMoves size.length size.prod (next false size) (NocMeshND.displacement size) := by
  have hstep : ∀ k v u, next false size k v = some u →
      coordinate size k u = coordinate size k v + 1 := by
    intro k v u h
    rcases next_eq_some h with ⟨hn, rfl⟩ | ⟨ht, -, -⟩
    · exact coordinate_next hs hn
    · cases ht
  constructor
  case self => exact fun k v => sub_self _
  case eq_of_zero =>
    intro v hv d hd hz
    apply eq_of_coordinates hv hd
    intro k hk
    have := hz k hk
    unfold NocMeshND.displacement at this
    omega
  case next_lt => exact fun k hk v hv u h => next_lt hs hk hv h
  case other =>
    intro k _ v _ u h j hj d
    rw [NocMeshND.displacement, NocMeshND.displacement, coordinate_of_next hs h hj]
  case forward =>
    intro k _ v _ d _ hpos
    have hd := coordinate_lt hs k d
    unfold NocMeshND.displacement at hpos ⊢
    have hn : hasNext size k v := by
      unfold hasNext
      omega
    refine ⟨v + stride size k, next_of_hasNext hn, ?_⟩
    rw [coordinate_next hs hn]
    push_cast
    ring
  case back =>
    intro k _ v hv d _ hneg
    unfold NocMeshND.displacement at hneg ⊢
    have hprev := exists_next_of_lt false hs (show 0 < coordinate size k v by omega)
    refine ⟨v - stride size k, by omega, hprev, ?_⟩
    rw [hstep k _ v hprev]
    push_cast
    ring
  case into_forward =>
    intro k _ v _ d hd hpos
    unfold NocMeshND.displacement at hpos
    exact ⟨d - stride size k, by omega,
      exists_next_of_lt _ hs (show 0 < coordinate size k d by omega)⟩
  case into_back =>
    intro k _ v _ d _ hneg
    have hv := coordinate_lt hs k v
    unfold NocMeshND.displacement at hneg
    have hn : hasNext size k d := by
      unfold hasNext
      omega
    exact ⟨_, next_of_hasNext hn⟩

/-- One link forward brings a destination that lies ahead one position nearer. -/
theorem ringDisplacement_of_next (hs : ∀ s ∈ size, 0 < s) (h : next true size k v = some u)
    (d : ℕ) {e : ℤ} (he : NocTorusND.displacement size k v d = e + 1)
    (hlo : -(extent size k : ℤ) < 2 * e) (hhi : 2 * e ≤ extent size k) :
    NocTorusND.displacement size k u d = e := by
  have hpos := extent_pos hs k
  have hspec := (NocTorusND.ringDisplacement_spec hpos (coordinate size k v)
    (coordinate size k d)).1
  have hmod := coordinate_of_next_modEq hs h
  refine (NocTorusND.ringDisplacement_unique hpos ?_ hlo hhi).symm
  rw [← NocTorusND.displacement, he] at hspec
  have hsub := hspec.sub_right 1
  calc e = e + 1 - 1 := by ring
    _ ≡ coordinate size k d - coordinate size k v - 1 [ZMOD extent size k] := hsub
    _ = coordinate size k d - (coordinate size k v + 1) := by ring
    _ ≡ coordinate size k d - coordinate size k u [ZMOD extent size k] := hmod.symm.sub_left _

theorem torus_lineMoves (hs : ∀ s ∈ size, 0 < s) :
    LineMoves size.length size.prod (next true size) (NocTorusND.displacement size) := by
  have hspec : ∀ k v d, _ := fun k v d => NocTorusND.ringDisplacement_spec (extent_pos hs k)
    (coordinate size k v) (coordinate size k d)
  constructor
  case self =>
    intro k v
    have hpos := extent_pos hs k
    exact (NocTorusND.ringDisplacement_unique hpos (by rw [sub_self]) (by omega) (by omega)).symm
  case eq_of_zero =>
    intro v hv d hd hz
    apply eq_of_coordinates hv hd
    intro k hk
    -- a zero displacement leaves no room below the size of the ring
    have hmod := (hspec k v d).1
    rw [← NocTorusND.displacement, hz k hk] at hmod
    obtain ⟨c, hc⟩ := hmod.dvd
    have hvk := coordinate_lt hs k v
    have hdk := coordinate_lt hs k d
    have h1 : -(1 : ℤ) < c := by nlinarith
    have h2 : c < 1 := by nlinarith
    have hc0 : c = 0 := by omega
    subst hc0
    omega
  case next_lt => exact fun k hk v hv u h => next_lt hs hk hv h
  case other =>
    intro k _ v _ u h j hj d
    rw [NocTorusND.displacement, NocTorusND.displacement, coordinate_of_next hs h hj]
  case forward =>
    intro k _ v _ d _ hpos
    obtain ⟨u, hu⟩ := next_torus_isSome size k v
    obtain ⟨-, hlo, hhi⟩ := hspec k v d
    rw [← NocTorusND.displacement] at hlo hhi
    exact ⟨u, hu, ringDisplacement_of_next hs hu d (by ring) (by omega) (by omega)⟩
  case back =>
    intro k hk v hv d _ hneg
    obtain ⟨u, hul, hu⟩ := exists_next_torus hs hk hv
    obtain ⟨hmod, hlo, hhi⟩ := hspec k v d
    rw [← NocTorusND.displacement] at hmod hlo hhi
    refine ⟨u, hul, hu, ?_⟩
    refine (NocTorusND.ringDisplacement_unique (extent_pos hs k) ?_ (by omega) (by omega)).symm
    calc NocTorusND.displacement size k v d + 1
      _ ≡ coordinate size k d - coordinate size k v + 1 [ZMOD extent size k] := hmod.add_right 1
      _ ≡ coordinate size k d - (coordinate size k u + 1) + 1 [ZMOD extent size k] :=
        ((coordinate_of_next_modEq hs hu).sub_left _).add_right 1
      _ = coordinate size k d - coordinate size k u := by ring
  case into_forward => exact fun k hk v _ d hd _ => exists_next_torus hs hk hd
  case into_back => exact fun k _ v _ d _ _ => next_torus_isSome size k d

end Lines

namespace NdTopology

/-- The links of the topology along dimension `k`. -/
def next (t : NdTopology) (size : List ℕ) : ℕ → ℕ → Option ℕ :=
  DimensionWiring.next (t == torus) size

theorem linkedBy (t : NdTopology) {size : List ℕ} (hs : ∀ s ∈ size, 0 < s)
    (hn : size.prod < 2 ^ 32) : LinkedBy (t.install size size.prod) size.length size.prod
      (t.next size) (DimensionWiring.chan (t == torus) size) := by
  cases t with
  | mesh => exact install_linkedBy hs hn
  | torus => exact install_linkedBy hs hn

theorem lineMoves (t : NdTopology) {size : List ℕ} (hs : ∀ s ∈ size, 0 < s) :
    LineMoves size.length size.prod (t.next size) (t.displacement size) := by
  cases t with
  | mesh => exact mesh_lineMoves hs
  | torus => exact torus_lineMoves hs

/-- The header that the encoder builds for a new packet is truthful. -/
theorem truthful (t : NdTopology) {size : List ℕ} (hs : ∀ s ∈ size, 1 ≤ s ∧ s ≤ 127)
    (hn : size.prod < 2 ^ 32) {source destination : ℕ} (hsrc : source < size.prod)
    (position : List UInt8) : Truthful size.length size.prod (t.displacement size) destination
      (source, ⟨t.getDestinationRelativeDimensionalPosition size source destination, position⟩) := by
  refine ⟨hsrc, ?_, ?_⟩
  · cases t with
    | mesh => simp [getDestinationRelativeDimensionalPosition,
        NocMeshND.getDestinationRelativeDimensionalPosition]
    | torus => simp [getDestinationRelativeDimensionalPosition,
        NocTorusND.getDestinationRelativeDimensionalPosition]
  · intro k hk
    exact t.signed_position hs hn source destination hk

end NdTopology

/-- Dimension-order routing delivers in an n-dimensional mesh or torus: after any number of
hops up to the sum of the initial offset magnitudes the walk is alive, the header holds the
true displacement, the destination is reached at the last of these hops and not before, and
every request before it finds its devices. -/
theorem dorRouting_delivers (t : NdTopology) (size : List ℕ) (hsize : ∀ s ∈ size, 1 ≤ s ∧ s ≤ 127)
    (nodes : UInt32) (hnodes : nodes.toNat = size.prod) (routingOrder : List ℕ)
    (hperm : routingOrder.Perm (List.range size.length)) (source destination : ℕ)
    (hsrc : source < nodes.toNat) (hdst : destination < nodes.toNat) (hne : source ≠ destination)
    (position : List UInt8) :
    let w := t.install size nodes.toNat
    let header : NocHeader :=
      ⟨t.getDestinationRelativeDimensionalPosition size source destination, position⟩
    0 < header.magnitude ∧ ∀ hops ≤ header.magnitude, ∃ node remaining,
      PartialRuns.walk (DorRouting.hop w routingOrder destination) hops (source, header) =
        some (node, remaining) ∧
      node < nodes.toNat ∧
      (∀ k < size.length, remaining.signedOffset k = t.displacement size k node destination) ∧
      (node = destination ↔ hops = header.magnitude) ∧
      (node = destination → ∀ k < size.length, OffsetByte.offset (remaining.byte k) = 0) ∧
      (hops < header.magnitude → ∃ route,
        DorRouting.requestNewRoute w routingOrder node destination remaining = some (some route) ∧
        route.sourceNetDevice.node = node ∧ route.destinationNetDevice.node = destination) := by
  intro w header
  have hs : ∀ s ∈ size, 0 < s := fun s h => (hsize s h).1
  have hn : size.prod < 2 ^ 32 := hnodes ▸ nodes.toNat_lt
  have hl := t.linkedBy hs hn
  have hm := t.lineMoves hs
  rw [← hnodes] at hl hm
  have hstart : Truthful size.length nodes.toNat (t.displacement size) destination
      (source, header) := by
    rw [hnodes]
    exact t.truthful hsize hn (hnodes ▸ hsrc) position
  refine ⟨?_, ?_⟩
  · exact Nat.pos_of_ne_zero (fun h => hne ((hstart.magnitude_eq_zero_iff hm hdst).mp h))
  intro hops hh
  obtain ⟨⟨node, remaining⟩, hw, ht, hμ⟩ := hstart.walk hl hm hperm hdst hh
  have hzero := ht.magnitude_eq_zero_iff hm hdst
  dsimp only at hμ hzero
  refine ⟨node, remaining, hw, ht.node_lt, ht.offsets, ?_, ?_, ?_⟩
  · rw [← hzero]
    omega
  · intro heq k hk
    have hoff := (remaining.magnitude_eq_zero_iff).mp (hzero.mpr heq) k
      (by rw [ht.length_eq]; exact hk)
    exact (OffsetByte.signed_eq_zero_iff _).mp hoff
  · intro hlt
    obtain ⟨route, -, hr, hsn, hdn, -⟩ := ht.route hl hm hperm hdst (by omega)
    exact ⟨route, hr, hsn, hdn⟩

theorem dorRouting_delivers_torus_3_2 :
    ∃ remaining, PartialRuns.walk (DorRouting.hop (NdTopology.torus.install [3, 2] 6) [1, 0] 5) 2
      (0, ⟨[0x81, 1], [0, 0]⟩) = some (5, remaining) := by
  obtain ⟨node, remaining, hw, -, -, harrive, -⟩ := (dorRouting_delivers .torus [3, 2] (by decide) 6
    (by decide) [1, 0] (by decide) 0 5 (by decide) (by decide) (by decide) [0, 0]).2 2 (by decide)
  obtain rfl := harrive.mpr (by decide)
  exact ⟨remaining, hw⟩

end Ns3Noc
