import Mathlib.Data.Finset.Prod
import Mathlib.Tactic.IntervalCases
import Ns3Noc.GridTopologies
import Ns3Noc.NdLinks

/-!
# The links of the hand-unrolled builders

With two columns or more they are the general builders, device by device. With a single column
the test `i == 0` of the horizontal loop adds a link between the first two nodes.
-/
namespace Ns3Noc
open MixedRadixIndices DimensionWiring GridWiring

/-- A device without its channel. -/
structure NocPort where
  node : ℕ
  routingDirection : RoutingDirection
  routingDimension : ℕ
  deriving DecidableEq, Repr

def NocNetDevice.port (d : NocNetDevice) : NocPort :=
  ⟨d.node, d.routingDirection, d.routingDimension⟩

/-- The pairs of ports that share a channel, in both orders. -/
def Wiring.links (w : Wiring) : Finset (NocPort × NocPort) :=
  ((w.devices.toFinset ×ˢ w.devices.toFinset).filter
    (fun p => p.1 ≠ p.2 ∧ p.1.channel = p.2.channel)).image (fun p => (p.1.port, p.2.port))

theorem Wiring.mem_links {w : Wiring} {p q : NocPort} : (p, q) ∈ w.links ↔
    ∃ d ∈ w.devices, ∃ e ∈ w.devices, d ≠ e ∧ d.channel = e.channel ∧ d.port = p ∧ e.port = q := by
  simp only [Wiring.links, Finset.mem_image, Finset.mem_filter, Finset.mem_product,
    List.mem_toFinset, Prod.exists, Prod.mk.injEq]
  constructor
  · rintro ⟨d, e, ⟨⟨hd, he⟩, hne, hc⟩, hp, hq⟩
    exact ⟨d, hd, e, he, hne, hc, hp, hq⟩
  · rintro ⟨d, hd, e, he, hne, hc, hp, hq⟩
    exact ⟨d, e, ⟨⟨hd, he⟩, hne, hc⟩, hp, hq⟩

namespace GridWiring
variable {torus : Bool}

/-- The loop body only adds devices. -/
theorem wireBlock_mem (k node j : ℕ) (hasNext isFirst isLast : Bool) {s : LineState}
    {d : NocNetDevice} (hd : d ∈ s.wiring.devices) :
    d ∈ (wireBlock torus k node j hasNext isFirst isLast s).wiring.devices := by
  cases hc : s.channels j <;> cases hr : s.channelsTorus j <;> cases torus <;> cases hasNext <;>
    cases isFirst <;> cases isLast <;> simp [wireBlock, hc, hr, hd]

theorem foldl_wireBlock_mem {ι : Type} {f : LineState → ι → LineState} (l : List ι)
    (hf : ∀ s i, ∀ d ∈ s.wiring.devices, d ∈ (f s i).wiring.devices) {s : LineState}
    {d : NocNetDevice} (hd : d ∈ s.wiring.devices) : d ∈ (l.foldl f s).wiring.devices := by
  induction l generalizing s with
  | nil => exact hd
  | cons i l ih => exact ih (hf s i d hd)

theorem blocks_mem {k step nodes : ℕ} {hasNext isFirst isLast : ℕ → Bool} {w : Wiring}
    {d : NocNetDevice} (hd : d ∈ w.devices) :
    d ∈ (blocks torus k step nodes hasNext isFirst isLast w).devices := by
  refine foldl_wireBlock_mem _ (fun s i d hd => ?_) hd
  exact foldl_wireBlock_mem _ (fun s j d hd => wireBlock_mem _ _ _ _ _ _ hd) hd

/-- With a single column the second node joins the channel that the first one creates. -/
theorem horizontal_single {nodes : ℕ} (hn : 2 ≤ nodes) :
    ⟨0, 0, .forward, 0⟩ ∈ (horizontal torus 1 nodes Wiring.empty).devices ∧
      ⟨1, 0, .back, 0⟩ ∈ (horizontal torus 1 nodes Wiring.empty).devices := by
  obtain ⟨n, rfl⟩ := Nat.exists_eq_add_of_le' hn
  have hrange : List.range (n + 2) = [0, 1] ++ (List.range n).map (fun i => 2 + i) := by
    rw [Nat.add_comm, List.range_add]
    rfl
  rw [horizontal, hrange, List.foldl_append]
  constructor
  · refine foldl_wireBlock_mem _ (fun s i d hd => wireBlock_mem _ _ _ _ _ _ hd) ?_
    cases torus <;> decide
  · refine foldl_wireBlock_mem _ (fun s i d hd => wireBlock_mem _ _ _ _ _ _ hd) ?_
    cases torus <;> decide

/-- The link between two nodes of different rows that a single column leads to. -/
def rowLink : NocPort × NocPort := (⟨0, .forward, 0⟩, ⟨1, .back, 0⟩)

theorem rowLink_mem {w : Wiring} (h : ⟨0, 0, .forward, 0⟩ ∈ w.devices)
    (h' : ⟨1, 0, .back, 0⟩ ∈ w.devices) : rowLink ∈ w.links :=
  Wiring.mem_links.mpr ⟨_, h, _, h', by simp, rfl, rfl, rfl⟩

theorem install2D_single (torus : Bool) {nodes : ℕ} (hn : 2 ≤ nodes) :
    rowLink ∈ (install2D torus 1 nodes).links :=
  rowLink_mem (blocks_mem (horizontal_single hn).1) (blocks_mem (horizontal_single hn).2)

theorem install3D_single (torus : Bool) {nodes : ℕ} (vSize : ℕ) (hn : 2 ≤ nodes) :
    rowLink ∈ (install3D torus 1 vSize nodes).links :=
  rowLink_mem (blocks_mem (blocks_mem (horizontal_single hn).1))
    (blocks_mem (blocks_mem (horizontal_single hn).2))

/-- A dimension of one node has no link to another node. -/
theorem rowLink_notMem (torus : Bool) (sizes : List ℕ) (hs : ∀ s ∈ sizes, 0 < s) (hn : sizes.prod < 2 ^ 32) :
    rowLink ∉ (DimensionWiring.install torus (1 :: sizes) sizes.prod).links := by
  have hpos : ∀ s ∈ 1 :: sizes, 0 < s := by
    intro s h
    rcases List.mem_cons.mp h with rfl | h
    · exact Nat.one_pos
    · exact hs s h
  have hprod : (1 :: sizes).prod = sizes.prod := by rw [List.prod_cons, Nat.one_mul]
  have hl := @install_linkedBy torus _ hpos (by rw [hprod]; exact hn)
  rw [hprod] at hl
  intro hmem
  obtain ⟨d, hd, e, he, -, hc, hdp, hep⟩ := Wiring.mem_links.mp hmem
  rw [NocNetDevice.port, NocPort.mk.injEq] at hdp hep
  obtain ⟨k, hk, v, hv, u, hnext, rfl | rfl⟩ := (hl.mem_devices d).mp hd
  · obtain ⟨hv0, -, hk0⟩ := hdp
    dsimp only at hv0 hk0
    subst hv0 hk0
    have hu : u = 0 := by
      rcases next_eq_some hnext with ⟨hnext, -⟩ | ⟨-, -, rfl⟩
      · have hone : extent (1 :: sizes) 0 = 1 := rfl
        rw [hasNext, hone] at hnext
        omega
      · exact Nat.zero_sub _
    rcases hl.channel_eq hk hv hnext he hc.symm with rfl | rfl
    · exact absurd hep.2.1 (by simp)
    · have := hep.1
      dsimp only at this
      omega
  · exact absurd hdp.2.1 (by simp)

theorem getNumberOfNodes_cons (hSize : ℕ) (sizes : List ℕ) :
    getNumberOfNodes (hSize :: sizes) 0 = 1 ∧
      getNumberOfNodes (hSize :: sizes) 1 = hSize % 2 ^ 32 := by
  constructor
  · rfl
  · simp [getNumberOfNodes, extent]

theorem getNumberOfNodes_two (hSize vSize : ℕ) (sizes : List ℕ) :
    getNumberOfNodes (hSize :: vSize :: sizes) 2 = hSize * vSize % 2 ^ 32 := by
  simp [getNumberOfNodes, extent, List.range_succ]

theorem getNumberOfNodes_three (hSize vSize layers : ℕ) :
    getNumberOfNodes [hSize, vSize, layers] 3 = hSize * vSize * layers % 2 ^ 32 := by
  simp [getNumberOfNodes, extent, List.range_succ]

/-- The two-dimensional builders, device by device. -/
theorem install2D_eq {hSize rows : ℕ} (hh : 2 ≤ hSize) (hlt : hSize < 2 ^ 32)
    (hn : hSize * rows < 2 ^ 32) : install2D torus hSize (hSize * rows) =
      DimensionWiring.install torus [hSize, rows] (hSize * rows) := by
  obtain ⟨hzero, hone⟩ := getNumberOfNodes_cons hSize [rows]
  rw [Nat.mod_eq_of_lt hlt] at hone
  have htwo := getNumberOfNodes_two hSize rows []
  rw [Nat.mod_eq_of_lt hn] at htwo
  rw [install2D, horizontal_eq hzero hone hh, outerBlocks_eq hone htwo (by omega)]
  rfl

/-- The three-dimensional builders, device by device. -/
theorem install3D_eq {hSize vSize layers : ℕ} (hh : 2 ≤ hSize) (hv : 0 < vSize)
    (hxy : hSize * vSize < 2 ^ 32) (hn : hSize * vSize * layers < 2 ^ 32) :
    install3D torus hSize vSize (hSize * vSize * layers) =
      DimensionWiring.install torus [hSize, vSize, layers] (hSize * vSize * layers) := by
  have hle : hSize ≤ hSize * vSize := Nat.le_mul_of_pos_right hSize hv
  obtain ⟨hzero, hone⟩ := getNumberOfNodes_cons hSize [vSize, layers]
  rw [Nat.mod_eq_of_lt (by omega)] at hone
  have htwo := getNumberOfNodes_two hSize vSize [layers]
  rw [Nat.mod_eq_of_lt hxy] at htwo
  have hthree := getNumberOfNodes_three hSize vSize layers
  rw [Nat.mod_eq_of_lt hn] at hthree
  rw [install3D, Nat.mod_eq_of_lt hxy, horizontal_eq hzero hone hh, layerBlocks_eq hone htwo hv,
    outerBlocks_eq htwo hthree (by omega)]
  rfl

theorem strided_zero (step : ℕ) : BlockedLoops.strided 0 step = [] := by
  rw [BlockedLoops.strided, Nat.zero_add, Nat.div_eq_zero_iff.mpr (by omega)]
  rfl

/-- Without nodes there is nothing to build. -/
theorem install_zero (size : List ℕ) : DimensionWiring.install torus size 0 = Wiring.empty := by
  rw [DimensionWiring.install]
  induction size.length with
  | zero => rfl
  | succ m ih =>
    rw [List.range_succ, List.foldl_append, ih, List.foldl_cons, List.foldl_nil,
      installDimension, strided_zero]
    rfl

theorem install2D_zero (hSize : ℕ) : install2D torus hSize 0 = Wiring.empty := by
  rw [install2D, outerBlocks, blocks, strided_zero]
  rfl

theorem install3D_zero (hSize vSize : ℕ) : install3D torus hSize vSize 0 = Wiring.empty := by
  rw [install3D, outerBlocks, blocks, layerBlocks, blocks, strided_zero, strided_zero]
  rfl

theorem install2D_links_iff {hSize rows : ℕ} (hh : 1 ≤ hSize) (hlt : hSize < 2 ^ 32)
    (hn : hSize * rows < 2 ^ 32) :
    (install2D torus hSize (hSize * rows)).links =
        (DimensionWiring.install torus [hSize, rows] (hSize * rows)).links ↔
      2 ≤ hSize ∨ hSize * rows ≤ 1 := by
  constructor
  · intro heq
    by_contra hno
    obtain ⟨rfl, hrows⟩ : hSize = 1 ∧ 2 ≤ rows := by
      rw [not_or] at hno
      obtain rfl : hSize = 1 := by omega
      omega
    rw [Nat.one_mul] at heq hn
    have hmem := install2D_single torus hrows
    have hprod : [rows].prod = rows := List.prod_singleton
    have hnot := rowLink_notMem torus [rows] (by simp; omega) (by omega)
    rw [hprod, ← heq] at hnot
    exact hnot hmem
  · intro h
    by_cases hwide : 2 ≤ hSize
    · rw [install2D_eq hwide hlt hn]
    · obtain rfl : hSize = 1 := by omega
      have hrows : rows ≤ 1 := by omega
      interval_cases rows
      · rw [Nat.mul_zero, install2D_zero, install_zero]
      · cases torus <;> decide

theorem install3D_links_iff {hSize vSize layers : ℕ} (hh : 1 ≤ hSize) (hv : 1 ≤ vSize)
    (hxy : hSize * vSize < 2 ^ 32) (hn : hSize * vSize * layers < 2 ^ 32) :
    (install3D torus hSize vSize (hSize * vSize * layers)).links =
        (DimensionWiring.install torus [hSize, vSize, layers] (hSize * vSize * layers)).links ↔
      2 ≤ hSize ∨ hSize * vSize * layers ≤ 1 := by
  constructor
  · intro heq
    by_contra hno
    obtain ⟨rfl, hrows⟩ : hSize = 1 ∧ 2 ≤ vSize * layers := by
      rw [not_or] at hno
      obtain rfl : hSize = 1 := by omega
      rw [Nat.one_mul] at hno
      omega
    rw [Nat.one_mul] at heq hn
    have hmem := install3D_single torus vSize hrows
    have hprod : [vSize, layers].prod = vSize * layers := by simp
    have hlayers : 0 < layers := Nat.pos_of_mul_pos_left (show 0 < vSize * layers by omega)
    have hnot := rowLink_notMem torus [vSize, layers] (by simp; omega)
      (by omega)
    rw [hprod, ← heq] at hnot
    exact hnot hmem
  · intro h
    by_cases hwide : 2 ≤ hSize
    · rw [install3D_eq hwide hv hxy hn]
    · obtain rfl : hSize = 1 := by omega
      rcases Nat.eq_zero_or_pos layers with rfl | hlayers
      · rw [Nat.mul_zero, install3D_zero, install_zero]
      · rw [Nat.one_mul] at h
        have hone : vSize * layers = 1 := by
          have := Nat.mul_pos hv hlayers
          omega
        obtain ⟨rfl, rfl⟩ := mul_eq_one.mp hone
        cases torus <;> decide

end GridWiring

/-- The hand-unrolled builders agree with the general ones where a row has two nodes or more, or
there is no second node. -/
theorem grid_links_iff {hSize vSize : ℕ} (hh : 1 ≤ hSize ∧ hSize ≤ 127)
    (hv : 1 ≤ vSize ∧ vSize ≤ 127) {rows layers : ℕ} (hr : hSize * rows < 2 ^ 32)
    (hl : hSize * vSize * layers < 2 ^ 32) :
    ((NocMesh2D.install hSize (hSize * rows)).links =
        (NocMeshND.install [hSize, rows] (hSize * rows)).links ↔
      2 ≤ hSize ∨ hSize * rows ≤ 1) ∧
    ((NocTorus2D.install hSize (hSize * vSize)).links =
        (NocTorusND.install [hSize, vSize] (hSize * vSize)).links ↔
      2 ≤ hSize ∨ hSize * vSize ≤ 1) ∧
    ((NocMesh3D.install hSize vSize (hSize * vSize * layers)).links =
        (NocMeshND.install [hSize, vSize, layers] (hSize * vSize * layers)).links ↔
      2 ≤ hSize ∨ hSize * vSize * layers ≤ 1) ∧
    ((NocTorus3D.install hSize vSize (hSize * vSize * layers)).links =
        (NocTorusND.install [hSize, vSize, layers] (hSize * vSize * layers)).links ↔
      2 ≤ hSize ∨ hSize * vSize * layers ≤ 1) := by
  have hxy : hSize * vSize < 2 ^ 32 := by
    have := Nat.mul_le_mul hh.2 hv.2
    omega
  refine ⟨?_, install2D_links_iff hh.1 (by omega) hxy, install3D_links_iff hh.1 hv.1 hxy hl,
    install3D_links_iff hh.1 hv.1 hxy hl⟩
  rw [install_mesh2D]
  exact install2D_links_iff hh.1 (by omega) hr

theorem grid_links_two_three :
    ((NocMesh2D.install 2 6).links = (NocMeshND.install [2, 3] 6).links ↔ 2 ≤ 2 ∨ 6 ≤ 1) ∧
    ((NocTorus2D.install 2 6).links = (NocTorusND.install [2, 3] 6).links ↔ 2 ≤ 2 ∨ 6 ≤ 1) ∧
    ((NocMesh3D.install 2 3 12).links = (NocMeshND.install [2, 3, 2] 12).links ↔
      2 ≤ 2 ∨ 12 ≤ 1) ∧
    ((NocTorus3D.install 2 3 12).links = (NocTorusND.install [2, 3, 2] 12).links ↔
      2 ≤ 2 ∨ 12 ≤ 1) :=
  @grid_links_iff 2 3 (by decide) (by decide) 3 2 (by decide) (by decide)

/-- A column of two nodes. -/
theorem grid_links_column :
    (NocMesh2D.install 1 2).links ≠ (NocMeshND.install [1, 2] 2).links ∧
      (NocTorus2D.install 1 2).links ≠ (NocTorusND.install [1, 2] 2).links ∧
      (NocMesh3D.install 1 2 2).links ≠ (NocMeshND.install [1, 2, 1] 2).links ∧
      (NocTorus3D.install 1 2 2).links ≠ (NocTorusND.install [1, 2, 1] 2).links := by
  decide

end Ns3Noc
