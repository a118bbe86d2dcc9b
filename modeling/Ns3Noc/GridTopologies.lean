import Mathlib.Data.List.Infix
import Ns3Noc.MeshTopologies2D
import Ns3Noc.NdTopologies

/-!
# NocMesh3D, NocTorus2D and NocTorus3D

The hand-unrolled builders repeat one loop body with the tests of their dimension written out.
-/
namespace Ns3Noc
open MixedRadixIndices DimensionWiring BlockedLoops

namespace GridWiring

/-- The loop body at one node; the torus has the last two blocks as well. -/
def wireBlock (torus : Bool) (k node j : ℕ) (hasNext isFirst isLast : Bool) (s : LineState) :
    LineState :=
  let w := match s.channels j with
    | some channel => s.wiring.addDevice ⟨node, channel, .back, k⟩
    | none => s.wiring
  let s := if hasNext then
      { s with
        wiring := w.createChannel.addDevice ⟨node, w.channels, .forward, k⟩
        channels := Function.update s.channels j (some w.channels) }
    else { s with wiring := w, channels := Function.update s.channels j none }
  if torus then
    let s := if isFirst then
        { s with
          wiring := s.wiring.createChannel.addDevice ⟨node, s.wiring.channels, .back, k⟩
          channelsTorus := Function.update s.channelsTorus j (some s.wiring.channels) }
      else s
    if isLast then
      match s.channelsTorus j with
      | some channel => { s with wiring := s.wiring.addDevice ⟨node, channel, .forward, k⟩ }
      | none => s
    else s
  else s

/-- The loop for the horizontal channels; the two variables that carry a channel are entry 0. -/
def horizontal (torus : Bool) (hSize nodes : ℕ) (w : Wiring) : Wiring :=
  ((List.range nodes).foldl (fun s i =>
    wireBlock torus 0 i 0 (i = 0 ∨ (0 < i ∧ (i + 1) % hSize ≠ 0))
      (i = 0 ∨ (0 < i ∧ i % hSize = 0)) ((i + 1) % hSize = 0) s)
    ⟨w, fun _ => none, fun _ => none⟩).wiring

/-- The nested loops of a later dimension, whose tests look at the outer counter only. -/
def blocks (torus : Bool) (k step nodes : ℕ) (hasNext isFirst isLast : ℕ → Bool) (w : Wiring) :
    Wiring :=
  ((strided nodes step).foldl (fun s i => (List.range step).foldl (fun s j =>
    wireBlock torus k (i + j) j (hasNext i) (isFirst i) (isLast i) s) s)
    ⟨w, fun _ => none, fun _ => none⟩).wiring

/-- The vertical loops in two dimensions and the loops over the layers in three. -/
def outerBlocks (torus : Bool) (k step nodes : ℕ) : Wiring → Wiring :=
  blocks torus k step nodes (fun i => i < nodes - step) (fun i => i < step)
    (fun i => i ≥ nodes - step)

/-- The vertical loops in three dimensions. -/
def layerBlocks (torus : Bool) (hSize numberOfNodesXY nodes : ℕ) : Wiring → Wiring :=
  blocks torus 1 hSize nodes (fun i => i % numberOfNodesXY < numberOfNodesXY - hSize)
    (fun i => i % numberOfNodesXY < hSize)
    (fun i => i % numberOfNodesXY ≥ numberOfNodesXY - hSize)

def install2D (torus : Bool) (hSize nodes : ℕ) : Wiring :=
  outerBlocks torus 1 hSize nodes (horizontal torus hSize nodes Wiring.empty)

def install3D (torus : Bool) (hSize vSize nodes : ℕ) : Wiring :=
  let numberOfNodesXY := hSize * vSize % 2 ^ 32
  outerBlocks torus 2 numberOfNodesXY nodes (layerBlocks torus hSize numberOfNodesXY nodes
    (horizontal torus hSize nodes Wiring.empty))

end GridWiring

namespace NocMesh3D

def install (hSize vSize nodes : ℕ) : Wiring := GridWiring.install3D false hSize vSize nodes

end NocMesh3D

namespace NocTorus2D

def install (hSize nodes : ℕ) : Wiring := GridWiring.install2D true hSize nodes

end NocTorus2D

namespace NocTorus3D

def install (hSize vSize nodes : ℕ) : Wiring := GridWiring.install3D true hSize vSize nodes

end NocTorus3D

namespace GridWiring

/-- The loops of `NocMesh2D` carry the same state in variables of their own. -/
theorem horizontal_mesh (hSize nodes : ℕ) (w : Wiring) : horizontal false hSize nodes w =
    ((List.range nodes).foldl (MeshWiring2D.wireHorizontal hSize) ⟨w, none⟩).wiring := by
  let f (s : LineState) : MeshWiring2D.RowState := ⟨s.wiring, s.channels 0⟩
  have hstep (s : LineState) (i : ℕ) : MeshWiring2D.wireHorizontal hSize (f s) i =
      f (wireBlock false 0 i 0 (i = 0 ∨ (0 < i ∧ (i + 1) % hSize ≠ 0))
        (i = 0 ∨ (0 < i ∧ i % hSize = 0)) ((i + 1) % hSize = 0) s) := by
    cases hc : s.channels 0 <;> by_cases hi : i = 0 ∨ (0 < i ∧ (i + 1) % hSize ≠ 0) <;>
      simp [MeshWiring2D.wireHorizontal, wireBlock, f, hc, hi]
  exact congrArg MeshWiring2D.RowState.wiring (List.foldl_hom f hstep (l := List.range nodes)
   ).symm

theorem outerBlocks_mesh {hSize nodes : ℕ} (w : Wiring) : outerBlocks false 1 hSize nodes w =
    ((strided nodes hSize).foldl (fun s i => (List.range hSize).foldl
      (fun s j => MeshWiring2D.wireVertical hSize nodes .back .forward s i j) s)
      ⟨w, fun _ => none⟩).wiring := by
  let f (s : LineState) : MeshWiring2D.ColumnState := ⟨s.wiring, s.channels⟩
  have hstep (i : ℕ) (s : LineState) {j : ℕ} (hj : j < hSize) :
      MeshWiring2D.wireVertical hSize nodes .back .forward (f s) i j =
        f (wireBlock false 1 (i + j) j (i < nodes - hSize) (i < hSize) (i ≥ nodes - hSize) s) := by
    cases hc : s.channels j <;> by_cases hi : i < nodes - hSize <;>
      simp [MeshWiring2D.wireVertical, wireBlock, f, hc, hi, Nat.mod_eq_of_lt hj]
  refine congrArg MeshWiring2D.ColumnState.wiring (foldl_hom_mem f (l := strided nodes hSize) ?_
    ⟨w, fun _ => none, fun _ => none⟩).symm
  intro s i _
  exact foldl_hom_mem f (fun s j hj => hstep i s (List.mem_range.mp hj)) s

theorem install_mesh2D (hSize nodes : ℕ) :
    NocMesh2D.install hSize nodes = install2D false hSize nodes := by
  rw [NocMesh2D.install, MeshWiring2D.install, ← horizontal_mesh, install2D, outerBlocks_mesh]

/-- The general builders run the same loop body with tests on the flat index. -/
theorem wireNode_eq (torus : Bool) (size : List ℕ) (k i j : ℕ) (s : LineState) :
    wireNode torus size k s i j = wireBlock torus k (i + j) j
      ((i + j) % getNumberOfNodes size (k + 1) <
        getNumberOfNodes size (k + 1) - getNumberOfNodes size k)
      ((i + j) % getNumberOfNodes size (k + 1) < getNumberOfNodes size k)
      ((i + j) % getNumberOfNodes size (k + 1) ≥
        getNumberOfNodes size (k + 1) - getNumberOfNodes size k) s := by
  cases hc : s.channels j with
  | none => simp only [wireNode, wireRing, wireLine, wireBlock, hc, decide_eq_true_eq] <;> rfl
  | some channel =>
    simp only [wireNode, wireRing, wireLine, wireBlock, hc, decide_eq_true_eq] <;> rfl

/-- Within a block the tests on the flat index do not depend on the inner counter. -/
theorem block_tests {b q i j : ℕ} (hq : 0 < q) (hi : b ∣ i) (hj : j < b) :
    ((i + j) % (b * q) < b * q - b ↔ i % (b * q) < b * q - b) ∧
    ((i + j) % (b * q) < b ↔ i % (b * q) < b) ∧
    ((i + j) % (b * q) ≥ b * q - b ↔ i % (b * q) ≥ b * q - b) := by
  obtain ⟨t, rfl⟩ := hi
  have ht : t % q < q := Nat.mod_lt t hq
  have hmod : b * t % (b * q) = b * (t % q) := Nat.mul_mod_mul_left b t q
  have hlast : b * (t % q) + b ≤ b * q := by
    rw [← Nat.mul_succ]
    exact Nat.mul_le_mul_left b ht
  have hadd : (b * t + j) % (b * q) = b * (t % q) + j := by
    rw [Nat.add_mod, hmod, Nat.mod_eq_of_lt (show j < b * q by omega), Nat.mod_eq_of_lt (by omega)]
  have hsub : b * q - b = b * (q - 1) := by rw [Nat.mul_sub, Nat.mul_one]
  have hcmp : ∀ m, b * (t % q) + j < b * m ↔ b * (t % q) < b * m := by
    intro m
    constructor
    · intro h
      omega
    · intro h
      have hle : t % q + 1 ≤ m := Nat.lt_of_mul_lt_mul_left h
      have := Nat.mul_le_mul_left b hle
      rw [Nat.mul_succ] at this
      omega
  rw [hadd, hmod, hsub]
  have hone := hcmp 1
  rw [Nat.mul_one] at hone
  exact ⟨hcmp _, hone, by rw [ge_iff_le, ge_iff_le, ← not_lt, ← not_lt, hcmp]⟩

variable {torus : Bool} {size : List ℕ} {k nodes : ℕ}

/-- Loops with the tests of dimension `k` are the loops of the general builder. -/
theorem blocks_eq {step q : ℕ} (hstep : getNumberOfNodes size k = step)
    (hnext : getNumberOfNodes size (k + 1) = step * q) (hq : 0 < q)
    {hasNext isFirst isLast : ℕ → Bool}
    (h : ∀ i ∈ strided nodes step, hasNext i = decide (i % (step * q) < step * q - step) ∧
      isFirst i = decide (i % (step * q) < step) ∧
      isLast i = decide (i % (step * q) ≥ step * q - step)) (w : Wiring) :
    blocks torus k step nodes hasNext isFirst isLast w =
      installDimension torus size nodes k w := by
  rw [installDimension, hstep, blocks]
  refine congrArg LineState.wiring (List.foldl_ext _ _ _ ?_)
  intro s i hi
  refine List.foldl_ext _ _ _ ?_
  intro s j hj
  obtain ⟨t, -, rfl⟩ := List.mem_map.mp hi
  obtain ⟨h₁, h₂, h₃⟩ := h _ hi
  obtain ⟨h₁', h₂', h₃'⟩ := block_tests hq (Dvd.intro_left t rfl) (List.mem_range.mp hj)
  rw [wireNode_eq, hstep, hnext, h₁, h₂, h₃]
  simp only [h₁', h₂', h₃']

/-- The last dimension, whose lines span all nodes. -/
theorem outerBlocks_eq {step q : ℕ} (hstep : getNumberOfNodes size k = step)
    (hnext : getNumberOfNodes size (k + 1) = step * q) (hs : 0 < step) (w : Wiring) :
    outerBlocks torus k step (step * q) w = installDimension torus size (step * q) k w := by
  rcases Nat.eq_zero_or_pos q with rfl | hq
  · have hempty : strided (step * 0) step = [] := by
      rw [Nat.mul_zero, strided, Nat.zero_add, Nat.div_eq_of_lt (by omega)]
      rfl
    rw [outerBlocks, blocks, installDimension, hstep, hempty]
    rfl
  · apply blocks_eq hstep hnext hq
    intro i hi
    rw [Nat.mul_comm, strided_mul q hs] at hi
    obtain ⟨t, ht, rfl⟩ := List.mem_map.mp hi
    have hlt : t * step < step * q := by
      rw [Nat.mul_comm step]
      exact Nat.mul_lt_mul_of_pos_right (List.mem_range.mp ht) hs
    rw [Nat.mod_eq_of_lt hlt]
    exact ⟨rfl, rfl, rfl⟩

theorem layerBlocks_eq {hSize vSize : ℕ} (hstep : getNumberOfNodes size 1 = hSize)
    (hnext : getNumberOfNodes size 2 = hSize * vSize) (hv : 0 < vSize)
    (w : Wiring) : layerBlocks torus hSize (hSize * vSize) nodes w =
      installDimension torus size nodes 1 w :=
  blocks_eq hstep hnext hv (fun _ _ => ⟨rfl, rfl, rfl⟩) w

/-- With at least two columns the tests of the horizontal loop are those of dimension 0. -/
theorem horizontal_eq {hSize : ℕ} (hone : getNumberOfNodes size 0 = 1)
    (hnext : getNumberOfNodes size 1 = hSize) (hh : 2 ≤ hSize) (w : Wiring) :
    horizontal torus hSize nodes w = installDimension torus size nodes 0 w := by
  have hloop : installDimension torus size nodes 0 w = ((List.range nodes).foldl
      (fun s i => wireNode torus size 0 s i 0) ⟨w, fun _ => none, fun _ => none⟩).wiring := by
    rw [installDimension, hone, strided, Nat.add_sub_cancel, Nat.div_one, List.foldl_map]
    simp
  rw [hloop, horizontal]
  refine congrArg LineState.wiring (List.foldl_ext _ _ _ ?_)
  intro s i _
  have hlt := Nat.mod_lt i (show 0 < hSize by omega)
  have hsucc : (i + 1) % hSize = if i % hSize = hSize - 1 then 0 else i % hSize + 1 := by
    rw [Nat.add_mod, Nat.mod_eq_of_lt (show 1 < hSize by omega)]
    split
    · rename_i h
      rw [h, Nat.sub_add_cancel (by omega), Nat.mod_self]
    · rw [Nat.mod_eq_of_lt (by omega)]
  have hzero : i = 0 → i % hSize = 0 := by
    rintro rfl
    exact Nat.zero_mod hSize
  have h₁ : (i = 0 ∨ (0 < i ∧ (i + 1) % hSize ≠ 0)) ↔ i % hSize < hSize - 1 := by
    rw [hsucc]
    split <;> omega
  have h₂ : (i = 0 ∨ (0 < i ∧ i % hSize = 0)) ↔ i % hSize < 1 := by omega
  have h₃ : (i + 1) % hSize = 0 ↔ i % hSize ≥ hSize - 1 := by
    rw [hsucc]
    split <;> omega
  rw [wireNode_eq, hone, hnext]
  simp only [h₁, h₂, h₃, Nat.add_zero]

end GridWiring

end Ns3Noc
