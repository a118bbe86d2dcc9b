import Ns3Noc.MeshTopologies2D

/-!
# Displacements in meshes of two and three dimensions

The sizes of a plane pass the attribute checkers; how many planes there are follows from the number of
nodes, which nothing checks. The bytes hold every displacement exactly where there are at most 128.
-/
namespace Ns3Noc

namespace NocMesh3D

/-- One byte of the encoder: the destination is a `uint8_t`, the source a `uint32_t`, and their
difference is cast to `int`. -/
def relativePosition (source : ℕ) (destination : UInt8) : UInt8 :=
  OffsetByte.encode (destination.toNat < source)
    (((destination.toNat : ℤ) - source).bmod 4294967296).natAbs

def getDestinationRelativeDimensionalPosition (hSize vSize sourceNodeId destinationNodeId : ℕ) :
    List UInt8 :=
  let sourceX := sourceNodeId % hSize
  let sourceY := sourceNodeId % (hSize * vSize) / hSize
  let sourceZ := sourceNodeId / hSize / vSize
  let destinationX := UInt8.ofNat (destinationNodeId % hSize)
  let destinationY := UInt8.ofNat (destinationNodeId % (hSize * vSize) / hSize)
  let destinationZ := UInt8.ofNat (destinationNodeId / hSize / vSize)
  [relativePosition sourceX destinationX, relativePosition sourceY destinationY,
    relativePosition sourceZ destinationZ]

theorem signed_relativePosition {a b : ℕ} (ha : a ≤ 127) (hb : b ≤ 127) :
    OffsetByte.signed (relativePosition a (UInt8.ofNat b)) = (b : ℤ) - a := by
  have hb' : (UInt8.ofNat b).toNat = b := by simp; omega
  have hsigned := OffsetByte.signed_encode (d := (b : ℤ) - a) (by omega)
  have hlt : b < a ↔ (b : ℤ) - a < 0 := by omega
  have hmod : ((b : ℤ) - a).bmod 4294967296 = (b : ℤ) - a := by
    apply Int.bmod_eq_of_le <;> omega
  rw [relativePosition, hb', hmod]
  simpa only [hlt] using hsigned

end NocMesh3D

/-- The meshes with their declared sizes -/
inductive MeshTopology where
  | mesh2D (hSize : ℕ)
  | irvineMesh2D (hSize : ℕ)
  | mesh3D (hSize vSize : ℕ)
  deriving DecidableEq, Repr

namespace MeshTopology

/-- The attribute checkers -/
def Declared : MeshTopology → Prop
  | mesh2D hSize => 1 ≤ hSize ∧ hSize ≤ 127
  | irvineMesh2D hSize => 1 ≤ hSize ∧ hSize ≤ 127
  | mesh3D hSize vSize => (1 ≤ hSize ∧ hSize ≤ 127) ∧ 1 ≤ vSize ∧ vSize ≤ 127

def planeSize : MeshTopology → ℕ
  | mesh2D hSize => hSize
  | irvineMesh2D hSize => hSize
  | mesh3D hSize vSize => hSize * vSize

/-- The position of a node, by dimension -/
def coordinates : MeshTopology → ℕ → List ℕ
  | mesh2D hSize, v => [v % hSize, v / hSize]
  | irvineMesh2D hSize, v => [v % hSize, v / hSize]
  | mesh3D hSize vSize, v => [v % hSize, v / hSize % vSize, v / hSize / vSize]

def getDestinationRelativeDimensionalPosition : MeshTopology → ℕ → ℕ → List UInt8
  | mesh2D hSize => NocMesh2D.getDestinationRelativeDimensionalPosition hSize
  | irvineMesh2D hSize => NocIrvineMesh2D.getDestinationRelativeDimensionalPosition hSize
  | mesh3D hSize vSize => NocMesh3D.getDestinationRelativeDimensionalPosition hSize vSize

/-- The decoded bytes are the differences of the positions, in all dimensions. -/
def Exact (m : MeshTopology) (source destination : ℕ) : Prop :=
  (m.getDestinationRelativeDimensionalPosition source destination).map OffsetByte.signed =
    List.zipWith (fun (d s : ℕ) => (d : ℤ) - s) (m.coordinates destination) (m.coordinates source)

theorem exact_of_le {m : MeshTopology} (hm : m.Declared) {planes : ℕ} (hp : planes ≤ 128)
    {source destination : ℕ} (hs : source < m.planeSize * planes)
    (hd : destination < m.planeSize * planes) : m.Exact source destination := by
  have hrow : ∀ {hSize v : ℕ}, 1 ≤ hSize → v < hSize * planes → v / hSize ≤ 127 := by
    intro hSize v hh hv
    have := Nat.div_lt_of_lt_mul hv
    omega
  have hcolumn : ∀ {hSize : ℕ} (v : ℕ), 1 ≤ hSize → hSize ≤ 127 → v % hSize ≤ 127 := by
    intro hSize v hh hle
    have := Nat.mod_lt v hh
    omega
  cases m with
  | mesh2D hSize =>
    obtain ⟨hh, hle⟩ := hm
    have hx := signed_relativePosition (hcolumn source hh hle) (hcolumn destination hh hle)
    have hy := signed_relativePosition (hrow hh hs) (hrow hh hd)
    exact congrArg₂ (fun x y => [x, y]) hx hy
  | irvineMesh2D hSize =>
    obtain ⟨hh, hle⟩ := hm
    have hx := signed_relativePosition (hcolumn source hh hle) (hcolumn destination hh hle)
    have hy := signed_relativePosition (hrow hh hs) (hrow hh hd)
    exact congrArg₂ (fun x y => [x, y]) hx hy
  | mesh3D hSize vSize =>
    obtain ⟨⟨hh, hle⟩, hv, hle'⟩ := hm
    have hplane : ∀ {v : ℕ}, v < hSize * vSize * planes → v / hSize / vSize ≤ 127 := by
      intro v hlt
      rw [Nat.div_div_eq_div_mul]
      exact hrow (Nat.mul_pos hh hv) hlt
    have hx := NocMesh3D.signed_relativePosition (hcolumn source hh hle) (hcolumn destination hh hle)
    have hy := NocMesh3D.signed_relativePosition (hcolumn (source / hSize) hv hle')
      (hcolumn (destination / hSize) hv hle')
    have hz := NocMesh3D.signed_relativePosition (hplane hs) (hplane hd)
    rw [Exact, getDestinationRelativeDimensionalPosition,
      NocMesh3D.getDestinationRelativeDimensionalPosition]
    simp only [Nat.mod_mul_right_div_self, List.map_cons, List.map_nil, hx, hy, hz, coordinates,
      List.zipWith_cons_cons, List.zipWith_nil_left]

/-- The first node of the plane 128 is not told from its own plane. -/
theorem not_exact_plane {m : MeshTopology} (hm : m.Declared) : ¬ m.Exact 0 (m.planeSize * 128) := by
  intro h
  cases m with
  | mesh2D hSize =>
    have hplane : hSize * 128 / hSize = 128 := Nat.mul_div_cancel_left 128 hm.1
    have hlast := congrArg (fun l => l.getD 1 0) h
    simp [getDestinationRelativeDimensionalPosition, planeSize, coordinates, relativePositions,
      NocMesh2D.getDestinationRelativeDimensionalPosition, hplane] at hlast
    exact absurd hlast (by decide)
  | irvineMesh2D hSize =>
    have hplane : hSize * 128 / hSize = 128 := Nat.mul_div_cancel_left 128 hm.1
    have hlast := congrArg (fun l => l.getD 1 0) h
    simp [getDestinationRelativeDimensionalPosition, planeSize, coordinates, relativePositions,
      NocIrvineMesh2D.getDestinationRelativeDimensionalPosition, hplane] at hlast
    exact absurd hlast (by decide)
  | mesh3D hSize vSize =>
    have hplane : hSize * vSize * 128 / hSize / vSize = 128 := by
      rw [Nat.div_div_eq_div_mul]
      exact Nat.mul_div_cancel_left 128 (Nat.mul_pos hm.1.1 hm.2.1)
    have hlast := congrArg (fun l => l.getD 2 0) h
    simp [getDestinationRelativeDimensionalPosition, planeSize, coordinates,
      NocMesh3D.getDestinationRelativeDimensionalPosition, hplane] at hlast
    exact absurd hlast (by decide)

theorem exact_iff (m : MeshTopology) (hm : m.Declared) (planes : ℕ) :
    (∀ source < m.planeSize * planes, ∀ destination < m.planeSize * planes,
      m.Exact source destination) ↔ planes ≤ 128 := by
  have hpos : 0 < m.planeSize := by
    cases m with
    | mesh2D hSize => exact hm.1
    | irvineMesh2D hSize => exact hm.1
    | mesh3D hSize vSize => exact Nat.mul_pos hm.1.1 hm.2.1
  constructor
  · intro h
    by_contra hgt
    have hlt : m.planeSize * 128 < m.planeSize * planes := Nat.mul_lt_mul_of_pos_left (by omega) hpos
    exact not_exact_plane hm (h 0 (by omega) (m.planeSize * 128) hlt)
  · intro hp source hs destination hd
    exact exact_of_le hm hp hs hd

/-- Opposite corners of the default mesh with 64 nodes. -/
theorem exact_default_mesh : (mesh2D 4).Exact 63 0 :=
  (exact_iff (mesh2D 4) ⟨by decide, by decide⟩ 16).mpr (by decide) 63 (by decide) 0 (by decide)

/-- A mesh with four columns and 129 rows. -/
theorem not_exact_129_rows : (mesh2D 4).Declared ∧
    ¬ ∀ source < 4 * 129, ∀ destination < 4 * 129, (mesh2D 4).Exact source destination := by
  refine ⟨⟨by decide, by decide⟩, fun h => ?_⟩
  have hfail : ¬ (mesh2D 4).Exact 0 512 := by
    rw [Exact]
    decide
  exact hfail (h 0 (by decide) 512 (by decide))

end MeshTopology
end Ns3Noc
