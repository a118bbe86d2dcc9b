import Ns3Noc.MeshWiring2D

/-!
# NocMesh2D and NocIrvineMesh2D

The nodes of a mesh with rows of `hSize` nodes are numbered row by row. Both classes have
the same displacement encoder, which calculates with `uint8_t` positions.
-/
namespace Ns3Noc

/-- One byte of the encoder. -/
def relativePosition (source destination : UInt8) : UInt8 :=
  OffsetByte.encode (destination < source) ((destination.toNat : ℤ) - source.toNat).natAbs

/-- `GetDestinationRelativeDimensionalPosition`, with the truncation to `uint8_t`. -/
def relativePositions (hSize sourceNodeId destinationNodeId : ℕ) : List UInt8 :=
  let sourceX := UInt8.ofNat (sourceNodeId % hSize)
  let sourceY := UInt8.ofNat (sourceNodeId / hSize)
  let destinationX := UInt8.ofNat (destinationNodeId % hSize)
  let destinationY := UInt8.ofNat (destinationNodeId / hSize)
  [relativePosition sourceX destinationX, relativePosition sourceY destinationY]

namespace NocMesh2D

/-- The inner loop runs over `j < hSize`, so the node `i + j` is `i + j % hSize`. -/
def install (hSize nodes : ℕ) : Wiring := MeshWiring2D.install hSize hSize nodes .back .forward

def getDestinationRelativeDimensionalPosition : ℕ → ℕ → ℕ → List UInt8 := relativePositions

end NocMesh2D

namespace NocIrvineMesh2D

/-- Two channels for each vertical link; the node nearer to row 0 gets the device called
SOUTH (`back`) and the other one the device called NORTH (`forward`). -/
def install (hSize nodes : ℕ) : Wiring :=
  MeshWiring2D.install hSize (2 * hSize) nodes .forward .back

def getDestinationRelativeDimensionalPosition : ℕ → ℕ → ℕ → List UInt8 := relativePositions

end NocIrvineMesh2D

section Positions
variable {hSize : ℕ}

theorem mod_div_succ (hh : 0 < hSize) {v : ℕ} (h : v % hSize + 1 < hSize) :
    (v + 1) % hSize = v % hSize + 1 ∧ (v + 1) / hSize = v / hSize := by
  have hv : v + 1 = v % hSize + 1 + v / hSize * hSize := by
    have := Nat.mod_add_div' v hSize
    omega
  constructor
  · rw [hv, Nat.add_mul_mod_self_right, Nat.mod_eq_of_lt h]
  · rw [hv, Nat.add_mul_div_right _ _ hh, Nat.div_eq_of_lt h, Nat.zero_add]

/-- Within a row the successor of a node is its neighbour. -/
theorem succ_mod_div (hh : 0 < hSize) {v : ℕ} (h : 0 < (v + 1) % hSize) :
    (v + 1) % hSize = v % hSize + 1 ∧ (v + 1) / hSize = v / hSize := by
  apply mod_div_succ hh
  have hlt := Nat.mod_lt v hh
  by_contra hge
  have hend : v + 1 = (v / hSize + 1) * hSize := by
    have := Nat.mod_add_div' v hSize
    rw [Nat.succ_mul]
    omega
  rw [hend, Nat.mul_mod_left] at h
  omega

/-- One step towards the column of `destination` along the row. -/
theorem column_step (hh : 0 < hSize) {destination v u : ℕ} {x : ℤ}
    (hx : x = ((destination % hSize : ℕ) : ℤ) - (v % hSize : ℕ))
    (hmove : (0 < x ∧ u = v + 1) ∨ (x < 0 ∧ v = u + 1)) :
    x - x.sign = ((destination % hSize : ℕ) : ℤ) - (u % hSize : ℕ) ∧ u / hSize = v / hSize := by
  have hd := Nat.mod_lt destination hh
  have hv := Nat.mod_lt v hh
  rcases hmove with ⟨hpos, rfl⟩ | ⟨hneg, rfl⟩
  · rw [Int.sign_eq_one_of_pos hpos]
    obtain ⟨hmod, hdiv⟩ := mod_div_succ hh (v := v) (by omega)
    exact ⟨by omega, hdiv⟩
  · rw [Int.sign_eq_neg_one_of_neg hneg]
    obtain ⟨hmod, hdiv⟩ := succ_mod_div hh (v := u) (by omega)
    exact ⟨by omega, hdiv.symm⟩

theorem hasEast_of_lt (hh : 0 < hSize) {v : ℕ} (h : v % hSize + 1 < hSize) :
    MeshWiring2D.hasEast hSize v := by
  right
  rw [(mod_div_succ hh h).1]
  omega

theorem hasWest_of_pos {v : ℕ} (h : 0 < v % hSize) : MeshWiring2D.hasWest hSize v := by
  have hv : 0 < v := by
    apply Nat.pos_of_ne_zero
    rintro rfl
    simp at h
  refine ⟨hv, .inr ?_⟩
  rw [Nat.sub_add_cancel hv]
  omega

end Positions

/-- Positions below 128 are encoded truthfully. -/
theorem signed_relativePosition {a b : ℕ} (ha : a ≤ 127) (hb : b ≤ 127) :
    OffsetByte.signed (relativePosition (UInt8.ofNat a) (UInt8.ofNat b)) = (b : ℤ) - a := by
  have ha' : (UInt8.ofNat a).toNat = a := by simp; omega
  have hb' : (UInt8.ofNat b).toNat = b := by simp; omega
  have hsigned := OffsetByte.signed_encode (d := (b : ℤ) - a) (by omega)
  have hlt : (UInt8.ofNat b < UInt8.ofNat a) ↔ (b : ℤ) - a < 0 := by
    rw [UInt8.lt_iff_toNat_lt, ha', hb']
    omega
  rw [relativePosition, ha', hb']
  simpa only [hlt] using hsigned

/-- The header that the encoder builds holds the displacement in columns and rows. -/
theorem signedOffset_relativePositions {hSize rows : ℕ} (hh : 0 < hSize) (hh' : hSize ≤ 128)
    (hr : rows ≤ 128) {source destination : ℕ} (hs : source < rows * hSize)
    (hd : destination < rows * hSize) (position : List UInt8) :
    NocHeader.signedOffset ⟨relativePositions hSize source destination, position⟩ 0 =
        ((destination % hSize : ℕ) : ℤ) - (source % hSize : ℕ) ∧
      NocHeader.signedOffset ⟨relativePositions hSize source destination, position⟩ 1 =
        ((destination / hSize : ℕ) : ℤ) - (source / hSize : ℕ) := by
  have hsx := Nat.mod_lt source hh
  have hdx := Nat.mod_lt destination hh
  have hsy := (Nat.div_lt_iff_lt_mul hh).mpr hs
  have hdy := (Nat.div_lt_iff_lt_mul hh).mpr hd
  constructor
  · exact signed_relativePosition (by omega) (by omega)
  · exact signed_relativePosition (by omega) (by omega)

end Ns3Noc
