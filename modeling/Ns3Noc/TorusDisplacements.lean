import Ns3Noc.NdTopologies

/-!
# Displacements in tori

The three classes take the shorter way around each ring, and the forward one where both are equally
short. In two dimensions the rows are counted in two ways, by `vSize` and by the number of nodes.
-/
namespace Ns3Noc
open MixedRadixIndices

/-- The offset on a ring, in `uint32_t` arithmetic but for the tests of its sign. Positions are taken
modulo `ring`, and the way around is `extent` long. -/
def wrappedOffset (ring extent source destination : ℕ) : ℤ :=
  let offset : ℤ := if (destination : ℤ) - source ≥ 0 then ((destination - source) % ring : ℕ)
    else ((ring + destination + 2 ^ 32 - source) % 2 ^ 32 % ring : ℕ)
  if offset > (extent / 2 : ℕ) then offset - extent else offset

def wrappedByte (ring extent source destination : ℕ) : UInt8 :=
  let offset := wrappedOffset ring extent source destination
  OffsetByte.encode (offset < 0) offset.natAbs

/-- `(uint8_t)` -/
def truncated (n : ℕ) : ℕ := (UInt8.ofNat n).toNat

namespace NocTorus2D

def getDestinationRelativeDimensionalPosition
    (hSize vSize nodes sourceNodeId destinationNodeId : ℕ) : List UInt8 :=
  let sourceX := truncated (sourceNodeId % hSize)
  let sourceY := truncated (sourceNodeId / hSize)
  let destinationX := truncated (destinationNodeId % hSize)
  let destinationY := truncated (destinationNodeId / hSize)
  [wrappedByte hSize hSize sourceX destinationX,
    wrappedByte vSize (nodes / hSize) sourceY destinationY]

end NocTorus2D

namespace NocTorus3D

def getDestinationRelativeDimensionalPosition
    (hSize vSize nodes sourceNodeId destinationNodeId : ℕ) : List UInt8 :=
  let sourceX := sourceNodeId % hSize
  let sourceY := sourceNodeId % (hSize * vSize) / hSize
  let sourceZ := sourceNodeId / hSize / vSize
  let destinationX := truncated (destinationNodeId % hSize)
  let destinationY := truncated (destinationNodeId % (hSize * vSize) / hSize)
  let destinationZ := truncated (destinationNodeId / hSize / vSize)
  [wrappedByte hSize hSize sourceX destinationX, wrappedByte vSize vSize sourceY destinationY,
    wrappedByte (nodes / hSize / vSize) (nodes / hSize / vSize) sourceZ destinationZ]

end NocTorus3D

theorem truncated_eq {n : ℕ} (h : n < 127) : truncated n = n := by
  simp only [truncated, UInt8.toNat_ofNat']
  omega

open NocTorusND (ringDisplacement ringDisplacement_spec ringDisplacement_unique ringOffset_eq)

theorem wrappedOffset_eq {s a b : ℕ} (hs : s ≤ 127) (ha : a < s) (hb : b < s) :
    wrappedOffset s s a b = ringDisplacement s a b := by
  have hwrap : (s + b + 2 ^ 32 - a) % 2 ^ 32 = s + b - a := by omega
  rw [← ringOffset_eq ha hb, wrappedOffset, hwrap]
  rfl

theorem signed_wrappedByte {s a b : ℕ} (hs : s ≤ 127) (ha : a < s) (hb : b < s) :
    OffsetByte.signed (wrappedByte s s a b) = ringDisplacement s a b := by
  obtain ⟨-, hlo, hhi⟩ := ringDisplacement_spec (Nat.zero_lt_of_lt ha) a b
  rw [wrappedByte, wrappedOffset_eq hs ha hb]
  exact OffsetByte.signed_encode (by omega)

/-- `o` leads from `a` to `b` on a ring of `s` positions, and nothing shorter does. -/
structure ShortestOffset (s a b : ℕ) (o : ℤ) : Prop where
  arrives : a + o ≡ b [ZMOD s]
  half : o.natAbs ≤ s / 2
  forward : 2 * o.natAbs = s → 0 ≤ o
  minimal : ∀ w : ℤ, a + w ≡ b [ZMOD s] → o.natAbs ≤ w.natAbs

theorem shortestOffset_ringDisplacement {s : ℕ} (hs : 0 < s) (a b : ℕ) :
    ShortestOffset s a b (ringDisplacement s a b) := by
  obtain ⟨hmod, hlo, hhi⟩ := ringDisplacement_spec hs a b
  refine ⟨?_, by omega, by omega, fun w hw => ?_⟩
  · have h := hmod.add_left (a : ℤ)
    rwa [add_sub_cancel] at h
  -- a walk that is shorter would be the displacement itself
  · by_contra hlt
    have hmod' : w ≡ (b : ℤ) - a [ZMOD s] := by
      have h := hw.sub_right (a : ℤ)
      rwa [add_sub_cancel_left] at h
    have heq := ringDisplacement_unique hs hmod' (by omega) (by omega)
    rw [heq] at hlt
    exact hlt le_rfl

inductive TorusTopology where
  | torus2D (hSize vSize : ℕ)
  | torus3D (hSize vSize zSize : ℕ)
  | torusND (size : List ℕ)
  deriving DecidableEq, Repr

namespace TorusTopology

def extents : TorusTopology → List ℕ
  | torus2D hSize vSize => [hSize, vSize]
  | torus3D hSize vSize zSize => [hSize, vSize, zSize]
  | torusND size => size

def nodes (t : TorusTopology) : ℕ := t.extents.prod

def getDestinationRelativeDimensionalPosition (t : TorusTopology) : ℕ → ℕ → List UInt8 :=
  match t with
  | torus2D hSize vSize =>
    NocTorus2D.getDestinationRelativeDimensionalPosition hSize vSize t.nodes
  | torus3D hSize vSize _ =>
    NocTorus3D.getDestinationRelativeDimensionalPosition hSize vSize t.nodes
  | torusND size => NocTorusND.getDestinationRelativeDimensionalPosition size

theorem signed_position (t : TorusTopology) (hs : ∀ s ∈ t.extents, 1 ≤ s ∧ s ≤ 127)
    (hn : t.nodes < 2 ^ 32) {source destination : ℕ} (hsource : source < t.nodes)
    (hdestination : destination < t.nodes) {k : ℕ} (hk : k < t.extents.length) :
    OffsetByte.signed
        ((t.getDestinationRelativeDimensionalPosition source destination).getD k 0) =
      ringDisplacement (extent t.extents k) (coordinate t.extents k source)
        (coordinate t.extents k destination) := by
  cases t with
  | torus2D hSize vSize =>
    obtain ⟨hh, hle⟩ := hs hSize (by simp [extents])
    obtain ⟨hv, hle'⟩ := hs vSize (by simp [extents])
    have hnodes : (torus2D hSize vSize).nodes = hSize * vSize := by simp [nodes, extents]
    have hrows : hSize * vSize / hSize = vSize := Nat.mul_div_cancel_left vSize hh
    rw [hnodes] at hsource hdestination
    have hrow : ∀ {v : ℕ}, v < hSize * vSize → v / hSize < vSize := Nat.div_lt_of_lt_mul
    have hcolumn : ∀ v : ℕ, v % hSize < hSize := fun v => Nat.mod_lt v hh
    have htrunc : ∀ {n s : ℕ}, n < s → s ≤ 127 → truncated n = n :=
      fun hlt hle => truncated_eq (lt_of_lt_of_le hlt hle)
    rw [getDestinationRelativeDimensionalPosition, hnodes,
      NocTorus2D.getDestinationRelativeDimensionalPosition]
    simp only [hrows, htrunc (hcolumn source) hle, htrunc (hcolumn destination) hle,
      htrunc (hrow hsource) hle', htrunc (hrow hdestination) hle']
    obtain rfl | rfl : k = 0 ∨ k = 1 := by
      simp only [extents, List.length_cons, List.length_nil] at hk
      omega
    · have hx := signed_wrappedByte hle (hcolumn source) (hcolumn destination)
      simpa [extents, extent, coordinate, stride] using hx
    · have hy := signed_wrappedByte hle' (hrow hsource) (hrow hdestination)
      simpa [extents, extent, coordinate, stride, Nat.mod_eq_of_lt (hrow hsource),
        Nat.mod_eq_of_lt (hrow hdestination)] using hy
  | torus3D hSize vSize zSize =>
    obtain ⟨hh, hle⟩ := hs hSize (by simp [extents])
    obtain ⟨hv, hle'⟩ := hs vSize (by simp [extents])
    obtain ⟨hz, hle''⟩ := hs zSize (by simp [extents])
    have hnodes : (torus3D hSize vSize zSize).nodes = hSize * vSize * zSize := by
      simp [nodes, extents, Nat.mul_assoc]
    have hplanes : hSize * vSize * zSize / hSize / vSize = zSize := by
      rw [Nat.div_div_eq_div_mul]
      exact Nat.mul_div_cancel_left zSize (Nat.mul_pos hh hv)
    rw [hnodes] at hsource hdestination
    have hplane : ∀ {v : ℕ}, v < hSize * vSize * zSize → v / hSize / vSize < zSize := by
      intro v hlt
      rw [Nat.div_div_eq_div_mul]
      exact Nat.div_lt_of_lt_mul hlt
    have hmod : ∀ (v s : ℕ), 1 ≤ s → v % s < s := fun v s hs => Nat.mod_lt v hs
    have htrunc : ∀ {n s : ℕ}, n < s → s ≤ 127 → truncated n = n :=
      fun hlt hle => truncated_eq (lt_of_lt_of_le hlt hle)
    rw [getDestinationRelativeDimensionalPosition, hnodes,
      NocTorus3D.getDestinationRelativeDimensionalPosition]
    simp only [hplanes, Nat.mod_mul_right_div_self, htrunc (hmod destination hSize hh) hle,
      htrunc (hmod (destination / hSize) vSize hv) hle', htrunc (hplane hdestination) hle'']
    obtain rfl | rfl | rfl : k = 0 ∨ k = 1 ∨ k = 2 := by
      simp only [extents, List.length_cons, List.length_nil] at hk
      omega
    · have hx := signed_wrappedByte hle (hmod source hSize hh) (hmod destination hSize hh)
      simpa [extents, extent, coordinate, stride] using hx
    · have hy := signed_wrappedByte hle' (hmod (source / hSize) vSize hv)
        (hmod (destination / hSize) vSize hv)
      simpa [extents, extent, coordinate, stride] using hy
    · have hz := signed_wrappedByte hle'' (hplane hsource) (hplane hdestination)
      rw [Nat.div_div_eq_div_mul, Nat.div_div_eq_div_mul] at hz ⊢
      have hlt := hplane hsource
      have hlt' := hplane hdestination
      rw [Nat.div_div_eq_div_mul] at hlt hlt'
      simpa [extents, extent, coordinate, stride, Nat.mod_eq_of_lt hlt, Nat.mod_eq_of_lt hlt',
        Nat.div_div_eq_div_mul] using hz
  | torusND size => exact NdTopology.torus.signed_position hs hn source destination hk

/-- Every encoder gives the shortest signed offset in every dimension. -/
theorem shortest_displacement (t : TorusTopology) (hs : ∀ s ∈ t.extents, 1 ≤ s ∧ s ≤ 127)
    (hn : t.nodes < 2 ^ 32) {source destination : ℕ} (hsource : source < t.nodes)
    (hdestination : destination < t.nodes) {k : ℕ} (hk : k < t.extents.length)
    (position : List UInt8) :
    ShortestOffset (extent t.extents k) (coordinate t.extents k source)
      (coordinate t.extents k destination)
      (NocHeader.signedOffset
        ⟨t.getDestinationRelativeDimensionalPosition source destination, position⟩ k) := by
  have hsigned := t.signed_position hs hn hsource hdestination hk
  rw [NocHeader.signedOffset, NocHeader.byte, hsigned]
  exact shortestOffset_ringDisplacement (extent_pos (fun s h => (hs s h).1) k) _ _

/-- On a ring of four columns the way to the second next column is forward. -/
theorem shortest_displacement_halfway :
    ShortestOffset 4 3 1 (NocHeader.signedOffset
      ⟨(torus2D 4 3).getDestinationRelativeDimensionalPosition 3 9, [3, 0]⟩ 0) := by
  have hsource : 3 < (torus2D 4 3).nodes := by decide
  have hdestination : 9 < (torus2D 4 3).nodes := by decide
  have hdimension : 0 < (torus2D 4 3).extents.length := by decide
  exact (torus2D 4 3).shortest_displacement (by decide) (by decide) hsource hdestination
    hdimension [3, 0]

end TorusTopology
end Ns3Noc
