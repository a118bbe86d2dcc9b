import Ns3Noc.DimensionWiring
import Mathlib.Data.Int.ModEq

/-!
# NocMeshND and NocTorusND

Both builders share the channel loops. They differ in the wrap-around links and in the
displacement encoder, which in the torus takes the shorter way around.
-/
namespace Ns3Noc
open MixedRadixIndices DimensionWiring

/-- The position of node `id` in dimension `k`, as both encoders compute it. -/
def position (size : List ℕ) (k id : ℕ) : ℕ := id / getNumberOfNodes size k % extent size k

theorem position_eq {size : List ℕ} (hs : ∀ s ∈ size, 0 < s) (hn : size.prod < 2 ^ 32) {k : ℕ}
    (hk : k < size.length) (id : ℕ) : position size k id = coordinate size k id := by
  rw [position, getNumberOfNodes_eq hs hn hk.le, coordinate]

namespace NocMeshND

def install (size : List ℕ) (nodes : ℕ) : Wiring := DimensionWiring.install false size nodes

def getDestinationRelativeDimensionalPosition (size : List ℕ) (sourceNodeId destinationNodeId : ℕ) :
    List UInt8 :=
  (List.range size.length).map fun k =>
    let source := position size k sourceNodeId
    let destination := position size k destinationNodeId
    OffsetByte.encode (destination < source) ((destination : ℤ) - source).natAbs

/-- How far `destination` lies ahead of `node` in dimension `k`. -/
def displacement (size : List ℕ) (k node destination : ℕ) : ℤ :=
  (coordinate size k destination : ℤ) - coordinate size k node

end NocMeshND

namespace NocTorusND

def install (size : List ℕ) (nodes : ℕ) : Wiring := DimensionWiring.install true size nodes

/-- The local variable `offset` of the encoder. -/
def ringOffset (size source destination : ℕ) : ℤ :=
  let offset : ℤ := if (destination : ℤ) - source ≥ 0 then ((destination - source) % size : ℕ)
    else ((size + destination - source) % size : ℕ)
  if offset > (size / 2 : ℕ) then offset - size else offset

def getDestinationRelativeDimensionalPosition (size : List ℕ) (sourceNodeId destinationNodeId : ℕ) :
    List UInt8 :=
  (List.range size.length).map fun k =>
    let offset := ringOffset (extent size k) (position size k sourceNodeId)
      (position size k destinationNodeId)
    OffsetByte.encode (offset < 0) offset.natAbs

/-- The signed distance from `a` to `b` on a ring of `s` positions the short way around,
and forward where both ways are equally long. -/
def ringDisplacement (s a b : ℕ) : ℤ :=
  if (s : ℤ) < 2 * (((b : ℤ) - a) % s) then ((b : ℤ) - a) % s - s else ((b : ℤ) - a) % s

def displacement (size : List ℕ) (k node destination : ℕ) : ℤ :=
  ringDisplacement (extent size k) (coordinate size k node) (coordinate size k destination)

theorem ringDisplacement_spec {s : ℕ} (hs : 0 < s) (a b : ℕ) :
    ringDisplacement s a b ≡ (b : ℤ) - a [ZMOD s] ∧
      -(s : ℤ) < 2 * ringDisplacement s a b ∧ 2 * ringDisplacement s a b ≤ s := by
  have hlo := Int.emod_nonneg ((b : ℤ) - a) (show (s : ℤ) ≠ 0 by omega)
  have hhi := Int.emod_lt_of_pos ((b : ℤ) - a) (show (0 : ℤ) < s by omega)
  unfold ringDisplacement
  split
  · exact ⟨by simp [Int.ModEq], by omega, by omega⟩
  · exact ⟨Int.mod_modEq _ _, by omega, by omega⟩

/-- The displacement is the only shortest representative of its residue class. -/
theorem ringDisplacement_unique {s : ℕ} (hs : 0 < s) {a b : ℕ} {d : ℤ}
    (hmod : d ≡ (b : ℤ) - a [ZMOD s]) (hlo : -(s : ℤ) < 2 * d) (hhi : 2 * d ≤ s) :
    d = ringDisplacement s a b := by
  obtain ⟨hmod', hlo', hhi'⟩ := ringDisplacement_spec hs a b
  obtain ⟨c, hc⟩ := (hmod'.trans hmod.symm).dvd
  have hc0 : c = 0 := by
    have h1 : -(1 : ℤ) < c := by nlinarith
    have h2 : c < 1 := by nlinarith
    omega
  subst hc0
  omega

theorem ringOffset_eq {s a b : ℕ} (ha : a < s) (hb : b < s) :
    ringOffset s a b = ringDisplacement s a b := by
  have hmod : ((b : ℤ) - a) % s = if a ≤ b then (b : ℤ) - a else b - a + s := by
    split
    · exact Int.emod_eq_of_lt (by omega) (by omega)
    · rw [← Int.add_emod_right]
      exact Int.emod_eq_of_lt (by omega) (by omega)
  unfold ringOffset ringDisplacement
  rw [hmod]
  by_cases h : a ≤ b
  · rw [Nat.mod_eq_of_lt (show b - a < s by omega)]
    simp only [h, if_true, show (b : ℤ) - a ≥ 0 by omega]
    split <;> split <;> omega
  · rw [Nat.mod_eq_of_lt (show s + b - a < s by omega)]
    simp only [h, if_false, show ¬((b : ℤ) - a ≥ 0) by omega]
    split <;> split <;> omega

end NocTorusND

/-- The two n-dimensional topologies. -/
inductive NdTopology where
  | mesh | torus
  deriving DecidableEq, Repr

namespace NdTopology

def install : NdTopology → List ℕ → ℕ → Wiring
  | mesh => NocMeshND.install
  | torus => NocTorusND.install

def getDestinationRelativeDimensionalPosition : NdTopology → List ℕ → ℕ → ℕ → List UInt8
  | mesh => NocMeshND.getDestinationRelativeDimensionalPosition
  | torus => NocTorusND.getDestinationRelativeDimensionalPosition

/-- The true displacement from `node` to `destination` in dimension `k`. -/
def displacement : NdTopology → List ℕ → ℕ → ℕ → ℕ → ℤ
  | mesh => NocMeshND.displacement
  | torus => NocTorusND.displacement

end NdTopology

/-- Both encoders are truthful as long as every size fits in seven bits. -/
theorem NdTopology.signed_position (t : NdTopology) {size : List ℕ}
    (hs : ∀ s ∈ size, 1 ≤ s ∧ s ≤ 127) (hn : size.prod < 2 ^ 32) (source destination : ℕ) {k : ℕ}
    (hk : k < size.length) : OffsetByte.signed
      ((t.getDestinationRelativeDimensionalPosition size source destination).getD k 0) =
        t.displacement size k source destination := by
  have hs0 : ∀ s ∈ size, 0 < s := fun s h => (hs s h).1
  have hle : extent size k ≤ 127 := by
    rw [extent, List.getD_eq_getElem _ _ hk]
    exact (hs _ (List.getElem_mem hk)).2
  have ha := coordinate_lt hs0 k source
  have hb := coordinate_lt hs0 k destination
  cases t with
  | mesh =>
    have hsigned := OffsetByte.signed_encode
      (d := (coordinate size k destination : ℤ) - coordinate size k source) (by omega)
    have hneg : ((coordinate size k destination : ℤ) - coordinate size k source < 0) ↔
        coordinate size k destination < coordinate size k source := by omega
    simp only [hneg] at hsigned
    simpa [getDestinationRelativeDimensionalPosition,
      NocMeshND.getDestinationRelativeDimensionalPosition, hk, position_eq hs0 hn hk,
      displacement, NocMeshND.displacement] using hsigned
  | torus =>
    have hspec := NocTorusND.ringDisplacement_spec (extent_pos hs0 k) (coordinate size k source)
      (coordinate size k destination)
    have hsigned := OffsetByte.signed_encode (d := NocTorusND.ringDisplacement (extent size k)
      (coordinate size k source) (coordinate size k destination)) (by omega)
    simpa [getDestinationRelativeDimensionalPosition,
      NocTorusND.getDestinationRelativeDimensionalPosition, hk, position_eq hs0 hn hk,
      displacement, NocTorusND.displacement, NocTorusND.ringOffset_eq ha hb] using hsigned

end Ns3Noc
