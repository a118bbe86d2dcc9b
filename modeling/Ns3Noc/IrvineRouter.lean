import Ns3Noc.MeshTopologies2D

/-!
# IrvineRouter

The router of an Irvine node consists of a left and a right router. `AddDevice` files every
link device under one of them by its direction and by how many of that direction came
before, and the lookups start from the router that the sender belongs to.
-/
namespace Ns3Noc

structure IrvineRouter where
  devices : List NocNetDevice
  rightRouterInputDevices : List NocNetDevice
  leftRouterInputDevices : List NocNetDevice
  rightRouterOutputDevices : List NocNetDevice
  leftRouterOutputDevices : List NocNetDevice
  north1DeviceAdded : Bool
  north2DeviceAdded : Bool
  eastDeviceAdded : Bool
  south1DeviceAdded : Bool
  south2DeviceAdded : Bool
  westDeviceAdded : Bool
  deriving DecidableEq, Repr

/-- The net device through which a packet came: one of the two injection devices of a node
or a link device. -/
inductive IrvineSender where
  | internalLeftInputDevice (node : ℕ)
  | internalRightInputDevice (node : ℕ)
  | device (d : NocNetDevice)
  deriving DecidableEq, Repr

def IrvineSender.node : IrvineSender → ℕ
  | internalLeftInputDevice node => node
  | internalRightInputDevice node => node
  | device d => d.node

namespace IrvineRouter

def empty : IrvineRouter :=
  ⟨[], [], [], [], [], false, false, false, false, false, false⟩

/-- `AddDevice`; `none` is a failed assertion. -/
def addDevice (r : IrvineRouter) (device : NocNetDevice) : Option IrvineRouter :=
  let r := { r with devices := r.devices ++ [device] }
  match device.routingDirection with
  | .none => some r
  | .forward =>
    if device.routingDimension = 1 then
      if !r.north1DeviceAdded then
        some { r with
          rightRouterInputDevices := r.rightRouterInputDevices ++ [device]
          rightRouterOutputDevices := r.rightRouterOutputDevices ++ [device]
          north1DeviceAdded := true }
      else if r.north2DeviceAdded then none
      else
        some { r with
          leftRouterInputDevices := r.leftRouterInputDevices ++ [device]
          leftRouterOutputDevices := r.leftRouterOutputDevices ++ [device]
          north2DeviceAdded := true }
    else if device.routingDimension = 0 then
      if r.eastDeviceAdded then none
      else
        some { r with
          leftRouterInputDevices := r.leftRouterInputDevices ++ [device]
          rightRouterOutputDevices := r.rightRouterOutputDevices ++ [device]
          eastDeviceAdded := true }
    else some r
  | .back =>
    if device.routingDimension = 1 then
      if !r.south1DeviceAdded then
        some { r with
          rightRouterInputDevices := r.rightRouterInputDevices ++ [device]
          rightRouterOutputDevices := r.rightRouterOutputDevices ++ [device]
          south1DeviceAdded := true }
      else if r.south2DeviceAdded then none
      else
        some { r with
          leftRouterInputDevices := r.leftRouterInputDevices ++ [device]
          leftRouterOutputDevices := r.leftRouterOutputDevices ++ [device]
          south2DeviceAdded := true }
    else if device.routingDimension = 0 then
      if r.westDeviceAdded then none
      else
        some { r with
          rightRouterInputDevices := r.rightRouterInputDevices ++ [device]
          leftRouterOutputDevices := r.leftRouterOutputDevices ++ [device]
          westDeviceAdded := true }
    else some r

/-- The router of a node after `Install`. -/
def router (w : Wiring) (node : ℕ) : Option IrvineRouter :=
  (w.routerDevices node).foldlM addDevice empty

/-- `GetInjectionNetDevice` for a head packet; `none` is the failed assertion. -/
def getInjectionNetDevice (node : ℕ) (nocHeader : NocHeader) : Option IrvineSender :=
  if nocHeader.isEmpty then none
  else if !nocHeader.hasEastDirection then some (.internalLeftInputDevice node)
  else some (.internalRightInputDevice node)

/-- `isRightRouter` of the router of node `self`. The injection devices never are in a list
of input devices. -/
def isRightRouter (w : Wiring) (self : ℕ) : IrvineSender → Option Bool
  | .internalRightInputDevice node => some (node == self)
  | .internalLeftInputDevice _ => some false
  | .device d => (router w d.node).map (fun r => r.rightRouterInputDevices.contains d)

def isLeftRouter (w : Wiring) (self : ℕ) : IrvineSender → Option Bool
  | .internalLeftInputDevice node => some (node == self)
  | .internalRightInputDevice _ => some false
  | .device d => (router w d.node).map (fun r => r.leftRouterInputDevices.contains d)

def matchesPort (routingDirection : RoutingDirection) (routingDimension : ℕ) (d : NocNetDevice) :
    Bool :=
  d.routingDirection == routingDirection && d.routingDimension == routingDimension

/-- The side of the router that the sender belongs to: `some true` for the right one, `none`
where the assertions fail. -/
def side (w : Wiring) (self : ℕ) (sender : IrvineSender) : Option Bool := do
  let isRightIrvineRouter ← isRightRouter w self sender
  let isLeftIrvineRouter ← isLeftRouter w self sender
  if isRightIrvineRouter != isLeftIrvineRouter then some isRightIrvineRouter else none

/-- `GetInputNetDevice`: the first match on the sender's side, else on the other one. -/
def getInputNetDevice (w : Wiring) (self : ℕ) (sender : IrvineSender)
    (routingDirection : RoutingDirection) (routingDimension : ℕ) : Option NocNetDevice := do
  let r ← router w self
  let right := r.rightRouterInputDevices.find? (matchesPort routingDirection routingDimension)
  let left := r.leftRouterInputDevices.find? (matchesPort routingDirection routingDimension)
  if ← side w self sender then right.or left else left.or right

/-- `GetOutputNetDevice`: the last match on the sender's side. -/
def getOutputNetDevice (w : Wiring) (self : ℕ) (sender : IrvineSender)
    (routingDirection : RoutingDirection) (routingDimension : ℕ) : Option NocNetDevice := do
  let r ← router w self
  let outputs := if ← side w self sender then r.rightRouterOutputDevices
    else r.leftRouterOutputDevices
  (outputs.filter (matchesPort routingDirection routingDimension)).getLast?

section Installed
open MeshWiring2D BlockedLoops
variable (hSize rows : ℕ)

def westDevices (v : ℕ) : List NocNetDevice :=
  if hasWest hSize v then [⟨v, eastChannel hSize (v - 1), .back, 0⟩] else []

def eastDevices (v : ℕ) : List NocNetDevice :=
  if hasEast hSize v then [⟨v, eastChannel hSize v, .forward, 0⟩] else []

/-- The pass of the vertical loops that visits node `v` for its column channel `c`. -/
def pass (c v : ℕ) : ℕ := v / hSize * (2 * hSize) + c * hSize + v % hSize

/-- The vertical devices of node `v` on its column channel `c`. -/
def lane (c v : ℕ) : List NocNetDevice :=
  verticalAt hSize (2 * hSize) rows (eastChannel hSize (rows * hSize)) .forward .back
    (pass hSize c v)

variable {hSize rows}

theorem pass_div_mod (hh : 0 < hSize) {c : ℕ} (hc : c < 2) (v : ℕ) :
    pass hSize c v / (2 * hSize) = v / hSize ∧
      pass hSize c v % (2 * hSize) = c * hSize + v % hSize := by
  have hmod := Nat.mod_lt v hh
  have hlt : c * hSize + v % hSize < 2 * hSize := by
    have := Nat.mul_le_mul_right hSize (show c ≤ 1 by omega)
    omega
  have hpass : pass hSize c v = c * hSize + v % hSize + v / hSize * (2 * hSize) := by
    unfold pass
    omega
  rw [hpass, Nat.add_mul_div_right _ _ (by omega), Nat.div_eq_of_lt hlt, Nat.add_mul_mod_self_right,
    Nat.mod_eq_of_lt hlt]
  exact ⟨Nat.zero_add _, rfl⟩

theorem nodeAt_pass (hh : 0 < hSize) {c : ℕ} (hc : c < 2) (v : ℕ) :
    nodeAt hSize (2 * hSize) (pass hSize c v) = v := by
  obtain ⟨hdiv, hmod⟩ := pass_div_mod hh hc v
  rw [nodeAt, hdiv, hmod, Nat.mul_add_mod_of_lt (Nat.mod_lt v hh)]
  exact Nat.div_add_mod' v hSize

/-- The vertical loops visit every node twice. -/
theorem passes_eq (hh : 0 < hSize) {v : ℕ} (hv : v < rows * hSize) :
    (List.range (rows * (2 * hSize))).filter (fun t => nodeAt hSize (2 * hSize) t = v) =
      [pass hSize 0 v, pass hSize 1 v] := by
  have hrow := (Nat.div_lt_iff_lt_mul hh).mpr hv
  apply filter_range_eq
  · simp [pass]
    omega
  · intro t
    simp only [List.mem_cons, List.not_mem_nil, or_false, decide_eq_true_eq]
    constructor
    · intro ht
      have hpass : ∃ c < 2, t = pass hSize c v := by
        rcases ht with rfl | rfl
        · exact ⟨0, by omega, rfl⟩
        · exact ⟨1, by omega, rfl⟩
      obtain ⟨c, hc, rfl⟩ := hpass
      refine ⟨?_, nodeAt_pass hh hc v⟩
      rw [← Nat.div_lt_iff_lt_mul (by omega), (pass_div_mod hh hc v).1]
      exact hrow
    · rintro ⟨-, hnode⟩
      -- the row and the column of the node determine the pass up to the column channel
      have hcol := Nat.mod_lt (t % (2 * hSize)) hh
      have hdiv : v / hSize = t / (2 * hSize) := by
        rw [← hnode, nodeAt, Nat.mul_comm, Nat.mul_add_div hh, Nat.div_eq_of_lt hcol, Nat.add_zero]
      have hmod : v % hSize = t % (2 * hSize) % hSize := by
        rw [← hnode, nodeAt, Nat.mul_add_mod_of_lt hcol]
      have ht := Nat.div_add_mod' t (2 * hSize)
      have hlt := Nat.mod_lt t (show 0 < 2 * hSize by omega)
      have hcol' := Nat.div_add_mod' (t % (2 * hSize)) hSize
      have hc : t % (2 * hSize) / hSize < 2 := (Nat.div_lt_iff_lt_mul hh).mpr hlt
      unfold pass
      rw [hdiv, hmod]
      rcases Nat.lt_or_ge (t % (2 * hSize)) hSize with hlow | hhigh
      · rw [Nat.div_eq_of_lt hlow] at hcol'
        omega
      · have hone : t % (2 * hSize) / hSize = 1 :=
          Nat.le_antisymm (by omega) ((Nat.one_le_div_iff hh).mpr hhigh)
        rw [hone] at hcol'
        omega

theorem routerDevices_irvine (hh : 0 < hSize) {v : ℕ} (hv : v < rows * hSize) :
    (NocIrvineMesh2D.install hSize (rows * hSize)).routerDevices v =
      westDevices hSize v ++ eastDevices hSize v ++ (lane hSize rows 0 v ++ lane hSize rows 1 v) := by
  rw [NocIrvineMesh2D.install, routerDevices_eq hh (by omega) hv, passes_eq hh hv]
  simp [horizontalAt, westDevices, eastDevices, lane]

/-- The vertical devices of a node: one to the row before unless it is in the first row, and
one to the row after unless it is in the last. -/
theorem lane_eq (hh : 0 < hSize) {c : ℕ} (hc : c < 2) (v : ℕ) : lane hSize rows c v =
    (if hSize ≤ v then [⟨v, eastChannel hSize (rows * hSize) + (pass hSize c v - 2 * hSize),
      .forward, 1⟩] else []) ++
    (if v / hSize < rows - 1 then [⟨v, eastChannel hSize (rows * hSize) + pass hSize c v,
      .back, 1⟩] else []) := by
  have hdiv := (pass_div_mod hh hc v).1
  have hfirst : 2 * hSize ≤ pass hSize c v ↔ hSize ≤ v := by
    rw [← Nat.one_le_div_iff (by omega), hdiv, Nat.one_le_div_iff hh]
  have hlast : pass hSize c v < (rows - 1) * (2 * hSize) ↔ v / hSize < rows - 1 := by
    rw [← Nat.div_lt_iff_lt_mul (by omega), hdiv]
  rw [lane, verticalAt, nodeAt_pass hh hc]
  simp only [hfirst, hlast]

/-- How the devices of a node are filed: the first vertical channel belongs to the right
router and the second one to the left, while the horizontal ports cross over. -/
theorem router_eq (hh : 0 < hSize) {v : ℕ} (hv : v < rows * hSize) :
    ∃ r, router (NocIrvineMesh2D.install hSize (rows * hSize)) v = some r ∧
      r.rightRouterInputDevices = westDevices hSize v ++ lane hSize rows 0 v ∧
      r.leftRouterInputDevices = eastDevices hSize v ++ lane hSize rows 1 v ∧
      r.rightRouterOutputDevices = eastDevices hSize v ++ lane hSize rows 0 v ∧
      r.leftRouterOutputDevices = westDevices hSize v ++ lane hSize rows 1 v := by
  rw [router, routerDevices_irvine hh hv, lane_eq hh (by omega), lane_eq hh (by omega),
    westDevices, eastDevices]
  by_cases hw : hasWest hSize v <;> by_cases he : hasEast hSize v <;>
    by_cases hn : hSize ≤ v <;> by_cases hs : v / hSize < rows - 1 <;>
    simp [hw, he, hn, hs, addDevice, empty]

end Installed
end IrvineRouter
end Ns3Noc
