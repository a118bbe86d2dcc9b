import Ns3Noc.NocWiring

/-!
# The channel loops of the two-dimensional meshes

`NocMesh2D::Install` and `NocIrvineMesh2D::Install` share the loop over the rows. Their
vertical loops differ in the number of channels for each column and in which end of a
vertical channel is called NORTH (`forward`).
-/
namespace Ns3Noc.MeshWiring2D
open BlockedLoops

structure RowState where
  wiring : Wiring
  channel : Option ℕ

/-- The loop body for the horizontal channels. -/
def wireHorizontal (hSize : ℕ) (s : RowState) (i : ℕ) : RowState :=
  let w := match s.channel with
    | some channel => s.wiring.addDevice ⟨i, channel, .back, 0⟩
    | none => s.wiring
  if i = 0 ∨ (0 < i ∧ (i + 1) % hSize ≠ 0) then
    ⟨w.createChannel.addDevice ⟨i, w.channels, .forward, 0⟩, some w.channels⟩
  else ⟨w, none⟩

structure ColumnState where
  wiring : Wiring
  columnChannels : ℕ → Option ℕ

/-- The loop body for the vertical channels: `arriving` is the direction of the device that
joins an existing channel, `leaving` that of the device with a new one. -/
def wireVertical (hSize nodes : ℕ) (arriving leaving : RoutingDirection) (s : ColumnState)
    (i j : ℕ) : ColumnState :=
  let w := match s.columnChannels j with
    | some channel => s.wiring.addDevice ⟨i + j % hSize, channel, arriving, 1⟩
    | none => s.wiring
  if i < nodes - hSize then
    ⟨w.createChannel.addDevice ⟨i + j % hSize, w.channels, leaving, 1⟩,
      Function.update s.columnChannels j (some w.channels)⟩
  else ⟨w, Function.update s.columnChannels j none⟩

/-- Both loops, with `columns` vertical channels between two rows. -/
def install (hSize columns nodes : ℕ) (arriving leaving : RoutingDirection) : Wiring :=
  let w := ((List.range nodes).foldl (wireHorizontal hSize) ⟨Wiring.empty, none⟩).wiring
  ((strided nodes hSize).foldl (fun s i => (List.range columns).foldl
    (fun s j => wireVertical hSize nodes arriving leaving s i j) s) ⟨w, fun _ => none⟩).wiring

/-- Node `v` creates a channel to the east. The test `i == 0` also does so in a mesh with a
single column. -/
def hasEast (hSize v : ℕ) : Prop := v = 0 ∨ (v + 1) % hSize ≠ 0

instance (hSize v : ℕ) : Decidable (hasEast hSize v) := inferInstanceAs (Decidable (_ ∨ _))

/-- The channel that node `v` creates to the east: one for each node before it that does. -/
def eastChannel (hSize v : ℕ) : ℕ := ((List.range v).filter (fun u => hasEast hSize u)).length

def hasWest (hSize v : ℕ) : Prop := 0 < v ∧ hasEast hSize (v - 1)

instance (hSize v : ℕ) : Decidable (hasWest hSize v) := inferInstanceAs (Decidable (_ ∧ _))

/-- The horizontal devices of node `v`. -/
def horizontalAt (hSize v : ℕ) : List NocNetDevice :=
  (if hasWest hSize v then [⟨v, eastChannel hSize (v - 1), .back, 0⟩] else []) ++
  (if hasEast hSize v then [⟨v, eastChannel hSize v, .forward, 0⟩] else [])

/-- The node that the vertical loops visit in pass `t`. -/
def nodeAt (hSize columns t : ℕ) : ℕ := t / columns * hSize + t % columns % hSize

/-- The devices of pass `t`; the vertical channels are numbered from `base` on. -/
def verticalAt (hSize columns rows base : ℕ) (arriving leaving : RoutingDirection) (t : ℕ) :
    List NocNetDevice :=
  (if columns ≤ t then
    [⟨nodeAt hSize columns t, base + (t - columns), arriving, 1⟩] else []) ++
  (if t < (rows - 1) * columns then
    [⟨nodeAt hSize columns t, base + t, leaving, 1⟩] else [])

theorem eastChannel_succ (hSize v : ℕ) : eastChannel hSize (v + 1) =
    eastChannel hSize v + if hasEast hSize v then 1 else 0 := by
  rw [eastChannel, eastChannel, List.range_succ, List.filter_append, List.length_append]
  by_cases h : hasEast hSize v <;> simp [h]

theorem eastChannel_mono (hSize : ℕ) {v v' : ℕ} (h : v ≤ v') :
    eastChannel hSize v ≤ eastChannel hSize v' := by
  induction v', h using Nat.le_induction with
  | base => exact le_rfl
  | succ v' _ ih => rw [eastChannel_succ]; omega

theorem eastChannel_lt {hSize v v' : ℕ} (h : v < v') (he : hasEast hSize v) :
    eastChannel hSize v < eastChannel hSize v' := by
  have hle := eastChannel_mono hSize (show v + 1 ≤ v' from h)
  rw [eastChannel_succ, if_pos he] at hle
  omega

/-- Distinct nodes create distinct channels. -/
theorem eastChannel_inj {hSize v v' : ℕ} (h : hasEast hSize v) (h' : hasEast hSize v')
    (he : eastChannel hSize v = eastChannel hSize v') : v = v' := by
  rcases Nat.lt_trichotomy v v' with hlt | heq | hlt
  · have := eastChannel_lt hlt h
    omega
  · exact heq
  · have := eastChannel_lt hlt h'
    omega

theorem foldl_wireHorizontal (hSize m : ℕ) :
    (List.range m).foldl (wireHorizontal hSize) ⟨Wiring.empty, none⟩ =
      ⟨⟨eastChannel hSize m, (List.range m).flatMap (horizontalAt hSize)⟩,
        if hasWest hSize m then some (eastChannel hSize (m - 1)) else none⟩ := by
  induction m with
  | zero => rfl
  | succ m ih =>
    rw [List.range_succ, List.foldl_append, ih, List.flatMap_append, eastChannel_succ]
    have heast : (m = 0 ∨ 0 < m ∧ (m + 1) % hSize ≠ 0) ↔ hasEast hSize m := by
      unfold hasEast
      omega
    have hwest : hasWest hSize (m + 1) ↔ hasEast hSize m := by simp [hasWest]
    by_cases hw : hasWest hSize m <;> by_cases he : hasEast hSize m <;>
      simp [wireHorizontal, horizontalAt, heast, hwest, hw, he, Wiring.createChannel,
        Wiring.addDevice]

section Vertical
variable {hSize columns rows : ℕ} {arriving leaving : RoutingDirection}

/-- The state of the vertical loops before pass `m`. -/
structure Scanned (hSize columns rows : ℕ) (arriving leaving : RoutingDirection) (w : Wiring)
    (m : ℕ) (s : ColumnState) : Prop where
  wiring_eq : s.wiring = ⟨w.channels + min m ((rows - 1) * columns), w.devices ++
    (List.range m).flatMap (verticalAt hSize columns rows w.channels arriving leaving)⟩
  line : ∀ t < m, m ≤ t + columns → s.columnChannels (t % columns) =
    if t < (rows - 1) * columns then some (w.channels + t) else none
  fresh : ∀ j, m ≤ j → s.columnChannels j = none

theorem Scanned.carried {w : Wiring} {m : ℕ} {s : ColumnState}
    (h : Scanned hSize columns rows arriving leaving w m s) (hm : m < rows * columns)
    (hc : 0 < columns) : s.columnChannels (m % columns) =
      if columns ≤ m then some (w.channels + (m - columns)) else none := by
  split
  · next hle =>
    have hlt : m - columns < (rows - 1) * columns := by
      rw [Nat.sub_mul, Nat.one_mul]
      omega
    have hl := h.line (m - columns) (by omega) (by omega)
    rwa [if_pos hlt, ← Nat.mod_eq_sub_mod hle] at hl
  · next hlt =>
    rw [Nat.mod_eq_of_lt (Nat.lt_of_not_le hlt)]
    exact h.fresh m le_rfl

theorem Scanned.succ {w : Wiring} {m : ℕ} {s : ColumnState}
    (h : Scanned hSize columns rows arriving leaving w m s) (hm : m < rows * columns)
    (hc : 0 < columns) (hh : 0 < hSize) :
    Scanned hSize columns rows arriving leaving w (m + 1)
      (wireVertical hSize (rows * hSize) arriving leaving s (m / columns * hSize)
        (m % columns)) := by
  have hcarried := h.carried hm hc
  have hrow : m / columns * hSize < rows * hSize - hSize ↔ m < (rows - 1) * columns := by
    rw [← Nat.div_lt_iff_lt_mul hc, ← Nat.sub_one_mul, Nat.mul_lt_mul_right hh]
  have hwire : wireVertical hSize (rows * hSize) arriving leaving s (m / columns * hSize)
      (m % columns) =
      ⟨⟨w.channels + min (m + 1) ((rows - 1) * columns), s.wiring.devices ++
          verticalAt hSize columns rows w.channels arriving leaving m⟩,
        Function.update s.columnChannels (m % columns)
          (if m < (rows - 1) * columns then some (w.channels + m) else none)⟩ := by
    have hmin : min (m + 1) ((rows - 1) * columns) =
        min m ((rows - 1) * columns) + if m < (rows - 1) * columns then 1 else 0 := by
      split <;> omega
    by_cases hle : columns ≤ m <;> by_cases hlt : m < (rows - 1) * columns <;>
      simp [wireVertical, hcarried, hrow, hle, hlt, hmin, h.wiring_eq, verticalAt, nodeAt,
        Wiring.createChannel, Wiring.addDevice, Nat.le_of_lt, Nat.add_assoc]
  rw [hwire]
  constructor
  · rw [h.wiring_eq]
    simp [List.range_succ]
  · intro t ht hmt
    dsimp only
    rcases Nat.lt_succ_iff_lt_or_eq.mp ht with hlt | rfl
    · have hne : t % columns ≠ m % columns := by
        intro heq
        have hdvd : columns ∣ m - t := (Nat.modEq_iff_dvd' hlt.le).mp heq
        exact absurd (Nat.le_of_dvd (by omega) hdvd) (by omega)
      rw [Function.update_of_ne hne]
      exact h.line t hlt (by omega)
    · rw [Function.update_self]
  · intro j hj
    have hne : j ≠ m % columns := by
      have := Nat.mod_le m columns
      omega
    dsimp only
    rw [Function.update_of_ne hne]
    exact h.fresh j (by omega)

theorem Scanned.range (w : Wiring) (hc : 0 < columns) (hh : 0 < hSize) {m : ℕ}
    (hm : m ≤ rows * columns) : Scanned hSize columns rows arriving leaving w m
      ((List.range m).foldl (fun s t => wireVertical hSize (rows * hSize) arriving leaving s
        (t / columns * hSize) (t % columns)) ⟨w, fun _ => none⟩) := by
  induction m with
  | zero => constructor <;> simp
  | succ m ih =>
    rw [List.range_succ, List.foldl_append]
    exact (ih (by omega)).succ (by omega) hc hh

end Vertical

/-- The channels and devices of a mesh, in the order of their creation. -/
theorem install_eq {hSize columns : ℕ} (rows : ℕ) (hh : 0 < hSize) (hc : 0 < columns)
    (arriving leaving : RoutingDirection) :
    install hSize columns (rows * hSize) arriving leaving =
      ⟨eastChannel hSize (rows * hSize) + min (rows * columns) ((rows - 1) * columns),
        (List.range (rows * hSize)).flatMap (horizontalAt hSize) ++
        (List.range (rows * columns)).flatMap
          (verticalAt hSize columns rows (eastChannel hSize (rows * hSize)) arriving leaving)⟩ := by
  rw [install, foldl_wireHorizontal]
  dsimp only
  rw [foldl_strided_range (wireVertical hSize (rows * hSize) arriving leaving) rows hh hc]
  exact (Scanned.range _ hc hh le_rfl).wiring_eq

section Installed
variable {hSize columns rows : ℕ} {arriving leaving : RoutingDirection}

theorem nodeAt_add (hc : 0 < columns) (t : ℕ) :
    nodeAt hSize columns (t + columns) = nodeAt hSize columns t + hSize := by
  rw [nodeAt, nodeAt, Nat.add_div_right _ hc, Nat.add_mod_right, Nat.succ_mul]
  omega

theorem nodeAt_lt (hh : 0 < hSize) (hc : 0 < columns) {t : ℕ} (ht : t < (rows - 1) * columns) :
    nodeAt hSize columns t + hSize < rows * hSize := by
  have hrow := (Nat.div_lt_iff_lt_mul hc).mpr ht
  have hcol := Nat.mod_lt (t % columns) hh
  rw [nodeAt]
  generalize t / columns = row at hrow ⊢
  have hle : (row + 2) * hSize ≤ rows * hSize := Nat.mul_le_mul_right hSize (by omega)
  rw [Nat.add_mul] at hle
  omega

theorem mem_horizontalAt {v : ℕ} {d : NocNetDevice} : d ∈ horizontalAt hSize v ↔
    (hasWest hSize v ∧ d = ⟨v, eastChannel hSize (v - 1), .back, 0⟩) ∨
    (hasEast hSize v ∧ d = ⟨v, eastChannel hSize v, .forward, 0⟩) := by
  unfold horizontalAt
  simp only [List.mem_append, List.mem_ite_nil_right, List.mem_singleton]

theorem mem_verticalAt {base t : ℕ} {d : NocNetDevice} :
    d ∈ verticalAt hSize columns rows base arriving leaving t ↔
    (columns ≤ t ∧ d = ⟨nodeAt hSize columns t, base + (t - columns), arriving, 1⟩) ∨
    (t < (rows - 1) * columns ∧ d = ⟨nodeAt hSize columns t, base + t, leaving, 1⟩) := by
  unfold verticalAt
  simp only [List.mem_append, List.mem_ite_nil_right, List.mem_singleton]

/-- The devices of the router at node `v`, in the order in which they were added. -/
theorem routerDevices_eq (hh : 0 < hSize) (hc : 0 < columns) {v : ℕ} (hv : v < rows * hSize) :
    (install hSize columns (rows * hSize) arriving leaving).routerDevices v =
      horizontalAt hSize v ++
      ((List.range (rows * columns)).filter (fun t => nodeAt hSize columns t = v)).flatMap
        (verticalAt hSize columns rows (eastChannel hSize (rows * hSize)) arriving leaving) := by
  have hrow : (List.range (rows * hSize)).filter (fun u => u = v) = [v] := by
    apply filter_range_eq (List.pairwise_singleton _ _)
    intro t
    simp only [List.mem_singleton, decide_eq_true_eq]
    omega
  rw [install_eq rows hh hc, Wiring.routerDevices, List.filter_append,
    filter_flatMap_range (q := fun u => u = v), hrow,
    filter_flatMap_range (q := fun t => nodeAt hSize columns t = v)]
  · simp
  · intro t _ d hd
    rcases mem_verticalAt.mp hd with ⟨-, rfl⟩ | ⟨-, rfl⟩ <;> rfl
  · intro u _ d hd
    rcases mem_horizontalAt.mp hd with ⟨-, rfl⟩ | ⟨-, rfl⟩ <;> rfl

variable (rows arriving leaving) in
/-- The devices of the mesh as the two ends of its links. -/
theorem mem_devices (hh : 0 < hSize) (hc : 0 < columns) {d : NocNetDevice} :
    d ∈ (install hSize columns (rows * hSize) arriving leaving).devices ↔
    (∃ v, v + 1 < rows * hSize ∧ hasEast hSize v ∧ d = ⟨v + 1, eastChannel hSize v, .back, 0⟩) ∨
    (∃ v < rows * hSize, hasEast hSize v ∧ d = ⟨v, eastChannel hSize v, .forward, 0⟩) ∨
    (∃ t < (rows - 1) * columns, d = ⟨nodeAt hSize columns t + hSize,
      eastChannel hSize (rows * hSize) + t, arriving, 1⟩) ∨
    (∃ t < (rows - 1) * columns, d = ⟨nodeAt hSize columns t,
      eastChannel hSize (rows * hSize) + t, leaving, 1⟩) := by
  have hcols : (rows - 1) * columns = rows * columns - columns := Nat.sub_one_mul _ _
  rw [install_eq rows hh hc]
  simp only [List.mem_append, List.mem_flatMap, List.mem_range, mem_horizontalAt, mem_verticalAt]
  constructor
  · rintro (⟨v, hv, ⟨hw, rfl⟩ | ⟨he, rfl⟩⟩ | ⟨t, ht, ⟨hle, rfl⟩ | ⟨hlt, rfl⟩⟩)
    · have hv1 : v - 1 + 1 = v := Nat.sub_add_cancel hw.1
      exact .inl ⟨v - 1, by omega, hw.2, by rw [hv1]⟩
    · exact .inr (.inl ⟨v, hv, he, rfl⟩)
    · refine .inr (.inr (.inl ⟨t - columns, by omega, ?_⟩))
      rw [← nodeAt_add hc, Nat.sub_add_cancel hle]
    · exact .inr (.inr (.inr ⟨t, hlt, rfl⟩))
  · rintro (⟨v, hv, he, rfl⟩ | ⟨v, hv, he, rfl⟩ | ⟨t, ht, rfl⟩ | ⟨t, ht, rfl⟩)
    · exact .inl ⟨v + 1, hv, .inl ⟨⟨by omega, he⟩, rfl⟩⟩
    · exact .inl ⟨v, hv, .inr ⟨he, rfl⟩⟩
    · refine .inr ⟨t + columns, by omega, .inl ⟨by omega, ?_⟩⟩
      rw [nodeAt_add hc, Nat.add_sub_cancel]
    · exact .inr ⟨t, by omega, .inr ⟨ht, rfl⟩⟩

/-- A channel belongs to a single link. -/
theorem channel_cases (hh : 0 < hSize) (hc : 0 < columns) {d : NocNetDevice}
    (hd : d ∈ (install hSize columns (rows * hSize) arriving leaving).devices) :
    (∀ v < rows * hSize, hasEast hSize v → d.channel = eastChannel hSize v →
      d = ⟨v + 1, eastChannel hSize v, .back, 0⟩ ∨ d = ⟨v, eastChannel hSize v, .forward, 0⟩) ∧
    (∀ t, d.channel = eastChannel hSize (rows * hSize) + t →
      d = ⟨nodeAt hSize columns t + hSize, eastChannel hSize (rows * hSize) + t, arriving, 1⟩ ∨
      d = ⟨nodeAt hSize columns t, eastChannel hSize (rows * hSize) + t, leaving, 1⟩) := by
  rcases (mem_devices rows arriving leaving hh hc).mp hd with
    ⟨u, hu, he, rfl⟩ | ⟨u, hu, he, rfl⟩ | ⟨t, ht, rfl⟩ | ⟨t, ht, rfl⟩
  · refine ⟨fun v hv hev h => ?_, fun t h => ?_⟩
    · rw [eastChannel_inj he hev h]
      exact .inl rfl
    · have := eastChannel_lt (show u < rows * hSize by omega) he
      dsimp only at h
      omega
  · refine ⟨fun v hv hev h => ?_, fun t h => ?_⟩
    · rw [eastChannel_inj he hev h]
      exact .inr rfl
    · have := eastChannel_lt hu he
      dsimp only at h
      omega
  · refine ⟨fun v hv hev h => ?_, fun t' h => ?_⟩
    · have := eastChannel_lt hv hev
      dsimp only at h
      omega
    · dsimp only at h
      rw [show t' = t by omega]
      exact .inl rfl
  · refine ⟨fun v hv hev h => ?_, fun t' h => ?_⟩
    · have := eastChannel_lt hv hev
      dsimp only at h
      omega
    · dsimp only at h
      rw [show t' = t by omega]
      exact .inr rfl

/-- The link between horizontal neighbours. -/
theorem peer_horizontal (hh : 0 < hSize) (hc : 0 < columns) {v : ℕ} (hv : v + 1 < rows * hSize)
    (he : hasEast hSize v) :
    (install hSize columns (rows * hSize) arriving leaving).peer
        ⟨v, eastChannel hSize v, .forward, 0⟩ = some ⟨v + 1, eastChannel hSize v, .back, 0⟩ ∧
    (install hSize columns (rows * hSize) arriving leaving).peer
        ⟨v + 1, eastChannel hSize v, .back, 0⟩ = some ⟨v, eastChannel hSize v, .forward, 0⟩ := by
  have hback := (mem_devices rows arriving leaving hh hc).mpr
    (.inl ⟨v, hv, he, rfl⟩)
  have hforward := (mem_devices rows arriving leaving hh hc).mpr
    (.inr (.inl ⟨v, by omega, he, rfl⟩))
  constructor
  · refine Wiring.peer_of_unique hback rfl (by simp) ?_
    intro x hx hxc hne
    exact ((channel_cases hh hc hx).1 v (by omega) he hxc).resolve_right hne
  · refine Wiring.peer_of_unique hforward rfl (by simp) ?_
    intro x hx hxc hne
    exact ((channel_cases hh hc hx).1 v (by omega) he hxc).resolve_left hne

/-- The link between vertical neighbours. -/
theorem peer_vertical (hh : 0 < hSize) (hc : 0 < columns) {t : ℕ} (ht : t < (rows - 1) * columns) :
    (install hSize columns (rows * hSize) arriving leaving).peer
        ⟨nodeAt hSize columns t, eastChannel hSize (rows * hSize) + t, leaving, 1⟩ =
      some ⟨nodeAt hSize columns t + hSize, eastChannel hSize (rows * hSize) + t, arriving, 1⟩ ∧
    (install hSize columns (rows * hSize) arriving leaving).peer
        ⟨nodeAt hSize columns t + hSize, eastChannel hSize (rows * hSize) + t, arriving, 1⟩ =
      some ⟨nodeAt hSize columns t, eastChannel hSize (rows * hSize) + t, leaving, 1⟩ := by
  have harriving := (mem_devices rows arriving leaving hh hc).mpr
    (.inr (.inr (.inl ⟨t, ht, rfl⟩)))
  have hleaving := (mem_devices rows arriving leaving hh hc).mpr
    (.inr (.inr (.inr ⟨t, ht, rfl⟩)))
  constructor
  · refine Wiring.peer_of_unique harriving rfl ?_ ?_
    · intro heq
      have := congrArg NocNetDevice.node heq
      dsimp only at this
      omega
    · intro x hx hxc hne
      exact ((channel_cases hh hc hx).2 t hxc).resolve_right hne
  · refine Wiring.peer_of_unique hleaving rfl ?_ ?_
    · intro heq
      have := congrArg NocNetDevice.node heq
      dsimp only at this
      omega
    · intro x hx hxc hne
      exact ((channel_cases hh hc hx).2 t hxc).resolve_left hne

/-- Every device of a mesh with at least two nodes leads to a neighbour. -/
theorem peer_cases (hh : 0 < hSize) (hc : 0 < columns) (hn : 1 < rows * hSize) {d : NocNetDevice}
    (hd : d ∈ (install hSize columns (rows * hSize) arriving leaving).devices) :
    ∃ e, (install hSize columns (rows * hSize) arriving leaving).peer d = some e ∧
      e.node < rows * hSize ∧
      ((d.routingDirection = .forward ∧ d.routingDimension = 0 ∧ e.node = d.node + 1) ∨
      (d.routingDirection = .back ∧ d.routingDimension = 0 ∧ d.node = e.node + 1) ∨
      (d.routingDirection = arriving ∧ d.routingDimension = 1 ∧ d.node = e.node + hSize) ∨
      (d.routingDirection = leaving ∧ d.routingDimension = 1 ∧ e.node = d.node + hSize)) := by
  rcases (mem_devices rows arriving leaving hh hc).mp hd with
    ⟨v, hv, he, rfl⟩ | ⟨v, hv, he, rfl⟩ | ⟨t, ht, rfl⟩ | ⟨t, ht, rfl⟩
  · exact ⟨_, (peer_horizontal hh hc hv he).2, by dsimp only; omega, by simp⟩
  · have hv' : v + 1 < rows * hSize := by
      rcases he with rfl | hmod
      · exact hn
      · -- the last node ends its row
        by_contra hge
        rw [show v + 1 = rows * hSize by omega, Nat.mul_mod_left] at hmod
        exact hmod rfl
    exact ⟨_, (peer_horizontal hh hc hv' he).1, hv', by simp⟩
  · have hlt := nodeAt_lt hh hc ht
    exact ⟨_, (peer_vertical hh hc ht).2, by dsimp only; omega, by simp⟩
  · exact ⟨_, (peer_vertical hh hc ht).1, nodeAt_lt hh hc ht, by simp⟩

end Installed
end Ns3Noc.MeshWiring2D
