import Ns3Noc.NocWiring
import Ns3Noc.MixedRadixIndices
import Mathlib.Logic.Function.Basic

/-!
# The channel loops of the n-dimensional builders

`NocMeshND::Install` and `NocTorusND::Install` run the same loops over a flat node index,
one dimension after the other; the torus adds two blocks that close every line into a
ring. The vectors `channels` and `channels_torus` carry a channel from the node that
created it to the node that connects to it.
-/
namespace Ns3Noc.DimensionWiring
open MixedRadixIndices BlockedLoops

/-- `GetNumberOfNodes (dimension)`, with the wrap-around of `uint32_t`. -/
def getNumberOfNodes (size : List ℕ) (dimension : ℕ) : ℕ :=
  (List.range dimension).foldl (fun numberOfNodes i => numberOfNodes * extent size i % 2 ^ 32) 1

/-- What the loops of one dimension carry along. -/
structure LineState where
  wiring : Wiring
  channels : ℕ → Option ℕ
  channelsTorus : ℕ → Option ℕ

/-- The first two blocks of the loop body: connect to the channel of the previous node on
the line, and create the channel to the next one. -/
def wireLine (size : List ℕ) (k i j : ℕ) (s : LineState) : LineState :=
  let w := match s.channels j with
    | some channel => s.wiring.addDevice ⟨i + j, channel, .back, k⟩
    | none => s.wiring
  if (i + j) % getNumberOfNodes size (k + 1) <
      getNumberOfNodes size (k + 1) - getNumberOfNodes size k then
    { s with
      wiring := w.createChannel.addDevice ⟨i + j, w.channels, .forward, k⟩
      channels := Function.update s.channels j (some w.channels) }
  else { s with wiring := w, channels := Function.update s.channels j none }

/-- The last two blocks, which only the torus has: the first node of a line creates the
wrap-around channel and the last one connects to it. -/
def wireRing (size : List ℕ) (k i j : ℕ) (s : LineState) : LineState :=
  let s := if (i + j) % getNumberOfNodes size (k + 1) < getNumberOfNodes size k then
      { s with
        wiring := s.wiring.createChannel.addDevice ⟨i + j, s.wiring.channels, .back, k⟩
        channelsTorus := Function.update s.channelsTorus j (some s.wiring.channels) }
    else s
  if (i + j) % getNumberOfNodes size (k + 1) ≥
      getNumberOfNodes size (k + 1) - getNumberOfNodes size k then
    match s.channelsTorus j with
    | some channel => { s with wiring := s.wiring.addDevice ⟨i + j, channel, .forward, k⟩ }
    | none => s
  else s

def wireNode (torus : Bool) (size : List ℕ) (k : ℕ) (s : LineState) (i j : ℕ) : LineState :=
  if torus then wireRing size k i j (wireLine size k i j s) else wireLine size k i j s

/-- The loops over `i` and `j` for one dimension `k`. -/
def installDimension (torus : Bool) (size : List ℕ) (nodes k : ℕ) (w : Wiring) : Wiring :=
  ((strided nodes (getNumberOfNodes size k)).foldl (fun s i =>
    (List.range (getNumberOfNodes size k)).foldl (fun s j => wireNode torus size k s i j) s)
    ⟨w, fun _ => none, fun _ => none⟩).wiring

/-- The loop over the dimensions. -/
def install (torus : Bool) (size : List ℕ) (nodes : ℕ) : Wiring :=
  (List.range size.length).foldl (fun w k => installDimension torus size nodes k w) Wiring.empty

/-- No product wraps around when the node count fits in 32 bits. -/
theorem getNumberOfNodes_eq {size : List ℕ} (hs : ∀ s ∈ size, 0 < s) (hn : size.prod < 2 ^ 32)
    {k : ℕ} (hk : k ≤ size.length) : getNumberOfNodes size k = stride size k := by
  have hle : ∀ i ≤ size.length, stride size i < 2 ^ 32 := fun i hi =>
    (Nat.le_of_dvd (Nat.pos_of_ne_zero fun h0 => by
      have := stride_pos hs size.length
      rw [stride_length] at this
      omega) (stride_dvd_prod size hi)).trans_lt hn
  induction k with
  | zero => simp [getNumberOfNodes]
  | succ k ih =>
    have hstep : getNumberOfNodes size (k + 1) =
        getNumberOfNodes size k * extent size k % 2 ^ 32 := by
      simp [getNumberOfNodes, List.range_succ]
    rw [hstep, ih (by omega), ← stride_succ, Nat.mod_eq_of_lt (hle (k + 1) hk)]

section Scan
variable (torus : Bool) (size : List ℕ) (k : ℕ)

/-- Node `v` creates a channel to the next node on its line. -/
def hasNext (v : ℕ) : Prop := coordinate size k v + 1 < extent size k

instance (v : ℕ) : Decidable (hasNext size k v) := inferInstanceAs (Decidable (_ < _))

/-- The number of channels created while the loops visit node `v`. -/
def created (v : ℕ) : ℕ :=
  (if hasNext size k v then 1 else 0) + if torus ∧ coordinate size k v = 0 then 1 else 0

/-- The channel count when the loops reach node `v`, starting from `base`. -/
def firstFree (base v : ℕ) : ℕ := base + ((List.range v).map (created torus size k)).sum

/-- The wrap-around channel created at the first node `v` of a line. -/
def ringChannel (base v : ℕ) : ℕ :=
  firstFree torus size k base v + if hasNext size k v then 1 else 0

/-- The channel of the link that leaves `v` in the forward direction. -/
def linkChannel (base v : ℕ) : ℕ :=
  if hasNext size k v then firstFree torus size k base v
  else ringChannel torus size k base (v - coordinate size k v * stride size k)

/-- The node in front of `v`: the next one on the line, or in a torus the first one again. -/
def next (v : ℕ) : Option ℕ :=
  if hasNext size k v then some (v + stride size k)
  else if torus then some (v - coordinate size k v * stride size k) else none

/-- The devices that the visit of node `v` adds, in the order of the loop body. -/
def devicesAt (base v : ℕ) : List NocNetDevice :=
  (if 0 < coordinate size k v then
    [⟨v, firstFree torus size k base (v - stride size k), .back, k⟩] else []) ++
  (if hasNext size k v then [⟨v, firstFree torus size k base v, .forward, k⟩] else []) ++
  (if torus ∧ coordinate size k v = 0 then
    [⟨v, ringChannel torus size k base v, .back, k⟩] else []) ++
  (if torus ∧ ¬hasNext size k v then
    [⟨v, linkChannel torus size k base v, .forward, k⟩] else [])

/-- The loop state after the nodes below `m` have been visited. -/
structure Scanned (w : Wiring) (m : ℕ) (s : LineState) : Prop where
  channels_eq : s.wiring.channels = firstFree torus size k w.channels m
  devices_eq : s.wiring.devices =
    w.devices ++ (List.range m).flatMap (devicesAt torus size k w.channels)
  line : ∀ v < m, m ≤ v + stride size k → s.channels (v % stride size k) =
    if hasNext size k v then some (firstFree torus size k w.channels v) else none
  fresh : ∀ j, m ≤ j → j < stride size k → s.channels j = none
  ring : torus = true → ∀ v < m, coordinate size k v = 0 → m ≤ v + stride size (k + 1) →
    s.channelsTorus (v % stride size k) = some (ringChannel torus size k w.channels v)

variable {torus size k}

theorem firstFree_succ (base v : ℕ) : firstFree torus size k base (v + 1) =
    ringChannel torus size k base v + if torus ∧ coordinate size k v = 0 then 1 else 0 := by
  simp [firstFree, ringChannel, created, List.range_succ, Nat.add_assoc]

theorem mod_ne_of_lt {b v m : ℕ} (hv : v < m) (hm : m < v + b) : v % b ≠ m % b := by
  intro h
  have h' : b ∣ m - v := (Nat.modEq_iff_dvd' hv.le).mp h
  exact absurd (Nat.le_of_dvd (by omega) h') (by omega)

theorem not_hasNext_iff (hs : ∀ s ∈ size, 0 < s) (v : ℕ) :
    ¬hasNext size k v ↔ coordinate size k v + 1 = extent size k := by
  have := coordinate_lt hs k v
  unfold hasNext
  omega

/-- The previous node on the line of `v`. -/
theorem hasNext_sub (hs : ∀ s ∈ size, 0 < s) {v : ℕ} (hv : 0 < coordinate size k v) :
    hasNext size k (v - stride size k) := by
  have h := coordinate_sub_self hs (show 1 ≤ coordinate size k v from hv)
  have := coordinate_lt hs k v
  rw [Nat.one_mul] at h
  unfold hasNext
  omega

theorem stride_le_of_coordinate_pos {v : ℕ} (hv : 0 < coordinate size k v) :
    stride size k ≤ v := by
  simpa using (Nat.mul_le_mul_right (stride size k) hv).trans (coordinate_mul_stride_le k v)

/-- The entry of `channels` that the loop body finds at node `m`. -/
theorem Scanned.carried (hs : ∀ s ∈ size, 0 < s) {w : Wiring} {m : ℕ} {s : LineState}
    (h : Scanned torus size k w m s) : s.channels (m % stride size k) =
      if 0 < coordinate size k m then
        some (firstFree torus size k w.channels (m - stride size k)) else none := by
  have hpos := stride_pos hs k
  split
  · next hc =>
    have hle := stride_le_of_coordinate_pos hc
    have hl := h.line (m - stride size k) (by omega) (by omega)
    rwa [if_pos (hasNext_sub hs hc), ← Nat.mod_eq_sub_mod hle] at hl
  · next hc =>
    by_cases hm : m < stride size k
    · rw [Nat.mod_eq_of_lt hm, h.fresh m le_rfl hm]
    · have hl := h.line (m - stride size k) (by omega) (by omega)
      rw [← Nat.mod_eq_sub_mod (by omega)] at hl
      rw [hl, if_neg]
      intro hn
      -- a successor on the line would have a positive coordinate
      have hadd := coordinate_add hs (show coordinate size k (m - stride size k) + 1 <
        extent size k from hn) k
      rw [Nat.one_mul, Nat.sub_add_cancel (by omega), if_pos rfl] at hadd
      omega

variable (torus) in
theorem wireLine_eq (i j base : ℕ) {s : LineState}
    (hk : getNumberOfNodes size k = stride size k)
    (hk' : getNumberOfNodes size (k + 1) = stride size (k + 1)) (hs : ∀ s ∈ size, 0 < s)
    (hch : s.wiring.channels = firstFree torus size k base (i + j))
    (hc : s.channels j = if 0 < coordinate size k (i + j) then
      some (firstFree torus size k base (i + j - stride size k)) else none) :
    wireLine size k i j s =
      ⟨⟨ringChannel torus size k base (i + j), s.wiring.devices ++
          (if 0 < coordinate size k (i + j) then [⟨i + j, firstFree torus size k base
            (i + j - stride size k), .back, k⟩] else []) ++
          (if hasNext size k (i + j) then
            [⟨i + j, firstFree torus size k base (i + j), .forward, k⟩] else [])⟩,
        Function.update s.channels j (if hasNext size k (i + j) then
          some (firstFree torus size k base (i + j)) else none), s.channelsTorus⟩ := by
  have hiff : (i + j) % stride size (k + 1) < stride size (k + 1) - stride size k ↔
      hasNext size k (i + j) := mod_lt_sub_iff hs k (i + j)
  obtain ⟨⟨c, ds⟩, ch, ct⟩ := s
  simp only at hch hc
  subst hch
  by_cases hp : 0 < coordinate size k (i + j) <;> by_cases hn : hasNext size k (i + j) <;>
    simp only [hp, if_true, if_false] at hc <;>
    simp [wireLine, hk, hk', hc, hp, hn, hiff, ringChannel, Wiring.createChannel,
      Wiring.addDevice]

theorem wireRing_eq (i j base : ℕ) {s : LineState}
    (hk : getNumberOfNodes size k = stride size k)
    (hk' : getNumberOfNodes size (k + 1) = stride size (k + 1)) (hs : ∀ s ∈ size, 0 < s)
    (hch : s.wiring.channels = ringChannel true size k base (i + j))
    (hc : 0 < coordinate size k (i + j) → ¬hasNext size k (i + j) →
      s.channelsTorus j = some (linkChannel true size k base (i + j))) :
    wireRing size k i j s =
      ⟨⟨firstFree true size k base (i + j + 1), s.wiring.devices ++
          (if coordinate size k (i + j) = 0 then
            [⟨i + j, ringChannel true size k base (i + j), .back, k⟩] else []) ++
          (if ¬hasNext size k (i + j) then
            [⟨i + j, linkChannel true size k base (i + j), .forward, k⟩] else [])⟩,
        s.channels, if coordinate size k (i + j) = 0 then
          Function.update s.channelsTorus j (some (ringChannel true size k base (i + j)))
          else s.channelsTorus⟩ := by
  have hiff : stride size (k + 1) - stride size k ≤ (i + j) % stride size (k + 1) ↔
      ¬hasNext size k (i + j) := by
    rw [← not_lt, mod_lt_sub_iff hs k (i + j), hasNext]
  have hfirst := mod_lt_stride_iff hs k (i + j)
  obtain ⟨⟨c, ds⟩, ch, ct⟩ := s
  simp only at hch hc
  subst hch
  by_cases hz : coordinate size k (i + j) = 0 <;> by_cases hn : hasNext size k (i + j)
  · simp [wireRing, hk, hk', hz, hn, hiff, hfirst, firstFree_succ, Wiring.createChannel,
      Wiring.addDevice]
  · simp [wireRing, hk, hk', hz, hn, hiff, hfirst, firstFree_succ, Wiring.createChannel,
      Wiring.addDevice, linkChannel]
  · simp [wireRing, hk, hk', hz, hn, hiff, hfirst, firstFree_succ]
  · have hc' := hc (Nat.pos_of_ne_zero hz) hn
    simp [wireRing, hk, hk', hz, hn, hiff, hfirst, firstFree_succ, Wiring.addDevice, hc']

/-- The entry of `channels_torus` that the last node of a line finds. -/
theorem Scanned.carriedRing (hs : ∀ s ∈ size, 0 < s) {w : Wiring} {m : ℕ} {s : LineState}
    (h : Scanned true size k w m s) (hc : 0 < coordinate size k m) (hn : ¬hasNext size k m) :
    s.channelsTorus (m % stride size k) =
      some (linkChannel true size k w.channels m) := by
  have hpos := stride_pos hs k
  have hle : coordinate size k m * stride size k ≤ m := coordinate_mul_stride_le k m
  have hlt := Nat.mul_lt_mul_of_pos_right (coordinate_lt hs k m) hpos
  have hself := coordinate_sub_self hs (le_refl (coordinate size k m))
  have hmul := Nat.mul_le_mul_right (stride size k) hc
  have hmod : (m - coordinate size k m * stride size k) % stride size k =
      m % stride size k := by
    rw [Nat.mul_comm] at hle ⊢
    exact Nat.sub_mul_mod hle
  have hr := h.ring rfl (m - coordinate size k m * stride size k) (by omega) (by omega) (by
    rw [stride_succ, Nat.mul_comm (stride size k)]; omega)
  rw [hmod] at hr
  rw [hr, linkChannel, if_neg hn]

/-- One pass of the loop body. -/
theorem Scanned.wireNode_eq (hk : getNumberOfNodes size k = stride size k)
    (hk' : getNumberOfNodes size (k + 1) = stride size (k + 1)) (hs : ∀ s ∈ size, 0 < s)
    {w : Wiring} {m : ℕ} {s : LineState} (h : Scanned torus size k w m s) :
    wireNode torus size k s (m - m % stride size k) (m % stride size k) =
      ⟨⟨firstFree torus size k w.channels (m + 1),
          s.wiring.devices ++ devicesAt torus size k w.channels m⟩,
        Function.update s.channels (m % stride size k) (if hasNext size k m then
          some (firstFree torus size k w.channels m) else none),
        if torus ∧ coordinate size k m = 0 then
          Function.update s.channelsTorus (m % stride size k)
            (some (ringChannel torus size k w.channels m)) else s.channelsTorus⟩ := by
  have hm : m - m % stride size k + m % stride size k = m := Nat.sub_add_cancel (Nat.mod_le _ _)
  have hline := wireLine_eq torus (m - m % stride size k) (m % stride size k) w.channels
    hk hk' hs (by rw [hm]; exact h.channels_eq)
    (by rw [hm]; exact h.carried hs)
  rw [hm] at hline
  cases torus with
  | false => simp [wireNode, hline, firstFree_succ, devicesAt]
  | true =>
    have hring := wireRing_eq (m - m % stride size k) (m % stride size k) w.channels
      (s := wireLine size k (m - m % stride size k) (m % stride size k) s) hk hk' hs (by rw [hline, hm])
      (by rw [hline, hm]; exact h.carriedRing hs)
    rw [wireNode, if_pos rfl, hring, hline, hm]
    simp [devicesAt]

theorem Scanned.succ (hk : getNumberOfNodes size k = stride size k)
    (hk' : getNumberOfNodes size (k + 1) = stride size (k + 1)) (hs : ∀ s ∈ size, 0 < s)
    {w : Wiring} {m : ℕ} {s : LineState} (h : Scanned torus size k w m s) :
    Scanned torus size k w (m + 1)
      (wireNode torus size k s (m - m % stride size k) (m % stride size k)) := by
  rw [h.wireNode_eq hk hk' hs]
  constructor
  · rfl
  · simp [h.devices_eq, List.range_succ]
  · intro v hv hm
    dsimp only
    rcases Nat.lt_succ_iff_lt_or_eq.mp hv with hlt | rfl
    · rw [Function.update_of_ne (mod_ne_of_lt hlt (by omega))]
      exact h.line v hlt (by omega)
    · rw [Function.update_self]
  · intro j hj hjb
    have hne : j ≠ m % stride size k := by rw [Nat.mod_eq_of_lt (by omega)]; omega
    simp only [Function.update_of_ne hne]
    exact h.fresh j (by omega) hjb
  · intro ht v hv hc hm
    dsimp only
    rcases Nat.lt_succ_iff_lt_or_eq.mp hv with hlt | rfl
    · have hold := h.ring ht v hlt hc (by omega)
      split
      · next hmz =>
        -- two line starts in one block of lines have different offsets in it
        have hne := mod_ne_of_lt hlt (show m < v + stride size (k + 1) by omega)
        rw [mod_stride_succ, mod_stride_succ, hc, hmz.2, Nat.mul_zero, Nat.add_zero,
          Nat.add_zero] at hne
        rw [Function.update_of_ne hne, hold]
      · exact hold
    · rw [if_pos ⟨ht, hc⟩, Function.update_self]

theorem Scanned.zero (w : Wiring) :
    Scanned torus size k w 0 ⟨w, fun _ => none, fun _ => none⟩ := by
  constructor <;> simp [firstFree]

theorem Scanned.range (hk : getNumberOfNodes size k = stride size k)
    (hk' : getNumberOfNodes size (k + 1) = stride size (k + 1)) (hs : ∀ s ∈ size, 0 < s)
    (w : Wiring) (m : ℕ) : Scanned torus size k w m ((List.range m).foldl (fun s v =>
      wireNode torus size k s (v - v % stride size k) (v % stride size k))
        ⟨w, fun _ => none, fun _ => none⟩) := by
  induction m with
  | zero => exact Scanned.zero w
  | succ m ih =>
    rw [List.range_succ, List.foldl_append]
    exact ih.succ hk hk' hs

/-- What the loops of one dimension add. -/
theorem installDimension_eq (hs : ∀ s ∈ size, 0 < s) (hn : size.prod < 2 ^ 32)
    (hk : k < size.length) (w : Wiring) :
    installDimension torus size size.prod k w = ⟨firstFree torus size k w.channels size.prod,
      w.devices ++ (List.range size.prod).flatMap (devicesAt torus size k w.channels)⟩ := by
  have hk₀ := getNumberOfNodes_eq hs hn hk.le
  have hk₁ := getNumberOfNodes_eq hs hn (show k + 1 ≤ size.length from hk)
  obtain ⟨q, hq⟩ := stride_dvd_prod size hk.le
  rw [Nat.mul_comm] at hq
  have h : Scanned torus size k w size.prod _ := Scanned.range hk₀ hk₁ hs w size.prod
  rw [installDimension, hk₀]
  rw [hq] at h ⊢
  rw [foldl_strided (wireNode torus size k) q (stride_pos hs k)]
  exact congrArg₂ Wiring.mk h.channels_eq h.devices_eq

end Scan
section Links
variable (torus : Bool) (size : List ℕ)

/-- The number of channels created for the dimensions below `k`. -/
def dimensionBase : ℕ → ℕ
  | 0 => 0
  | k + 1 => firstFree torus size k (dimensionBase k) size.prod

/-- The channel of the link `v → next k v`. -/
def chan (k v : ℕ) : ℕ := linkChannel torus size k (dimensionBase torus size k) v

variable {torus size} {k : ℕ}

theorem install_eq (hs : ∀ s ∈ size, 0 < s) (hn : size.prod < 2 ^ 32) :
    install torus size size.prod = ⟨dimensionBase torus size size.length,
      (List.range size.length).flatMap (fun k => (List.range size.prod).flatMap
        (devicesAt torus size k (dimensionBase torus size k)))⟩ := by
  have hfirst : ∀ K ≤ size.length,
      (List.range K).foldl (fun w k => installDimension torus size size.prod k w) Wiring.empty =
        ⟨dimensionBase torus size K, (List.range K).flatMap (fun k =>
          (List.range size.prod).flatMap (devicesAt torus size k (dimensionBase torus size k)))⟩ := by
    intro K hK
    induction K with
    | zero => rfl
    | succ K ih =>
      rw [List.range_succ, List.foldl_append, ih (by omega), List.foldl_cons, List.foldl_nil,
        installDimension_eq hs hn (by omega)]
      simp [dimensionBase]
  exact hfirst size.length le_rfl

theorem next_of_hasNext {v : ℕ} (h : hasNext size k v) :
    next torus size k v = some (v + stride size k) := if_pos h

/-- Where a successor comes from: one step along the line, or around a ring. -/
theorem next_eq_some {v u : ℕ} (h : next torus size k v = some u) :
    (hasNext size k v ∧ u = v + stride size k) ∨
    (torus = true ∧ ¬hasNext size k v ∧ u = v - coordinate size k v * stride size k) := by
  unfold next at h
  split at h
  · next hn => exact .inl ⟨hn, (Option.some.inj h).symm⟩
  · next hn =>
    split at h
    · next ht => exact .inr ⟨ht, hn, (Option.some.inj h).symm⟩
    · cases h

theorem coordinate_next (hs : ∀ s ∈ size, 0 < s) {v : ℕ} (h : hasNext size k v) :
    coordinate size k (v + stride size k) = coordinate size k v + 1 := by
  have hadd := coordinate_add hs (c := 1) h k
  rwa [Nat.one_mul, if_pos rfl] at hadd

theorem next_lt (hs : ∀ s ∈ size, 0 < s) (hk : k < size.length) {v u : ℕ} (hv : v < size.prod)
    (h : next torus size k v = some u) : u < size.prod := by
  rcases next_eq_some h with ⟨hn, rfl⟩ | ⟨-, -, rfl⟩
  · simpa using add_lt_prod hs (c := 1) hk hv hn
  · omega

/-- The last node of the line that starts at `v`. -/
theorem ring_end (hs : ∀ s ∈ size, 0 < s) {v : ℕ} (hc : coordinate size k v = 0) :
    coordinate size k (v + (extent size k - 1) * stride size k) = extent size k - 1 := by
  have he := extent_pos hs k
  have hadd := coordinate_add hs (k := k) (c := extent size k - 1) (v := v) (by omega) k
  rwa [if_pos rfl, hc, Nat.zero_add] at hadd

theorem mem_devicesAt {base v : ℕ} {d : NocNetDevice} : d ∈ devicesAt torus size k base v ↔
    (0 < coordinate size k v ∧
      d = ⟨v, firstFree torus size k base (v - stride size k), .back, k⟩) ∨
    (hasNext size k v ∧ d = ⟨v, firstFree torus size k base v, .forward, k⟩) ∨
    ((torus = true ∧ coordinate size k v = 0) ∧
      d = ⟨v, ringChannel torus size k base v, .back, k⟩) ∨
    ((torus = true ∧ ¬hasNext size k v) ∧
      d = ⟨v, linkChannel torus size k base v, .forward, k⟩) := by
  unfold devicesAt
  simp only [List.mem_append, List.mem_ite_nil_right, List.mem_singleton]
  tauto

/-- Every device that the loops create is an end of one of the links. -/
theorem link_of_mem_devicesAt (hs : ∀ s ∈ size, 0 < s) (hk : k < size.length) {base v : ℕ}
    (hv : v < size.prod) {d : NocNetDevice} (hd : d ∈ devicesAt torus size k base v) :
    ∃ u < size.prod, ∃ u', next torus size k u = some u' ∧
      (d = ⟨u, linkChannel torus size k base u, .forward, k⟩ ∨
        d = ⟨u', linkChannel torus size k base u, .back, k⟩) := by
  rcases mem_devicesAt.mp hd with ⟨hc, rfl⟩ | ⟨hn, rfl⟩ | ⟨⟨ht, hc⟩, rfl⟩ | ⟨⟨ht, hn⟩, rfl⟩
  · have hprev := hasNext_sub hs hc
    refine ⟨v - stride size k, by omega, v, ?_, .inr ?_⟩
    · rw [next_of_hasNext hprev, Nat.sub_add_cancel (stride_le_of_coordinate_pos hc)]
    · rw [linkChannel, if_pos hprev]
  · exact ⟨v, hv, _, next_of_hasNext hn, .inl (by rw [linkChannel, if_pos hn])⟩
  · -- the back device of the wrap-around link whose other end closes the line
    have he := extent_pos hs k
    have hend := ring_end hs hc
    have hlast : ¬hasNext size k (v + (extent size k - 1) * stride size k) := by
      rw [not_hasNext_iff hs, hend]
      omega
    refine ⟨v + (extent size k - 1) * stride size k, add_lt_prod hs hk hv (by omega), v, ?_,
      .inr ?_⟩
    · rw [next, if_neg hlast, if_pos ht, hend, Nat.add_sub_cancel]
    · rw [linkChannel, if_neg hlast, hend, Nat.add_sub_cancel]
  · exact ⟨v, hv, _, by rw [next, if_neg hn, if_pos ht], .inl rfl⟩

/-- Both ends of every link are created. -/
theorem mem_devicesAt_of_link (hs : ∀ s ∈ size, 0 < s) {base u u' : ℕ}
    (h : next torus size k u = some u') :
    (⟨u, linkChannel torus size k base u, .forward, k⟩ ∈ devicesAt torus size k base u) ∧
    (⟨u', linkChannel torus size k base u, .back, k⟩ ∈ devicesAt torus size k base u') := by
  rcases next_eq_some h with ⟨hn, rfl⟩ | ⟨ht, hn, rfl⟩
  · have hc := coordinate_next hs hn
    constructor
    · exact mem_devicesAt.mpr (.inr (.inl ⟨hn, by rw [linkChannel, if_pos hn]⟩))
    · refine mem_devicesAt.mpr (.inl ⟨by omega, ?_⟩)
      rw [linkChannel, if_pos hn, Nat.add_sub_cancel]
  · constructor
    · exact mem_devicesAt.mpr (.inr (.inr (.inr ⟨⟨ht, hn⟩, rfl⟩)))
    · have hc := coordinate_sub_self hs (le_refl (coordinate size k u))
      refine mem_devicesAt.mpr (.inr (.inr (.inl ⟨⟨ht, by omega⟩, ?_⟩)))
      rw [linkChannel, if_neg hn]

variable (torus size k) in
theorem firstFree_mono (base : ℕ) {v v' : ℕ} (h : v ≤ v') :
    firstFree torus size k base v ≤ firstFree torus size k base v' := by
  induction v', h using Nat.le_induction with
  | base => exact le_rfl
  | succ v' _ ih =>
    refine ih.trans ?_
    rw [firstFree_succ, ringChannel]
    omega

/-- The node at which the channel of a link is created. -/
theorem linkChannel_created (hs : ∀ s ∈ size, 0 < s) (base : ℕ) {v u : ℕ}
    (h : next torus size k v = some u) :
    ∃ c ≤ v, firstFree torus size k base c ≤ linkChannel torus size k base v ∧
      linkChannel torus size k base v < firstFree torus size k base (c + 1) ∧
      (hasNext size k v ∧ c = v ∨ ¬hasNext size k v ∧ v = c + (extent size k - 1) * stride size k ∧
        linkChannel torus size k base v = ringChannel torus size k base c) := by
  rcases next_eq_some h with ⟨hn, -⟩ | ⟨ht, hn, -⟩
  · refine ⟨v, le_rfl, ?_, ?_, .inl ⟨hn, rfl⟩⟩
    · rw [linkChannel, if_pos hn]
    · rw [linkChannel, if_pos hn, firstFree_succ, ringChannel, if_pos hn]
      omega
  · have hc := coordinate_sub_self hs (le_refl (coordinate size k v))
    have hz : coordinate size k (v - coordinate size k v * stride size k) = 0 := by omega
    refine ⟨v - coordinate size k v * stride size k, Nat.sub_le _ _, ?_, ?_, .inr ⟨hn, ?_, ?_⟩⟩
    · rw [linkChannel, if_neg hn, ringChannel]
      omega
    · rw [linkChannel, if_neg hn, firstFree_succ, if_pos ⟨ht, hz⟩]
      omega
    · have hlast := (not_hasNext_iff hs v).mp hn
      rw [show extent size k - 1 = coordinate size k v by omega]
      exact (sub_add_cancel le_rfl).symm
    · rw [linkChannel, if_neg hn]

theorem linkChannel_bounds (hs : ∀ s ∈ size, 0 < s) {v u : ℕ} (hv : v < size.prod)
    (h : next torus size k v = some u) :
    dimensionBase torus size k ≤ chan torus size k v ∧
      chan torus size k v < dimensionBase torus size (k + 1) := by
  obtain ⟨c, hc, hlo, hhi, -⟩ := linkChannel_created hs (dimensionBase torus size k) h
  have hmono := firstFree_mono torus size k
    (dimensionBase torus size k) (show c + 1 ≤ size.prod by omega)
  refine ⟨(Nat.le_add_right _ _).trans hlo, hhi.trans_le hmono⟩

variable (torus size) in
theorem dimensionBase_mono {k k' : ℕ} (h : k ≤ k') :
    dimensionBase torus size k ≤ dimensionBase torus size k' := by
  induction k', h using Nat.le_induction with
  | base => exact le_rfl
  | succ k' _ ih => exact ih.trans (Nat.le_add_right _ _)

theorem linkChannel_inj (hs : ∀ s ∈ size, 0 < s) (base : ℕ) {v v' : ℕ}
    (h : (next torus size k v).isSome) (h' : (next torus size k v').isSome)
    (he : linkChannel torus size k base v = linkChannel torus size k base v') : v = v' := by
  obtain ⟨u, hu⟩ := Option.isSome_iff_exists.mp h
  obtain ⟨u', hu'⟩ := Option.isSome_iff_exists.mp h'
  obtain ⟨c, -, hlo, hhi, hcase⟩ := linkChannel_created hs base hu
  obtain ⟨c', -, hlo', hhi', hcase'⟩ := linkChannel_created hs base hu'
  have hcc : c = c' := by
    by_contra hne
    rcases Nat.lt_or_gt_of_ne hne with hlt | hlt
    · have := firstFree_mono torus size k base
        (show c + 1 ≤ c' from hlt)
      omega
    · have := firstFree_mono torus size k base
        (show c' + 1 ≤ c from hlt)
      omega
  subst hcc
  rcases hcase with ⟨hn, rfl⟩ | ⟨hn, hv, hr⟩ <;> rcases hcase' with ⟨hn', rfl⟩ | ⟨hn', hv', hr'⟩
  · rfl
  · -- the first node of a line creates its own link before the wrap-around channel
    rw [hr', linkChannel, if_pos hn, ringChannel, if_pos hn] at he
    omega
  · rw [hr, linkChannel, if_pos hn', ringChannel, if_pos hn'] at he
    omega
  · rw [hv, hv']

theorem next_inj (hs : ∀ s ∈ size, 0 < s) {v v' u : ℕ} (h : next torus size k v = some u)
    (h' : next torus size k v' = some u) : v = v' := by
  rcases next_eq_some h with ⟨hn, hu⟩ | ⟨-, hn, hu⟩ <;>
    rcases next_eq_some h' with ⟨hn', hu'⟩ | ⟨-, hn', hu'⟩
  · omega
  · have hc := coordinate_next hs hn
    have hc' := coordinate_sub_self hs (le_refl (coordinate size k v'))
    rw [← hu'] at hc'
    rw [← hu] at hc
    omega
  · have hc := coordinate_next hs hn'
    have hc' := coordinate_sub_self hs (le_refl (coordinate size k v))
    rw [← hu] at hc'
    rw [← hu'] at hc
    omega
  · rw [not_hasNext_iff hs] at hn hn'
    have hsub := sub_add_cancel (le_refl (coordinate size k v))
    have hsub' := sub_add_cancel (le_refl (coordinate size k v'))
    rw [← hu] at hsub
    rw [← hu', show coordinate size k v' = coordinate size k v by omega] at hsub'
    exact hsub.symm.trans hsub'

/-- The builders realise exactly the links `v → next k v` of the mesh or torus. -/
theorem install_linkedBy (hs : ∀ s ∈ size, 0 < s) (hn : size.prod < 2 ^ 32) :
    LinkedBy (install torus size size.prod) size.length size.prod (next torus size)
      (chan torus size) := by
  rw [install_eq hs hn]
  constructor
  · intro d
    simp only [List.mem_flatMap, List.mem_range]
    constructor
    · rintro ⟨k, hk, v, hv, hd⟩
      exact ⟨k, hk, link_of_mem_devicesAt hs hk hv hd⟩
    · rintro ⟨k, hk, v, hv, v', hnext, rfl | rfl⟩
      · exact ⟨k, hk, v, hv, (mem_devicesAt_of_link hs hnext).1⟩
      · exact ⟨k, hk, v', next_lt hs hk hv hnext, (mem_devicesAt_of_link hs hnext).2⟩
  · intro k _ k' _ v hv v' hv' h h' he
    obtain ⟨u, hu⟩ := Option.isSome_iff_exists.mp h
    obtain ⟨u', hu'⟩ := Option.isSome_iff_exists.mp h'
    have hb := linkChannel_bounds hs hv hu
    have hb' := linkChannel_bounds hs hv' hu'
    have hkk : k = k' := by
      by_contra hne
      rcases Nat.lt_or_gt_of_ne hne with hlt | hlt
      · have := dimensionBase_mono torus size (show k + 1 ≤ k' from hlt)
        omega
      · have := dimensionBase_mono torus size (show k' + 1 ≤ k from hlt)
        omega
    subst hkk
    exact ⟨rfl, linkChannel_inj hs _ h h' he⟩
  · intro k _ v _ v' _ u hu hu'
    exact next_inj hs hu hu'

end Links
end Ns3Noc.DimensionWiring
