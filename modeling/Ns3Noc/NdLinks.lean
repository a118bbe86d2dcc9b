import Mathlib.Data.List.Nodup
import Ns3Noc.NdTopologies

/-!
# The links of the n-dimensional builders

`LinkedBy` says which devices there are. Here the devices are counted as well: no device and no
channel is created twice, and none is left over.
-/
namespace Ns3Noc
open MixedRadixIndices DimensionWiring

namespace Wiring

/-- Channel `c` has two devices: FORWARD in dimension `k` at node `v`, and BACK at node `u`. -/
def Joins (w : Wiring) (c k v u : ℕ) : Prop :=
  (w.channelDevices c).Perm [⟨v, c, .forward, k⟩, ⟨u, c, .back, k⟩]

/-- There is one channel for each link, and nothing else. -/
structure Realises (w : Wiring) (link : ℕ → ℕ → ℕ → Prop) : Prop where
  channel : ∀ c < w.channels, ∃ k v u, link k v u ∧ w.Joins c k v u
  unique : ∀ k v u, link k v u → ∃! c, c < w.channels ∧ w.Joins c k v u
  device : ∀ d ∈ w.devices, d.channel < w.channels

theorem Joins.inj {w : Wiring} {c k v u k' v' u' : ℕ} (h : w.Joins c k v u)
    (h' : w.Joins c k' v' u') : k' = k ∧ v' = v ∧ u' = u := by
  have hf : (⟨v', c, .forward, k'⟩ : NocNetDevice) ∈
      [(⟨v, c, .forward, k⟩ : NocNetDevice), ⟨u, c, .back, k⟩] :=
    h.subset (h'.symm.subset List.mem_cons_self)
  have hb : (⟨u', c, .back, k'⟩ : NocNetDevice) ∈
      [(⟨v, c, .forward, k⟩ : NocNetDevice), ⟨u, c, .back, k⟩] :=
    h.subset (h'.symm.subset (List.mem_cons_of_mem _ List.mem_cons_self))
  simp at hf hb
  exact ⟨hf.2, hf.1, hb.1⟩

end Wiring

/-- A wiring without duplicates, whose channels all have a device. -/
structure Tight (w : Wiring) : Prop where
  nodup : w.devices.Nodup
  device : ∀ d ∈ w.devices, d.channel < w.channels
  channel : ∀ c < w.channels, ∃ d ∈ w.devices, d.channel = c

namespace LinkedBy
variable {w : Wiring} {dimensions nodes : ℕ} {next : ℕ → ℕ → Option ℕ} {chan : ℕ → ℕ → ℕ}
variable {k v u : ℕ}

theorem joins (h : LinkedBy w dimensions nodes next chan) (ht : Tight w) (hk : k < dimensions)
    (hv : v < nodes) (hn : next k v = some u) : w.Joins (chan k v) k v u := by
  refine (List.perm_ext_iff_of_nodup (ht.nodup.filter _) (by simp)).mpr ?_
  intro d
  rw [← Wiring.channelDevices, Wiring.mem_channelDevices, List.mem_cons, List.mem_singleton]
  constructor
  · rintro ⟨hd, hc⟩
    exact h.channel_eq hk hv hn hd hc
  · rintro (rfl | rfl)
    · exact ⟨h.forward_mem hk hv hn, rfl⟩
    · exact ⟨h.back_mem hk hv hn, rfl⟩

/-- Exactly the links of the abstract view are realised. -/
theorem realises (h : LinkedBy w dimensions nodes next chan) (ht : Tight w) :
    w.Realises (fun k v u => k < dimensions ∧ v < nodes ∧ next k v = some u) := by
  have hlink : ∀ c < w.channels, ∃ k < dimensions, ∃ v < nodes, ∃ u,
      next k v = some u ∧ c = chan k v := by
    intro c hc
    obtain ⟨d, hd, rfl⟩ := ht.channel c hc
    obtain ⟨k, hk, v, hv, u, hn, rfl | rfl⟩ := (h.mem_devices d).mp hd
    · exact ⟨k, hk, v, hv, u, hn, rfl⟩
    · exact ⟨k, hk, v, hv, u, hn, rfl⟩
  constructor
  · intro c hc
    obtain ⟨k, hk, v, hv, u, hn, rfl⟩ := hlink c hc
    exact ⟨k, v, u, ⟨hk, hv, hn⟩, h.joins ht hk hv hn⟩
  · rintro k v u ⟨hk, hv, hn⟩
    refine ⟨chan k v, ⟨ht.device _ (h.forward_mem hk hv hn), h.joins ht hk hv hn⟩, ?_⟩
    rintro c ⟨hc, hjoins⟩
    obtain ⟨k', hk', v', hv', u', hn', rfl⟩ := hlink c hc
    obtain ⟨rfl, rfl, -⟩ := (h.joins ht hk' hv' hn').inj hjoins
    rfl
  · exact ht.device

/-- The only forward device of the lower end of a link. -/
theorem forward_ports (h : LinkedBy w dimensions nodes next chan) (ht : Tight w)
    (hk : k < dimensions) (hv : v < nodes) (hn : next k v = some u) :
    w.devices.filter (fun d => d.node = v ∧ d.routingDirection = .forward ∧
      d.routingDimension = k) = [⟨v, chan k v, .forward, k⟩] := by
  refine List.perm_singleton.mp
    ((List.perm_ext_iff_of_nodup (ht.nodup.filter _) (List.nodup_singleton _)).mpr ?_)
  intro d
  rw [List.mem_filter, List.mem_singleton, decide_eq_true_eq]
  constructor
  · rintro ⟨hd, hnode, hdir, hdim⟩
    obtain ⟨k', hk', v', hv', u', hn', rfl | rfl⟩ := (h.mem_devices d).mp hd
    · simp only at hnode hdim
      subst hnode hdim
      rfl
    · cases hdir
  · rintro rfl
    exact ⟨h.forward_mem hk hv hn, rfl, rfl, rfl⟩

/-- The only back device of the upper end of a link. -/
theorem back_ports (h : LinkedBy w dimensions nodes next chan) (ht : Tight w)
    (hk : k < dimensions) (hv : v < nodes) (hn : next k v = some u) :
    w.devices.filter (fun d => d.node = u ∧ d.routingDirection = .back ∧
      d.routingDimension = k) = [⟨u, chan k v, .back, k⟩] := by
  refine List.perm_singleton.mp
    ((List.perm_ext_iff_of_nodup (ht.nodup.filter _) (List.nodup_singleton _)).mpr ?_)
  intro d
  rw [List.mem_filter, List.mem_singleton, decide_eq_true_eq]
  constructor
  · rintro ⟨hd, hnode, hdir, hdim⟩
    obtain ⟨k', hk', v', hv', u', hn', rfl | rfl⟩ := (h.mem_devices d).mp hd
    · cases hdir
    · simp only at hnode hdim
      subst hnode hdim
      rw [h.next_inj k' hk v hv v' hv' u' hn hn']
  · rintro rfl
    exact ⟨h.back_mem hk hv hn, rfl, rfl, rfl⟩

end LinkedBy

namespace DimensionWiring
variable {torus : Bool} {size : List ℕ} {k : ℕ}

theorem devicesAt_nodup (base v : ℕ) : (devicesAt torus size k base v).Nodup := by
  unfold devicesAt
  rcases Nat.eq_zero_or_pos (coordinate size k v) with hc | hc
  · by_cases hn : hasNext size k v <;> cases torus <;> simp [hc, hn]
  · by_cases hn : hasNext size k v <;> cases torus <;> simp [hc, hc.ne', hn]

theorem install_nodup (hs : ∀ s ∈ size, 0 < s) (hn : size.prod < 2 ^ 32) :
    (install torus size size.prod).devices.Nodup := by
  have hplace : ∀ {k base v d}, d ∈ devicesAt torus size k base v →
      d.node = v ∧ d.routingDimension = k := by
    intro k base v d hd
    rcases mem_devicesAt.mp hd with ⟨-, rfl⟩ | ⟨-, rfl⟩ | ⟨-, rfl⟩ | ⟨-, rfl⟩ <;> exact ⟨rfl, rfl⟩
  rw [install_eq hs hn]
  refine List.nodup_flatMap.mpr ⟨fun k _ => List.nodup_flatMap.mpr
    ⟨fun v _ => devicesAt_nodup _ v, ?_⟩, ?_⟩
  · refine List.nodup_range.imp ?_
    intro v v' hne d hd hd'
    exact hne ((hplace hd).1.symm.trans (hplace hd').1)
  · refine List.nodup_range.imp ?_
    intro k k' hne d hd hd'
    obtain ⟨v, -, hd⟩ := List.mem_flatMap.mp hd
    obtain ⟨v', -, hd'⟩ := List.mem_flatMap.mp hd'
    exact hne ((hplace hd).2.symm.trans (hplace hd').2)

/-- Every channel that the loops create gets its first device where it is created. -/
theorem created_used (base m : ℕ) {c : ℕ} (hb : base ≤ c)
    (hc : c < firstFree torus size k base m) :
    ∃ v < m, ∃ d ∈ devicesAt torus size k base v, d.channel = c := by
  induction m with
  | zero =>
    rw [firstFree, List.range_zero, List.map_nil, List.sum_nil] at hc
    omega
  | succ m ih =>
    by_cases hold : c < firstFree torus size k base m
    · obtain ⟨v, hv, hd⟩ := ih hold
      exact ⟨v, by omega, hd⟩
    · refine ⟨m, by omega, ?_⟩
      rw [firstFree_succ, ringChannel] at hc
      by_cases hn : hasNext size k m
      · by_cases hfirst : c = firstFree torus size k base m
        · exact ⟨_, mem_devicesAt.mpr (.inr (.inl ⟨hn, rfl⟩)), hfirst.symm⟩
        · rw [if_pos hn] at hc
          split at hc
          · rename_i hring
            refine ⟨_, mem_devicesAt.mpr (.inr (.inr (.inl ⟨hring, rfl⟩))), ?_⟩
            dsimp only
            rw [ringChannel, if_pos hn]
            omega
          · omega
      · rw [if_neg hn] at hc
        split at hc
        · rename_i hring
          refine ⟨_, mem_devicesAt.mpr (.inr (.inr (.inl ⟨hring, rfl⟩))), ?_⟩
          dsimp only
          rw [ringChannel, if_neg hn]
          omega
        · omega

theorem install_tight (hs : ∀ s ∈ size, 0 < s) (hn : size.prod < 2 ^ 32) :
    Tight (install torus size size.prod) := by
  refine ⟨install_nodup hs hn, ?_, ?_⟩
  · intro d hd
    obtain ⟨k, hk, v, hv, u, hnext, h⟩ := ((install_linkedBy hs hn).mem_devices d).mp hd
    have hc : d.channel = chan torus size k v := by rcases h with rfl | rfl <;> rfl
    rw [install_eq hs hn, hc]
    exact (linkChannel_bounds hs hv hnext).2.trans_le (dimensionBase_mono torus size hk)
  · rw [install_eq hs hn]
    -- the dimension whose channels are counted around `c`
    have hdimension : ∀ K c, c < dimensionBase torus size K →
        ∃ k < K, dimensionBase torus size k ≤ c ∧ c < dimensionBase torus size (k + 1) := by
      intro K c hc
      induction K with
      | zero => exact absurd hc (Nat.not_lt_zero c)
      | succ K ih =>
        rcases Nat.lt_or_ge c (dimensionBase torus size K) with hlt | hge
        · obtain ⟨k, hk, hlo, hhi⟩ := ih hlt
          exact ⟨k, by omega, hlo, hhi⟩
        · exact ⟨K, by omega, hge, hc⟩
    intro c hc
    obtain ⟨k, hk, hlo, hhi⟩ := hdimension _ c hc
    obtain ⟨v, hv, d, hd, hdc⟩ := created_used _ _ hlo hhi
    refine ⟨d, List.mem_flatMap.mpr ⟨k, List.mem_range.mpr hk, ?_⟩, hdc⟩
    exact List.mem_flatMap.mpr ⟨v, List.mem_range.mpr hv, hd⟩

variable (size) in
/-- The nodes agree in every dimension but `k`. -/
def SameLine (k v u : ℕ) : Prop :=
  ∀ j < size.length, j ≠ k → coordinate size j v = coordinate size j u

variable (size) in
/-- The coordinates of the nodes differ by one in dimension `k` only; `v` is the lower node. -/
def Adjacent (k v u : ℕ) : Prop :=
  k < size.length ∧ v < size.prod ∧ u < size.prod ∧
    coordinate size k u = coordinate size k v + 1 ∧ SameLine size k v u

variable (size) in
/-- `v` is the last node and `u` the first one of a line of dimension `k`. -/
def Wraps (k v u : ℕ) : Prop :=
  k < size.length ∧ v < size.prod ∧ u < size.prod ∧
    coordinate size k v + 1 = extent size k ∧ coordinate size k u = 0 ∧ SameLine size k v u

theorem eq_of_sameLine {v u : ℕ} (hv : v < size.prod) (hu : u < size.prod)
    (hline : SameLine size k v u) (hk : coordinate size k v = coordinate size k u) : v = u := by
  refine eq_of_coordinates hv hu (fun j hj => ?_)
  by_cases hjk : j = k
  · rw [hjk, hk]
  · exact hline j hj hjk

theorem sameLine_next (hs : ∀ s ∈ size, 0 < s) {v : ℕ} (hn : hasNext size k v) :
    SameLine size k v (v + stride size k) := by
  intro j _ hjk
  have hadd := coordinate_add hs (c := 1) hn j
  rwa [Nat.one_mul, if_neg hjk, eq_comm] at hadd

theorem sameLine_first (hs : ∀ s ∈ size, 0 < s) (v : ℕ) :
    SameLine size k v (v - coordinate size k v * stride size k) := by
  intro j _ hjk
  rw [coordinate_sub hs le_rfl j, if_neg hjk]

theorem adjacent_iff (hs : ∀ s ∈ size, 0 < s) {v u : ℕ} :
    Adjacent size k v u ↔
      k < size.length ∧ v < size.prod ∧ hasNext size k v ∧ u = v + stride size k := by
  constructor
  · rintro ⟨hk, hv, hu, hc, hline⟩
    have hn : hasNext size k v := by
      have := coordinate_lt hs k u
      unfold hasNext
      omega
    refine ⟨hk, hv, hn, ?_⟩
    have hlt : v + stride size k < size.prod := by
      rw [← Nat.one_mul (stride size k)]
      exact add_lt_prod hs hk hv hn
    apply eq_of_sameLine hu hlt
    · intro j hj hjk
      exact (hline j hj hjk).symm.trans (sameLine_next hs hn j hj hjk)
    · rw [hc, coordinate_next hs hn]
  · rintro ⟨hk, hv, hn, rfl⟩
    have hlt : v + stride size k < size.prod := by
      rw [← Nat.one_mul (stride size k)]
      exact add_lt_prod hs hk hv hn
    exact ⟨hk, hv, hlt, coordinate_next hs hn, sameLine_next hs hn⟩

theorem wraps_iff (hs : ∀ s ∈ size, 0 < s) {v u : ℕ} :
    Wraps size k v u ↔ k < size.length ∧ v < size.prod ∧ ¬hasNext size k v ∧
      u = v - coordinate size k v * stride size k := by
  have hfirst : coordinate size k (v - coordinate size k v * stride size k) = 0 := by
    rw [coordinate_sub hs le_rfl k, if_pos rfl, Nat.sub_self]
  constructor
  · rintro ⟨hk, hv, hu, hlast, hzero, hline⟩
    refine ⟨hk, hv, (not_hasNext_iff hs v).mpr hlast, ?_⟩
    apply eq_of_sameLine hu (by omega)
    · intro j hj hjk
      exact (hline j hj hjk).symm.trans (sameLine_first hs v j hj hjk)
    · rw [hzero, hfirst]
  · rintro ⟨hk, hv, hn, rfl⟩
    exact ⟨hk, hv, by omega, (not_hasNext_iff hs v).mp hn, hfirst, sameLine_first hs v⟩

/-- The links of a mesh are the adjacent pairs; a torus closes the lines as well. -/
theorem next_iff (hs : ∀ s ∈ size, 0 < s) {v u : ℕ} :
    (k < size.length ∧ v < size.prod ∧ next torus size k v = some u) ↔
      Adjacent size k v u ∨ torus = true ∧ Wraps size k v u := by
  rw [adjacent_iff hs, wraps_iff hs]
  constructor
  · rintro ⟨hk, hv, hn⟩
    rcases next_eq_some hn with ⟨hn, hu⟩ | ⟨ht, hn, hu⟩
    · exact Or.inl ⟨hk, hv, hn, hu⟩
    · exact Or.inr ⟨ht, hk, hv, hn, hu⟩
  · rintro (⟨hk, hv, hn, rfl⟩ | ⟨ht, hk, hv, hn, rfl⟩)
    · exact ⟨hk, hv, next_of_hasNext hn⟩
    · exact ⟨hk, hv, by rw [next, if_neg hn, if_pos ht]⟩

variable (torus) in
theorem install_realises (hs : ∀ s ∈ size, 0 < s) (hn : size.prod < 2 ^ 32) :
    (install torus size size.prod).Realises
      (fun k v u => Adjacent size k v u ∨ torus = true ∧ Wraps size k v u) := by
  have h := (@install_linkedBy torus size hs hn).realises (install_tight hs hn)
  have hlink : (fun k v u => k < size.length ∧ v < size.prod ∧ next torus size k v = some u) =
      fun k v u => Adjacent size k v u ∨ torus = true ∧ Wraps size k v u := by
    funext k v u
    exact propext (next_iff hs)
  rwa [hlink] at h

/-- In a torus every node has a successor and a predecessor. -/
theorem ring_neighbours (hs : ∀ s ∈ size, 0 < s) (hk : k < size.length) {v : ℕ}
    (hv : v < size.prod) :
    (∃ u, next true size k v = some u) ∧ ∃ u < size.prod, next true size k u = some v := by
  constructor
  · by_cases hn : hasNext size k v
    · exact ⟨_, next_of_hasNext hn⟩
    · exact ⟨_, by rw [next, if_neg hn, if_pos rfl]⟩
  · have hback : ∃ d ∈ devicesAt true size k 0 v, d.routingDirection = .back := by
      rcases Nat.eq_zero_or_pos (coordinate size k v) with hc | hc
      · exact ⟨_, mem_devicesAt.mpr (.inr (.inr (.inl ⟨⟨rfl, hc⟩, rfl⟩))), rfl⟩
      · exact ⟨_, mem_devicesAt.mpr (.inl ⟨hc, rfl⟩), rfl⟩
    obtain ⟨d, hd, hdir⟩ := hback
    have hnode : d.node = v := by
      rcases mem_devicesAt.mp hd with ⟨-, rfl⟩ | ⟨-, rfl⟩ | ⟨-, rfl⟩ | ⟨-, rfl⟩ <;> rfl
    obtain ⟨u, hu, u', hnext, rfl | rfl⟩ := link_of_mem_devicesAt hs hk hv hd
    · cases hdir
    · exact ⟨u, hu, hnode ▸ hnext⟩

end DimensionWiring

namespace NocTorusND
variable {size : List ℕ} {k : ℕ}

/-- The device of each direction at every node and the wrap channel of every line. -/
structure Rings (size : List ℕ) (w : Wiring) : Prop where
  line : ∀ k < size.length, ∀ x < size.prod, ∃! c, c < w.channels ∧
    ∃ v u, SameLine size k x v ∧ Wraps size k v u ∧ w.Joins c k v u
  forward : ∀ k < size.length, ∀ v < size.prod, (w.devices.filter (fun d => d.node = v ∧
    d.routingDirection = .forward ∧ d.routingDimension = k)).length = 1
  back : ∀ k < size.length, ∀ v < size.prod, (w.devices.filter (fun d => d.node = v ∧
    d.routingDirection = .back ∧ d.routingDimension = k)).length = 1

theorem install_rings (hs : ∀ s ∈ size, 0 < s) (hn : size.prod < 2 ^ 32) :
    Rings size (install size size.prod) := by
  have hl : LinkedBy (install size size.prod) size.length size.prod _ _ :=
    install_linkedBy hs hn
  have ht : Tight (install size size.prod) := install_tight hs hn
  have hr := install_realises true hs hn
  constructor
  · intro k hk x hx
    -- the end of the line of `x`
    obtain ⟨v, hline, hv, hlast⟩ : ∃ v, SameLine size k x v ∧ v < size.prod ∧
        ¬hasNext size k v := by
      have he := extent_pos hs k
      have hlt := coordinate_lt hs k x
      have hmove : coordinate size k x + (extent size k - 1 - coordinate size k x) <
        extent size k := by omega
      refine ⟨x + (extent size k - 1 - coordinate size k x) * stride size k, ?_,
        add_lt_prod hs hk hx hmove, ?_⟩
      · intro j _ hjk
        rw [coordinate_add hs hmove j, if_neg hjk]
      · rw [not_hasNext_iff hs, coordinate_add hs hmove k, if_pos rfl]
        omega
    have hwrap : Wraps size k v (v - coordinate size k v * stride size k) :=
      (wraps_iff hs).mpr ⟨hk, hv, hlast, rfl⟩
    obtain ⟨c, ⟨hc, hj⟩, huniq⟩ := hr.unique k v _ (Or.inr ⟨rfl, hwrap⟩)
    refine ⟨c, ⟨hc, v, _, hline, hwrap, hj⟩, ?_⟩
    rintro c' ⟨hc', v', u', hline', hwrap', hj'⟩
    have hvv : v' = v := by
      refine eq_of_sameLine (k := k) hwrap'.2.1 hv ?_ ?_
      · exact fun j hj hjk => (hline' j hj hjk).symm.trans (hline j hj hjk)
      · have h' := hwrap'.2.2.2.1
        have h := hwrap.2.2.2.1
        omega
    subst hvv
    obtain ⟨-, -, -, rfl⟩ := (wraps_iff hs).mp hwrap'
    exact huniq c' ⟨hc', hj'⟩
  · intro k hk v hv
    obtain ⟨u, hu⟩ := (ring_neighbours hs hk hv).1
    rw [hl.forward_ports ht hk hv hu]
    rfl
  · intro k hk v hv
    obtain ⟨u, hu, hnext⟩ := (ring_neighbours hs hk hv).2
    rw [hl.back_ports ht hk hu hnext]
    rfl

end NocTorusND

/-- The mesh has one channel for each adjacent pair; the torus has one more for each line, so
that every node has one device in either direction of each dimension. -/
theorem install_links {size : List ℕ} (hs : ∀ s ∈ size, 1 ≤ s) (hn : size.prod < 2 ^ 32) :
    (NocMeshND.install size size.prod).Realises (Adjacent size) ∧
      ((∀ s ∈ size, 2 ≤ s) →
        (NocTorusND.install size size.prod).Realises
            (fun k v u => Adjacent size k v u ∨ Wraps size k v u) ∧
          NocTorusND.Rings size (NocTorusND.install size size.prod)) := by
  have hmesh := install_realises false hs hn
  have htorus := install_realises true hs hn
  simp only [Bool.false_eq_true, false_and, or_false, true_and] at hmesh htorus
  exact ⟨hmesh, fun _ => ⟨htorus, NocTorusND.install_rings hs hn⟩⟩

/-- A torus of two by three nodes. -/
theorem install_links_two_three :
    (NocMeshND.install [2, 3] 6).Realises (Adjacent [2, 3]) ∧
      (NocTorusND.install [2, 3] 6).Realises
          (fun k v u => Adjacent [2, 3] k v u ∨ Wraps [2, 3] k v u) ∧
        NocTorusND.Rings [2, 3] (NocTorusND.install [2, 3] 6) := by
  have h := @install_links [2, 3] (by decide) (by decide)
  exact ⟨h.1, h.2 (by decide)⟩

end Ns3Noc
