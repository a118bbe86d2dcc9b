import Ns3Noc.AdaptiveHeader

/-!
# Whether adaptive routing finds an output

`DoRoutingFunction` leaves out every device with the direction of the source device, in
both dimensions. A flit that came through the FORWARD device of one dimension therefore
cannot leave through the FORWARD device of the other.
-/
namespace Ns3Noc
open MeshWiring2D
open RoutingDirection (towards towards_eq_forward towards_eq_back)

namespace NocMesh2D
variable {hSize rows destination : ℕ}

/-- What `RequestNewRoute` takes for granted of the routing and the selection function. -/
structure FindsOutput (r : AdaptiveRouting) (w : Wiring) (s : AdaptiveFlit)
    (env : Surroundings) : Prop where
  nonempty : candidates r w s ≠ []
  progressive : ∃ d ∈ candidates r w s, isProgressiveDirection s.header d = true
  indexed : ∃ vector, r.indexedDevices env s.header (candidates r w s) = some vector ∧ vector ≠ []

/-- In every dimension with an offset left the router has a device in its direction. -/
theorem exists_device_towards (hh : 0 < hSize) (hd : destination < rows * hSize)
    {s : AdaptiveFlit} (hs : HeaderTruthful hSize rows destination s) {k : ℕ} (hk : k < 2)
    (hne : s.header.signedOffset k ≠ 0) :
    ∃ d ∈ (install hSize (rows * hSize)).getOutputNetDevices s.node,
      d.routingDimension = k ∧ d.routingDirection = towards (s.header.signedOffset k) := by
  have hv : s.node < rows * hSize := hs.node_lt
  have hoff : s.header.signedOffset k = displacement hSize k s.node destination :=
    hs.offsets k hk
  have hdm := Nat.mod_lt destination hh
  have hdr := (Nat.div_lt_iff_lt_mul hh).mpr hd
  have hmem : ∀ d : NocNetDevice, d ∈ (install hSize (rows * hSize)).devices → d.node = s.node →
      d ∈ (install hSize (rows * hSize)).getOutputNetDevices s.node := fun d h h' =>
    Wiring.mem_getOutputNetDevices.mpr ⟨h, h'⟩
  have hdev := fun d => mem_devices rows .back .forward hh hh (d := d)
  interval_cases k
  · simp only [displacement] at hoff
    rcases lt_or_gt_of_ne hne with hneg | hpos
    · have hw : hasWest hSize s.node := hasWest_of_pos (by omega)
      have hpred : s.node - 1 + 1 = s.node := Nat.sub_add_cancel hw.1
      exact ⟨⟨s.node, eastChannel hSize (s.node - 1), .back, 0⟩,
        hmem _ ((hdev _).mpr (.inl ⟨s.node - 1, by omega, hw.2, by rw [hpred]⟩)) rfl, rfl,
        ((towards_eq_back hne).mpr hneg).symm⟩
    · have he : hasEast hSize s.node := hasEast_of_lt hh (by omega)
      exact ⟨⟨s.node, eastChannel hSize s.node, .forward, 0⟩,
        hmem _ ((hdev _).mpr (.inr (.inl ⟨s.node, hv, he, rfl⟩))) rfl, rfl,
        (towards_eq_forward.mpr hpos).symm⟩
  · simp only [displacement] at hoff
    have hcell : ∀ t, nodeAt hSize hSize t = t := by
      intro t
      rw [nodeAt, Nat.mod_mod, Nat.div_add_mod']
    rcases lt_or_gt_of_ne hne with hneg | hpos
    · have hle : hSize ≤ s.node := by
        have h0 := Int.natCast_nonneg (destination / hSize)
        rw [← Nat.one_le_div_iff hh]
        omega
      have hlt : s.node - hSize < (rows - 1) * hSize := by
        rw [Nat.sub_one_mul]
        omega
      refine ⟨_, hmem _ ((hdev _).mpr (.inr (.inr (.inl ⟨s.node - hSize, hlt, rfl⟩)))) ?_, rfl,
        ((towards_eq_back hne).mpr hneg).symm⟩
      dsimp only
      rw [hcell, Nat.sub_add_cancel hle]
    · have hlt : s.node < (rows - 1) * hSize := by
        rw [← Nat.div_lt_iff_lt_mul hh]
        omega
      exact ⟨_, hmem _ ((hdev _).mpr (.inr (.inr (.inr ⟨s.node, hlt, rfl⟩)))) (hcell _), rfl,
        (towards_eq_forward.mpr hpos).symm⟩

/-- A progressive candidate exists exactly when some dimension with an offset left needs
another direction than that of the source device. -/
theorem exists_progressive_iff (hh : 0 < hSize) (hd : destination < rows * hSize)
    (r : AdaptiveRouting) {s : AdaptiveFlit} (hs : HeaderTruthful hSize rows destination s) :
    (∃ d ∈ candidates r (install hSize (rows * hSize)) s,
        isProgressiveDirection s.header d = true) ↔
      ∃ k < 2, s.header.signedOffset k ≠ 0 ∧ towards (s.header.signedOffset k) ≠ s.source := by
  constructor
  · rintro ⟨d, hmem, hp⟩
    obtain ⟨k, hk, -, hsign⟩ := AdaptiveRouting.isProgressiveDirection_iff.mp hp
    have hdir := (AdaptiveRouting.mem_of_mem_doRoutingFunction hmem).2
    have hne : s.header.signedOffset k ≠ 0 := by omega
    refine ⟨k, hk, hne, ?_⟩
    rcases hsign with ⟨hpos, h⟩ | ⟨hneg, h⟩
    · rwa [towards_eq_forward.mpr hpos, ← h]
    · rwa [(towards_eq_back hne).mpr hneg, ← h]
  · rintro ⟨k, hk, hne, hdir⟩
    obtain ⟨d, hmem, hdim, hdd⟩ := exists_device_towards hh hd hs hk hne
    have hp : isProgressiveDirection s.header d = true := by
      refine AdaptiveRouting.isProgressiveDirection_iff.mpr ⟨k, hk, hdim, ?_⟩
      rw [hdd, towards_eq_forward, towards_eq_back hne]
      omega
    exact ⟨d, (AdaptiveRouting.mem_doRoutingFunction_of_progressive hp).mpr
      ⟨hmem, hdd ▸ hdir⟩, hp⟩

/-- The selection of `SlbRouting` is empty exactly when every candidate is loaded. -/
theorem indexed_slb_iff (env : Surroundings) (header : NocHeader) (devices : List NocNetDevice) :
    (∃ vector, (AdaptiveRouting.slb {}).indexedDevices env header devices = some vector ∧
        vector ≠ []) ↔ ∃ d ∈ devices, env.neighborLoad d ≤ 50 := by
  have hnil : (AdaptiveRouting.slb {}).selectedDevices env header devices ≠ [] ↔
      ∃ d ∈ devices, env.neighborLoad d ≤ 50 := by
    rw [AdaptiveRouting.selectedDevices, ne_eq, BestOf.bestOf_eq_nil]
    push Not
    simp only [AdaptiveRouting.evaluate, AdaptiveRouting.floor_le_evaluate_slb]
  constructor
  · rintro ⟨vector, h, hne⟩
    rw [← Option.some.inj h] at hne
    exact hnil.mp hne
  · intro h
    exact ⟨_, rfl, hnil.mpr h⟩

/-- `SoRouting` never values a candidate below the floor. -/
theorem indexed_so (env : Surroundings) (header : NocHeader) {devices : List NocNetDevice}
    (hload : ∀ d, 0 ≤ env.neighborLoad d ∧ env.neighborLoad d ≤ 100) (hne : devices ≠ []) :
    ∃ vector, (AdaptiveRouting.so {}).indexedDevices env header devices = some vector ∧
      vector ≠ [] := by
  have hall : devices.all (SoRouting.evaluates {} env header) = true :=
    List.all_eq_true.mpr (fun d _ => (AdaptiveRouting.evaluate_so_bounds env header d (hload d)).2)
  have hselected : (AdaptiveRouting.so {}).selectedDevices env header devices ≠ [] := by
    rw [AdaptiveRouting.selectedDevices, ne_eq, BestOf.bestOf_eq_nil]
    intro hlt
    obtain ⟨d, hd⟩ := List.exists_mem_of_ne_nil _ hne
    have hfloor := (AdaptiveRouting.evaluate_so_bounds env header d (hload d)).1
    have := hlt d hd
    simp only [AdaptiveRouting.evaluate] at this
    omega
  simp only [AdaptiveRouting.indexedDevices, hall, if_true]
  refine ⟨_, rfl, ?_⟩
  split
  · next hpos => exact List.ne_nil_of_length_pos hpos
  · exact hselected

/-- With the default weights both protocols find an output exactly when the flit can turn
towards its destination and some candidate is not loaded, which `SlbRouting` insists on. -/
theorem findsOutput_iff (hSize rows destination : ℕ) (hh : 0 < hSize)
    (hd : destination < rows * hSize) (s : AdaptiveFlit)
    (hs : HeaderTruthful hSize rows destination s)
    (env : Surroundings) (hload : ∀ d, 0 ≤ env.neighborLoad d ∧ env.neighborLoad d ≤ 100) :
    (∀ r ∈ [AdaptiveRouting.slb {}, AdaptiveRouting.so {}],
        FindsOutput r (install hSize (rows * hSize)) s env) ↔
      (∃ k < 2, s.header.signedOffset k ≠ 0 ∧ towards (s.header.signedOffset k) ≠ s.source) ∧
      ∃ d ∈ (install hSize (rows * hSize)).getOutputNetDevices s.node,
        d.routingDirection ≠ s.source ∧ env.neighborLoad d ≤ 50 := by
  have hslb : (∃ d ∈ candidates (.slb {}) (install hSize (rows * hSize)) s,
      env.neighborLoad d ≤ 50) ↔ ∃ d ∈ (install hSize (rows * hSize)).getOutputNetDevices s.node,
        d.routingDirection ≠ s.source ∧ env.neighborLoad d ≤ 50 := by
    simp only [candidates, AdaptiveRouting.doRoutingFunction,
      AdaptiveRouting.mem_doRoutingFunction_slb, and_assoc]
  constructor
  · intro h
    have hfinds := h (.slb {}) (by simp)
    exact ⟨(exists_progressive_iff hh hd _ hs).mp hfinds.progressive,
      hslb.mp ((indexed_slb_iff env s.header _).mp hfinds.indexed)⟩
  · rintro ⟨hturn, hunloaded⟩ r hr
    have hprog := (exists_progressive_iff hh hd r hs).mpr hturn
    have hnonempty : candidates r (install hSize (rows * hSize)) s ≠ [] := by
      obtain ⟨d, hmem, -⟩ := hprog
      exact List.ne_nil_of_mem hmem
    refine ⟨hnonempty, hprog, ?_⟩
    simp only [List.mem_cons, List.not_mem_nil, or_false] at hr
    rcases hr with rfl | rfl
    · exact (indexed_slb_iff env s.header _).mpr (hslb.mpr hunloaded)
    · exact indexed_so env s.header hload hnonempty

theorem findsOutput_2_2 :
    FindsOutput (.slb {}) (install 2 4) (injectedFlit 2 0 3 [0, 0]) idleSurroundings ∧
      FindsOutput (.so {}) (install 2 4) (injectedFlit 2 0 3 [0, 0]) idleSurroundings := by
  have h := (findsOutput_iff 2 2 3 (by decide) (by decide) (injectedFlit 2 0 3 [0, 0])
    (headerTruthful_injectedFlit (by decide) (by decide) (by decide) (by decide) (by decide) _)
    idleSurroundings (fun _ => by simp [idleSurroundings])).mpr
      ⟨⟨0, by decide, by decide +kernel, by decide +kernel⟩,
        ⟨0, 0, .forward, 0⟩, by decide +kernel, by decide +kernel, by decide⟩
  exact ⟨h _ List.mem_cons_self, h _ (List.mem_cons_of_mem _ List.mem_cons_self)⟩

/-- A flit for node 2 that came to node 0 from the east cannot be sent north. -/
theorem not_findsOutput_2_2 : ¬∀ r ∈ [AdaptiveRouting.slb {}, AdaptiveRouting.so {}],
    FindsOutput r (install 2 4) ⟨0, .forward, ⟨[0, 1], [0, 0]⟩⟩ idleSurroundings := by
  intro h
  have hnil : candidates (.slb {}) (install 2 4) ⟨0, .forward, ⟨[0, 1], [0, 0]⟩⟩ = [] := by
    decide +kernel
  exact (h (.slb {}) (by simp)).nonempty hnil

end NocMesh2D
end Ns3Noc
