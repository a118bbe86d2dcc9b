import Ns3Noc.LoadRouter

/-!
# Loads that travel with head flits

A head flit is routed, its router computes a load for the selected direction, and
`TransmitEnd` at the next router hands the load of the tag to `AddNeighborLoad`. The queues
and the busy states of the channels are chosen freely at every step.
-/
namespace Ns3Noc

/-- A head flit at a router, its destination and the load in its tag. -/
structure WaitingHead where
  flit : AdaptiveFlit
  destination : ℕ
  load : ℤ := 0

/-- A head flit on a channel. `computedLoad` is what `GetLoadForDirection` returned when the
flit was routed; the simulator keeps it nowhere. -/
structure MovingHead where
  header : NocHeader
  destination : ℕ
  load : ℤ
  sender : NocNetDevice
  dest : NocNetDevice
  computedLoad : ℤ

/-- The routers and components of all nodes, the head flits, and for every device the load
computed for the last head flit that it sent. -/
structure LoadNetwork where
  routers : ℕ → FourWayLoadRouter := fun _ => {}
  components : ℕ → LoadState := fun _ => {}
  waiting : List WaitingHead := []
  moving : List MovingHead := []
  lastComputed : NocNetDevice → ℤ := fun _ => 0

/-- The busy channels and the queues when a flit is routed. -/
structure Traffic where
  isBusy : NocNetDevice → Bool := fun _ => false
  inQueueNPackets : NocNetDevice → ℕ := fun _ => 0
  inChannels : ℕ × ℕ := (0, 0)

inductive LoadEvent where
  | inject (source destination : ℕ) (position : List UInt8)
  | route (i : ℕ) (traffic : Traffic) (choice : ℕ)
  | transmitEnd (i : ℕ)
  | dataTransmitEnd (receiver : ℕ)

namespace LoadNetwork

/-- `RequestNewRoute` for a waiting head flit. The load that `UpdateHeader` computes is set in
a copy of the tag, so the tag of the flit stays as it is. The head constructor of `NocPacket`
leaves the data flit count of the tag at 0. -/
def route (p : AdaptiveRouting) (c : LoadRouterComponent) (w : Wiring) (s : LoadNetwork) (i : ℕ)
    (traffic : Traffic) (choice : ℕ) : Option LoadNetwork := do
  let m ← s.waiting[i]?
  let node := m.flit.node
  if node = m.destination then none
  else
    let router := s.routers node
    let route ← p.requestNewRoute w node m.flit.source m.destination m.flit.header
      ⟨router.getNeighborLoad, traffic.isBusy, traffic.inQueueNPackets, 0⟩ choice
    let (load, component) ← c.getLoadForDirection (s.components node) route.header 0
      traffic.inChannels (router.getNeighborLoadOf w node) route.sourceNetDevice
    if 0 ≤ load ∧ load ≤ 100 then
      some { s with
        components := Function.update s.components node component
        waiting := s.waiting.eraseIdx i
        moving := s.moving ++ [⟨route.header, m.destination, m.load, route.sourceNetDevice,
          route.destinationNetDevice, load⟩] }
    else none

/-- `TransmitEnd` for a head flit, up to the next request for a route. -/
def transmitEnd (w : Wiring) (s : LoadNetwork) (i : ℕ) : Option LoadNetwork := do
  let m ← s.moving[i]?
  let receiver ← w.peer m.sender
  let v := receiver.node
  some { s with
    routers := Function.update s.routers v
      (if !m.header.isEmpty then (s.routers v).addNeighborLoad m.load m.sender else s.routers v)
    components := Function.update s.components v
      (LoadRouterComponent.increaseLoad (s.components v))
    waiting := if receiver = m.dest then s.waiting
      else s.waiting ++ [⟨⟨v, receiver.routingDirection, m.header⟩, m.destination, m.load⟩]
    moving := s.moving.eraseIdx i
    lastComputed := Function.update s.lastComputed m.sender m.computedLoad }

def step (p : AdaptiveRouting) (c : LoadRouterComponent) (hSize : ℕ) (w : Wiring)
    (s : LoadNetwork) : LoadEvent → Option LoadNetwork
  | .inject source destination position => some { s with
      waiting := s.waiting ++
        [⟨NocMesh2D.injectedFlit hSize source destination position, destination, 0⟩] }
  | .route i traffic choice => s.route p c w i traffic choice
  | .transmitEnd i => s.transmitEnd w i
  | .dataTransmitEnd v => some { s with
      components := Function.update s.components v
        (LoadRouterComponent.increaseLoad (s.components v)) }

/-- Every router knows the load that each neighbour computed for its last head flit. -/
def NeighborLoadsPropagated (w : Wiring) (s : LoadNetwork) : Prop :=
  ∀ d ∈ w.devices, ∀ e, w.peer d = some e →
    (s.routers d.node).getNeighborLoad d = s.lastComputed e

/-- A head flit is routed only while the local load of the router is low. -/
def RoutedAtLowLoad (c : LoadRouterComponent) (s : LoadNetwork) : LoadEvent → Prop
  | .route i traffic _ =>
    ∀ m, s.waiting[i]? = some m → c.LowLoad (s.components m.flit.node) traffic.inChannels
  | _ => True

/-- What holds in every run: no load is ever put into a tag or into a router. -/
structure Unloaded (s : LoadNetwork) : Prop where
  routers : ∀ v, s.routers v = {}
  lengths : ∀ v n, (s.components v).dataLength = some n → n = 0
  waiting : ∀ m ∈ s.waiting, m.load = 0
  moving : ∀ m ∈ s.moving, m.load = 0

/-- No router has computed a load either. -/
structure NothingComputed (s : LoadNetwork) : Prop extends s.Unloaded where
  computed : ∀ m ∈ s.moving, m.computedLoad = 0
  lastComputed : ∀ d, s.lastComputed d = 0

variable {p : AdaptiveRouting} {c : LoadRouterComponent} {hSize : ℕ} {w : Wiring}
variable {s s' : LoadNetwork}

/-- What routing a flit has done, next to neighbours without load. -/
theorem route_eq_some (hw : ∀ d ∈ w.devices, d.routingDirection ≠ .none ∧ d.routingDimension < 2)
    (hs : s.Unloaded) {i : ℕ} {traffic : Traffic} {choice : ℕ}
    (h : s.route p c w i traffic choice = some s') :
    ∃ m component moved, s.waiting[i]? = some m ∧
      (∀ n, component.dataLength = some n → n = 0) ∧ moved.load = m.load ∧
      (moved.computedLoad = 0 ↔ c.LowLoad (s.components m.flit.node) traffic.inChannels) ∧
      s' = { s with
        components := Function.update s.components m.flit.node component
        waiting := s.waiting.eraseIdx i
        moving := s.moving ++ [moved] } := by
  simp only [route, Option.bind_eq_bind, Option.bind_eq_some_iff] at h
  obtain ⟨m, hm, h⟩ := h
  split at h
  · cases h
  · simp only [Option.bind_eq_some_iff, Prod.exists, Option.ite_none_right_eq_some,
      Option.some.injEq] at h
    obtain ⟨route, hroute, load, component, hload, -, rfl⟩ := h
    obtain ⟨-, d, -, -, -, hout⟩ := AdaptiveRouting.requestNewRoute_eq_some hroute
    obtain ⟨hdir, hdim⟩ := hw _ (Wiring.getInputNetDevice_spec hout).1
    have hneighbours : (s.routers m.flit.node).getNeighborLoadOf w m.flit.node =
        fun _ _ => 0 := by
      funext direction dimension
      rw [hs.routers, FourWayLoadRouter.getNeighborLoadOf_zero]
    rw [hneighbours] at hload
    obtain ⟨hlow, hlength⟩ := LoadRouterComponent.getLoadForDirection_eq_zero_iff hdir hdim
      (hs.lengths _) hload
    exact ⟨m, component, _, hm, hlength, rfl, hlow, rfl⟩

/-- What the end of a transmission has done to a network without loads. -/
theorem transmitEnd_eq_some (hs : s.Unloaded) {i : ℕ} (h : s.transmitEnd w i = some s') :
    ∃ m receiver waiting, s.moving[i]? = some m ∧ w.peer m.sender = some receiver ∧
      (∀ x ∈ waiting, x ∈ s.waiting ∨ x.load = m.load) ∧
      s' = { s with
        components := Function.update s.components receiver.node
          (LoadRouterComponent.increaseLoad (s.components receiver.node))
        waiting := waiting
        moving := s.moving.eraseIdx i
        lastComputed := Function.update s.lastComputed m.sender m.computedLoad } := by
  simp only [transmitEnd, Option.bind_eq_bind, Option.bind_eq_some_iff, Option.some.injEq] at h
  obtain ⟨m, hm, receiver, hpeer, rfl⟩ := h
  have hrouter : (if !m.header.isEmpty then
      (s.routers receiver.node).addNeighborLoad m.load m.sender else s.routers receiver.node) =
      s.routers receiver.node := by
    rw [hs.routers, hs.moving m (List.mem_of_getElem? hm),
      FourWayLoadRouter.addNeighborLoad_zero, ite_self]
  refine ⟨m, receiver, _, hm, hpeer, ?_, by rw [hrouter, Function.update_eq_self]⟩
  intro x hx
  split at hx
  · exact .inl hx
  · rcases List.mem_append.mp hx with hx | hx
    · exact .inl hx
    · rw [List.mem_singleton] at hx
      exact .inr (hx ▸ rfl)

theorem lengths_update (hs : s.Unloaded) {v : ℕ} {component : LoadState}
    (h : ∀ n, component.dataLength = some n → n = 0) (u n : ℕ)
    (hu : (Function.update s.components v component u).dataLength = some n) : n = 0 := by
  by_cases heq : u = v
  · subst heq
    rw [Function.update_self] at hu
    exact h n hu
  · rw [Function.update_of_ne heq] at hu
    exact hs.lengths u n hu

theorem Unloaded.step (hw : ∀ d ∈ w.devices, d.routingDirection ≠ .none ∧ d.routingDimension < 2)
    (hs : s.Unloaded) {l : LoadEvent} (h : s.step p c hSize w l = some s') : s'.Unloaded := by
  cases l with
  | inject source destination position =>
    cases h
    refine ⟨hs.routers, hs.lengths, ?_, hs.moving⟩
    intro m hm
    rcases List.mem_append.mp hm with hm | hm
    · exact hs.waiting m hm
    · rw [List.mem_singleton] at hm
      exact hm ▸ rfl
  | route i traffic choice =>
    obtain ⟨m, component, moved, hm, hlength, hload, -, rfl⟩ := route_eq_some hw hs h
    refine ⟨hs.routers, lengths_update hs hlength,
      fun x hx => hs.waiting x (List.mem_of_mem_eraseIdx hx), ?_⟩
    intro x hx
    rcases List.mem_append.mp hx with hx | hx
    · exact hs.moving x hx
    · rw [List.mem_singleton] at hx
      rw [hx, hload]
      exact hs.waiting m (List.mem_of_getElem? hm)
  | transmitEnd i =>
    obtain ⟨m, receiver, waiting, hm, -, hwaiting, rfl⟩ := transmitEnd_eq_some hs h
    refine ⟨hs.routers, lengths_update hs (hs.lengths receiver.node), ?_,
      fun x hx => hs.moving x (List.mem_of_mem_eraseIdx hx)⟩
    intro x hx
    rcases hwaiting x hx with hx | hx
    · exact hs.waiting x hx
    · rw [hx]
      exact hs.moving m (List.mem_of_getElem? hm)
  | dataTransmitEnd v =>
    cases h
    exact ⟨hs.routers, lengths_update hs (hs.lengths v), hs.waiting, hs.moving⟩

theorem NothingComputed.step
    (hw : ∀ d ∈ w.devices, d.routingDirection ≠ .none ∧ d.routingDimension < 2)
    (hs : s.NothingComputed) {l : LoadEvent} (hok : s.RoutedAtLowLoad c l)
    (h : s.step p c hSize w l = some s') : s'.NothingComputed := by
  refine ⟨hs.toUnloaded.step hw h, ?_, ?_⟩
  · cases l with
    | inject source destination position =>
      cases h
      exact hs.computed
    | route i traffic choice =>
      obtain ⟨m, component, moved, hm, -, -, hlow, rfl⟩ := route_eq_some hw hs.toUnloaded h
      intro x hx
      rcases List.mem_append.mp hx with hx | hx
      · exact hs.computed x hx
      · rw [List.mem_singleton] at hx
        rw [hx]
        exact hlow.mpr (hok m hm)
    | transmitEnd i =>
      obtain ⟨m, receiver, waiting, hm, -, -, rfl⟩ := transmitEnd_eq_some hs.toUnloaded h
      exact fun x hx => hs.computed x (List.mem_of_mem_eraseIdx hx)
    | dataTransmitEnd v =>
      cases h
      exact hs.computed
  · intro d
    cases l with
    | inject source destination position =>
      cases h
      exact hs.lastComputed d
    | route i traffic choice =>
      obtain ⟨m, component, moved, -, -, -, -, rfl⟩ := route_eq_some hw hs.toUnloaded h
      exact hs.lastComputed d
    | transmitEnd i =>
      obtain ⟨m, receiver, waiting, hm, -, -, rfl⟩ := transmitEnd_eq_some hs.toUnloaded h
      dsimp only
      rw [hs.computed m (List.mem_of_getElem? hm), Function.update_apply]
      split
      · rfl
      · exact hs.lastComputed d
    | dataTransmitEnd v =>
      cases h
      exact hs.lastComputed d

/-- A head flit that was routed at a higher load breaks the property when it arrives. -/
theorem not_propagated_of_transmitEnd (hs : s.Unloaded) {i : ℕ} {m : MovingHead}
    {receiver : NocNetDevice} (hm : s.moving[i]? = some m) (hload : m.computedLoad ≠ 0)
    (hpeer : w.peer receiver = some m.sender) (hreceiver : receiver ∈ w.devices)
    (h : s.transmitEnd w i = some s') : ¬NeighborLoadsPropagated w s' := by
  obtain ⟨m', v, waiting, hm', -, -, rfl⟩ := transmitEnd_eq_some hs h
  rw [hm] at hm'
  cases hm'
  intro hall
  have hlast := hall receiver hreceiver m.sender hpeer
  dsimp only at hlast
  rw [hs.routers, FourWayLoadRouter.getNeighborLoad_zero, Function.update_self] at hlast
  exact hload hlast.symm

end LoadNetwork

namespace NocMesh2D
open MeshWiring2D

/-- The link devices of a mesh are the four of `FourWayRouter`. -/
theorem direction_of_mem_install {hSize rows : ℕ} (hh : 0 < hSize) {d : NocNetDevice}
    (hd : d ∈ (install hSize (rows * hSize)).devices) :
    d.routingDirection ≠ .none ∧ d.routingDimension < 2 := by
  rcases (mem_devices rows .back .forward hh hh).mp hd with
    ⟨v, -, -, rfl⟩ | ⟨v, -, -, rfl⟩ | ⟨t, -, rfl⟩ | ⟨t, -, rfl⟩ <;> simp

/-- Under either protocol and with either component, the neighbour loads are the computed ones
over every run that routes head flits only at low load. -/
theorem neighborLoads_propagated (p : AdaptiveRouting) (c : LoadRouterComponent)
    (hSize rows : ℕ) (hh : 0 < hSize) (events : List LoadEvent)
    (hok : PartialRuns.Allowed (LoadNetwork.step p c hSize (install hSize (rows * hSize)))
      (LoadNetwork.RoutedAtLowLoad c) {} events)
    (s : LoadNetwork)
    (hrun : PartialRuns.run (LoadNetwork.step p c hSize (install hSize (rows * hSize))) {}
      events = some s) :
    LoadNetwork.NeighborLoadsPropagated (install hSize (rows * hSize)) s := by
  have hw : ∀ d ∈ (install hSize (rows * hSize)).devices,
      d.routingDirection ≠ .none ∧ d.routingDimension < 2 :=
    fun d hd => direction_of_mem_install hh hd
  have hinit : LoadNetwork.NothingComputed {} := by
    constructor
    · constructor <;> simp
    · simp
    · simp
  have hs : s.NothingComputed :=
    PartialRuns.invariant_of_allowed (fun _ _ _ ht hl h => ht.step hw hl h) hinit hok hrun
  intro d _ e _
  rw [hs.routers, FourWayLoadRouter.getNeighborLoad_zero, hs.lastComputed e]

/-- A flit goes east and waits for its next route. -/
theorem neighborLoads_propagated_3_2 :
    ∃ s, PartialRuns.run (LoadNetwork.step (.slb {}) (.slb 1) 2 (install 2 (3 * 2))) {}
        [.inject 0 5 [0, 0], .route 0 {} 1, .transmitEnd 0] = some s ∧
      LoadNetwork.NeighborLoadsPropagated (install 2 (3 * 2)) s := by
  have hsome : (PartialRuns.run (LoadNetwork.step (.slb {}) (.slb 1) 2 (install 2 (3 * 2))) {}
      [.inject 0 5 [0, 0], .route 0 {} 1, .transmitEnd 0]).isSome := by decide +kernel
  obtain ⟨s, hs⟩ := Option.isSome_iff_exists.mp hsome
  refine ⟨s, hs, neighborLoads_propagated (.slb {}) (.slb 1) 2 3 (by decide) _ ?_ s hs⟩
  refine ⟨True.intro, ?_⟩
  intro s₁ h₁
  cases h₁
  refine ⟨?_, fun _ _ => ⟨True.intro, fun _ _ => True.intro⟩⟩
  intro m hm
  cases hm
  simp [LoadRouterComponent.LowLoad]

/-- The next router computes the load 1 for the flit, and the router after that never sees it. -/
theorem not_neighborLoads_propagated_3_2 : ∃ events s,
    PartialRuns.run (LoadNetwork.step (.slb {}) (.slb 1) 2 (install 2 6)) {} events = some s ∧
      ¬LoadNetwork.NeighborLoadsPropagated (install 2 6) s := by
  have hrun : (PartialRuns.run (LoadNetwork.step (.slb {}) (.slb 1) 2 (install 2 6)) {}
      [.inject 0 5 [0, 0], .route 0 {} 1, .transmitEnd 0, .route 0 {} 0, .transmitEnd 0]).map
      (fun s => ((s.routers 3).getNeighborLoad ⟨3, 4, .back, 1⟩,
        s.lastComputed ⟨1, 4, .forward, 1⟩)) = some (0, 1) := by decide +kernel
  obtain ⟨s, hs, hloads⟩ := Option.map_eq_some_iff.mp hrun
  refine ⟨_, s, hs, ?_⟩
  intro h
  have hpeer : (install 2 6).peer ⟨3, 4, .back, 1⟩ = some ⟨1, 4, .forward, 1⟩ := by
    decide +kernel
  have heq := h ⟨3, 4, .back, 1⟩ (by decide +kernel) ⟨1, 4, .forward, 1⟩ hpeer
  rw [(Prod.mk.inj hloads).1, (Prod.mk.inj hloads).2] at heq
  exact absurd heq (by decide)

end NocMesh2D
end Ns3Noc
