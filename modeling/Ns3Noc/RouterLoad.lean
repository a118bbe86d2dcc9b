import Mathlib
import Ns3Noc.PartialRuns
import Ns3Noc.MeteredNetwork

/-!
# The load of four-way routers

A four-way router counts one injection port and four links. Nothing keeps applications from injecting
more than one flit in a clock cycle, or a topology from attaching more than four links, so that the
load may exceed one. It stays within one where every device receives at most one flit to be sent on
in a cycle and the injected flits fit in the ports that the links leave.
-/
namespace Ns3Noc
open PartialRuns

variable {δ γ σ : Type} [DecidableEq δ] [DecidableEq γ]

/-! ## Receiving devices -/

namespace NocNetwork

variable {net : NocNetwork δ γ} {protocol : SwitchingProtocol σ} {s s' : NetworkState δ γ σ}

/-- Transmissions end at devices of channels. -/
structure Attached (net : NocNetwork δ γ) (s : NetworkState δ γ σ) : Prop where
  link : ∀ w d, (s.link w).currentDestDevice = some d → (net.channel d).isSome
  pending : ∀ e ∈ s.pending, (net.channel e.destNocNetDevice).isSome

omit [DecidableEq δ] [DecidableEq γ] in
theorem Attached.of_eq (hs : net.Attached s) (hlink : s'.link = s.link)
    (hpending : s'.pending = s.pending) : net.Attached s' :=
  ⟨fun w d h => hs.link w d (by rw [← hlink]; exact h), fun e he => hs.pending e (hpending ▸ he)⟩

omit [DecidableEq δ] in
theorem Attached.setLink (hs : net.Attached s) (w : γ × Fin 2) {link : ChannelLink δ}
    (hlink : ∀ d, link.currentDestDevice = some d → (net.channel d).isSome) :
    net.Attached (s.setLink w link) := by
  refine ⟨fun w' d h => ?_, hs.pending⟩
  by_cases hw : w' = w
  · subst hw
    simp only [NetworkState.setLink, Function.update_self] at h
    exact hlink d h
  · simp only [NetworkState.setLink, Function.update_of_ne hw] at h
    exact hs.link w' d h

omit [DecidableEq δ] [DecidableEq γ] in
theorem channel_device (net : NocNetwork δ γ) (c : γ) (i : Fin 2) :
    (net.channel (net.device c i)).isSome := by
  rw [(net.channel_eq_some _ c).mpr (by rw [net.deviceId_device])]
  rfl

omit [DecidableEq δ] in
theorem Attached.transmitStart (hs : net.Attached s) (original : δ) (p : NocPacket) (c : γ)
    (srcId : Fin 2) : net.Attached (net.transmitStart s original p c srcId).2 := by
  have hdest : ∀ d, some (net.device c (1 - srcId)) = some d → (net.channel d).isSome := by
    rintro d h
    rw [← Option.some.inj h]
    exact net.channel_device c _
  simp only [NocNetwork.transmitStart]
  split
  · exact hs.setLink _ fun d h => hs.link _ d h
  · split
    · exact hs.setLink _ hdest
    · exact hs.setLink _ hdest

theorem Attached.send (hs : net.Attached s) {c : γ} {srcDest : SrcDest δ}
    (h : net.send s c srcDest = some s') : net.Attached s' := by
  obtain ⟨sender, -, h⟩ := Option.bind_eq_some_iff.mp h
  obtain ⟨srcId, -, h⟩ := Option.bind_eq_some_iff.mp h
  obtain ⟨dest, hdest, h⟩ := Option.bind_eq_some_iff.mp h
  obtain ⟨-, h⟩ := Option.ite_none_right_eq_some.mp h
  obtain rfl := Option.some.inj h
  have hlink : net.Attached
      (s.setLink (net.wire c srcId) { s.link (net.wire c srcId) with state := .propagating }) :=
    hs.setLink _ fun d h => hs.link _ d h
  refine ⟨hlink.link, fun e he => ?_⟩
  rcases List.mem_append.mp he with he | he
  · exact hs.pending e he
  · obtain rfl := List.mem_singleton.mp he
    exact hs.link _ dest hdest

omit [DecidableEq γ] in
theorem Attached.flowControl (hs : net.Attached s) {d : δ} {c : γ} {via : Option δ}
    {packet : Option QueuedPacket} {r : Bool × NetworkState δ γ σ}
    (h : net.flowControl protocol s d c via packet = some r) : net.Attached r.2 := by
  cases packet with
  | none =>
    obtain rfl := Option.some.inj h
    exact hs
  | some q =>
    obtain ⟨v, -, h⟩ := Option.bind_eq_some_iff.mp h
    obtain ⟨srcId, -, h⟩ := Option.bind_eq_some_iff.mp h
    obtain rfl := Option.some.inj h
    dsimp only
    split <;> exact hs.of_eq rfl rfl

theorem Attached.processBufferedPackets (hs : net.Attached s) {d : δ}
    {packet : Option QueuedPacket}
    (h : net.processBufferedPackets protocol s d packet = some s') : net.Attached s' := by
  rw [NocNetwork.processBufferedPackets] at h
  split at h
  · exact Option.some.inj h ▸ hs
  · obtain ⟨c, -, h⟩ := Option.bind_eq_some_iff.mp h
    obtain ⟨r, hflow, h⟩ := Option.bind_eq_some_iff.mp h
    have hr : net.Attached r.2 := by
      refine Attached.flowControl ?_ hflow
      exact hs.of_eq rfl rfl
    dsimp only at h
    split at h
    · have hstart := fun p srcId => hr.transmitStart d p c srcId
      split at h
      · obtain ⟨u, hsend, rfl⟩ := Option.map_eq_some_iff.mp h
        exact ((hstart _ _).send hsend).of_eq rfl rfl
      · exact Option.some.inj h ▸ hstart _ _
    · exact Option.some.inj h ▸ hr

theorem Attached.nodeSend (hs : net.Attached s) {source : δ} {packet : NocPacket}
    {destination : ℕ} {route : RouteReply δ}
    (h : net.nodeSend protocol s source packet destination route = some s') :
    net.Attached s' := by
  rw [nodeSend_eq] at h
  obtain ⟨-, h⟩ := Option.ite_none_left_eq_some.mp h
  rw [sendFrom_eq] at h
  refine Attached.processBufferedPackets ?_ h
  rw [arrived]
  split <;> exact hs.of_eq rfl rfl

theorem Attached.injectPacket (hs : net.Attached s) {d : δ} {new : NewPacket}
    {uid destination : ℕ} {route : RouteReply δ}
    (h : net.injectPacket protocol s d new uid destination route = some s') :
    net.Attached s' := by
  obtain ⟨-, h⟩ := Option.ite_none_right_eq_some.mp h
  refine Attached.nodeSend ?_ h
  exact hs.of_eq rfl rfl

theorem Attached.dequeueTransmitted (hs : net.Attached s) {e : TransmitEndEvent δ γ}
    {r : NetworkState δ γ σ × NocPacket × (γ × Fin 2)}
    (h : net.dequeueTransmitted s e = some r) : net.Attached r.1 := by
  obtain ⟨srcId, -, h⟩ := Option.bind_eq_some_iff.mp h
  obtain ⟨currentPkt, -, h⟩ := Option.bind_eq_some_iff.mp h
  obtain ⟨original, -, h⟩ := Option.bind_eq_some_iff.mp h
  obtain ⟨⟨q, t⟩, hdequeue, h⟩ := Option.bind_eq_some_iff.mp h
  obtain ⟨-, h⟩ := Option.ite_none_right_eq_some.mp h
  obtain rfl := Option.some.inj h
  have ht : net.Attached t := by
    rw [NetworkState.dequeuePacketFromInQueue] at hdequeue
    split at hdequeue
    · cases hdequeue
    · obtain ⟨-, rfl⟩ := Prod.mk.inj (Option.some.inj hdequeue)
      exact hs.of_eq rfl rfl
  exact ht.setLink _ fun d h => hs.link _ d h

theorem Attached.transmitEnd (hs : net.Attached s) {n : ℕ} {route : RouteReply δ}
    (h : net.transmitEnd protocol s n route = some s') : net.Attached s' := by
  obtain ⟨e, -, h⟩ := Option.bind_eq_some_iff.mp h
  obtain ⟨⟨t, packet, w⟩, hdequeue, h⟩ := Option.bind_eq_some_iff.mp h
  obtain ⟨u, hreceive, h⟩ := Option.bind_eq_some_iff.mp h
  obtain rfl := Option.some.inj h
  have herase : net.Attached { s with pending := s.pending.eraseIdx n } :=
    ⟨hs.link, fun e he => hs.pending e (List.mem_of_mem_eraseIdx he)⟩
  have ht : net.Attached t := herase.dequeueTransmitted hdequeue
  have hu : net.Attached u := by
    obtain ⟨dest, -, hreceive⟩ := Option.bind_eq_some_iff.mp hreceive
    split at hreceive
    · exact Option.some.inj hreceive ▸ ht.of_eq rfl rfl
    · exact ht.nodeSend hreceive
  exact hu.setLink _ fun d h => hu.link _ d h

/-- The number of channels that `Install` attached to a node -/
def links [Fintype δ] (net : NocNetwork δ γ) (node : ℕ) : ℕ :=
  (Finset.univ.filter fun d => net.node d = node ∧ (net.channel d).isSome).card

end NocNetwork

/-! ## Flits of one clock cycle -/

/-- The flits that a router handled in a clock cycle -/
def handledIn (handled : List (HandledFlit δ)) (node clockNumber : ℕ) : ℕ :=
  handled.countP fun h => h.node = node ∧ h.clock = clockNumber

/-- Those of them that were injected -/
def injectedIn (handled : List (HandledFlit δ)) (node clockNumber : ℕ) : ℕ :=
  handled.countP fun h => (h.node = node ∧ h.clock = clockNumber) ∧ h.origin = none

section

variable {net : NocNetwork δ γ} {handled : List (HandledFlit δ)}

omit [DecidableEq δ] [DecidableEq γ] in
theorem handledIn_append (h : HandledFlit δ) (node clockNumber : ℕ) :
    handledIn (handled ++ [h]) node clockNumber =
      handledIn handled node clockNumber +
        if h.node = node ∧ h.clock = clockNumber then 1 else 0 := by
  simp [handledIn, List.countP_append, List.countP_singleton]

omit [DecidableEq δ] [DecidableEq γ] in
theorem injectedIn_append (h : HandledFlit δ) (node clockNumber : ℕ) :
    injectedIn (handled ++ [h]) node clockNumber =
      injectedIn handled node clockNumber +
        if (h.node = node ∧ h.clock = clockNumber) ∧ h.origin = none then 1 else 0 := by
  simp [injectedIn, List.countP_append, List.countP_singleton]

omit [DecidableEq γ] in
/-- Where every device receives at most one flit in a cycle, a router handles at most as many flits as
are injected and as there are links. -/
theorem handledIn_le [Fintype δ]
    (horigin : ∀ h ∈ handled, ∀ d, h.origin = some d →
      net.node d = h.node ∧ (net.channel d).isSome)
    (honce : (handled.filterMap fun h => h.origin.map (·, h.clock)).Nodup) (node clockNumber : ℕ) :
    handledIn handled node clockNumber ≤ injectedIn handled node clockNumber + net.links node := by
  let here := handled.filter fun h => h.node = node ∧ h.clock = clockNumber
  have hmem : ∀ h ∈ here, h ∈ handled ∧ h.node = node ∧ h.clock = clockNumber := by
    intro h hh
    simpa [here] using hh
  -- the devices by which the flits were received, each of them once
  have hdevices : (here.filterMap HandledFlit.origin).Nodup := by
    have hsub : (here.filterMap fun h => h.origin.map (·, h.clock)).Nodup :=
      honce.sublist (List.filter_sublist.filterMap _)
    have hmap : (here.filterMap fun h => h.origin.map (·, h.clock)) =
        (here.filterMap HandledFlit.origin).map (·, clockNumber) := by
      rw [List.map_filterMap]
      exact List.filterMap_congr fun h hh => by rw [(hmem h hh).2.2]
    exact List.Nodup.of_map _ (hmap ▸ hsub)
  have hlinks : (here.filterMap HandledFlit.origin).length ≤ net.links node := by
    rw [← List.toFinset_card_of_nodup hdevices]
    apply Finset.card_le_card
    intro d hd
    obtain ⟨h, hh, hd⟩ := List.mem_filterMap.mp (List.mem_toFinset.mp hd)
    obtain ⟨hmem, hnode, -⟩ := hmem h hh
    obtain ⟨hdnode, hchannel⟩ := horigin h hmem d hd
    simp [hdnode, hnode, hchannel]
  have hsplit : here.length = here.countP (fun h => h.origin = none) +
      (here.filterMap HandledFlit.origin).length := by
    induction here with
    | nil => rfl
    | cons h here ih =>
      cases ho : h.origin with
      | none => simp [ho, ih]; omega
      | some d => simp [ho, ih]; omega
  have hhandled : handledIn handled node clockNumber = here.length :=
    List.countP_eq_length_filter
  have hinjected : injectedIn handled node clockNumber =
      here.countP fun h => h.origin = none := by
    rw [List.countP_filter]
    exact List.countP_congr fun h _ => by simp [and_comm]
  omega

end

/-! ## Calls that return -/

theorem bind_eq_ok {α β : Type} {x : Except Stop α} {f : α → Except Stop β} {b : β}
    (h : x >>= f = .ok b) : ∃ a, x = .ok a ∧ f a = .ok b := by
  cases x with
  | error stop => cases h
  | ok a => exact ⟨a, rfl, h⟩

theorem require_eq_ok {α : Type} {x : Option α} {a : α} (h : require x = .ok a) : x = some a := by
  cases x with
  | none => cases h
  | some b => rw [Except.ok.inj h]

theorem divide_eq_ok {q : ℚ} {u : Unit} (h : divide q = .ok u) : q ≠ 0 := by
  rintro rfl
  simp [divide] at h

namespace FlitClock

variable {clock : FlitClock γ} {now n : ℕ} {m m' : PowerMeter}

omit [DecidableEq γ] in
/-- The clock number of a positive clock. -/
theorem clockNumber_eq_ok (hclock : 0 < clock.globalClock) (hnow : now < 2 ^ 63)
    (h : clock.clockNumber now = .ok n) : n = now / ⌊clock.globalClock⌋.toNat + 1 := by
  obtain ⟨u, -, h⟩ := bind_eq_ok h
  have hpico : getPicoSeconds clock.globalClock = (⌊clock.globalClock⌋.toNat : ℤ) := by
    rw [getPicoSeconds, if_pos hclock.le, Int.toNat_of_nonneg (Int.floor_nonneg.mpr hclock.le)]
  rw [hpico, ← Int.ofNat_tdiv] at h
  have hle := Nat.div_le_self now ⌊clock.globalClock⌋.toNat
  generalize now / ⌊clock.globalClock⌋.toNat = q at h hle
  have heq : (((q : ℤ) + 1) % 2 ^ 64).toNat = n := Except.ok.inj h
  omega

omit [DecidableEq γ] in
theorem accountFlit_eq_ok {ports perFlit : ℕ}
    (h : clock.accountFlit ports perFlit now m = .ok (n, m')) :
    clock.clockNumber now = .ok n ∧
      (m.lastClock < n ∧ m'.lastClock = n ∧ m'.arrivedFlits = 1 ∨
        n ≤ m.lastClock ∧ m'.lastClock = m.lastClock ∧ m'.arrivedFlits ≤ m.arrivedFlits + 1) := by
  obtain ⟨k, hk, h⟩ := bind_eq_ok h
  split at h
  · rename_i hlt
    obtain ⟨u, -, h⟩ := bind_eq_ok h
    obtain ⟨rfl, rfl⟩ := Prod.mk.inj (Except.ok.inj h)
    exact ⟨hk, .inl ⟨hlt, rfl, rfl⟩⟩
  · rename_i hle
    obtain ⟨rfl, rfl⟩ := Prod.mk.inj (Except.ok.inj h)
    exact ⟨hk, .inr ⟨Nat.not_lt.mp hle, rfl, Nat.mod_le _ _⟩⟩

omit [DecidableEq γ] in
theorem query_eq_ok {ports perFlit : ℕ} (h : clock.query ports perFlit now m = .ok m') :
    clock.clockNumber now = .ok m'.lastClock ∧ m'.arrivedFlits = 0 := by
  obtain ⟨k, hk, h⟩ := bind_eq_ok h
  obtain ⟨u, -, h⟩ := bind_eq_ok h
  split at h
  · obtain ⟨u', -, h⟩ := bind_eq_ok h
    obtain rfl := Except.ok.inj h
    exact ⟨hk, rfl⟩
  · obtain rfl := Except.ok.inj h
    exact ⟨hk, rfl⟩

omit [DecidableEq γ] in
/-- The measurements do not fail while the arrived flits fit in the ports. -/
theorem measureFlits_of_arrivedFlits_le {ports : ℕ} (h : m.arrivedFlits ≤ ports) (k : ℕ) :
    clock.measureFlits ports m k ≠ .error .assertion := by
  induction k with
  | zero => exact nofun
  | succ k ih =>
    by_cases hclock : clock.globalClock = 0
    · simp [measureFlits, measureFlit, divide, hclock, bind, Except.bind]
    · by_cases hports : ports = 0
      · simp [measureFlits, measureFlit, divide, hclock, hports, bind, Except.bind]
      · simpa [measureFlits, measureFlit, divide, hclock, hports, h, bind, Except.bind,
          pure, Except.pure] using ih

end FlitClock

namespace MeteredNetwork

variable {clock : FlitClock γ} {net : NocNetwork δ γ} {protocol : SwitchingProtocol σ}
  {router : ℕ → NocRouterType} {s s' : MeteredNetwork δ γ σ}

/-- The router of a node has handled a flit. -/
structure Handles (clock : FlitClock γ) (router : ℕ → NocRouterType) (s : MeteredNetwork δ γ σ)
    (node : ℕ) (origin : Option δ) (s' : MeteredNetwork δ γ σ) : Prop where
  now_eq : s'.now = s.now
  account : ∃ n m, clock.accountFlit (router node).numberOfInputPorts 1 s.now (s.routers node) =
    .ok (n, m) ∧ s'.routers = Function.update s.routers node m ∧
    s'.handled = s.handled ++ [⟨node, n, origin⟩]

theorem nodeSend_eq_ok {t : NetworkState δ γ σ} {source : δ} {packet : NocPacket}
    {destination : ℕ} {route : RouteReply δ} {origin : Option δ}
    (h : s.nodeSend clock net protocol router t source packet destination route origin = .ok s') :
    Handles clock router s (net.node source) origin s' := by
  rw [nodeSend] at h
  split at h
  · cases h
  · obtain ⟨r, hr, h⟩ := bind_eq_ok h
    obtain ⟨u, -, h⟩ := bind_eq_ok h
    obtain rfl := Except.ok.inj h
    obtain ⟨⟨n, m⟩, haccount, hr⟩ := bind_eq_ok hr
    obtain rfl := Except.ok.inj hr
    exact ⟨rfl, n, m, haccount, rfl, rfl⟩

/-- What a call that returns does to the routers: nothing, a query at one of them, or a flit that was
injected or is sent on. -/
theorem act_eq_ok {l : MeteredStep δ γ} (h : s.act clock net protocol router l = .ok s') :
    (s'.routers = s.routers ∧ s'.handled = s.handled ∧ s.now ≤ s'.now ∧
        (s.now < 2 ^ 63 → s'.now < 2 ^ 63)) ∨
      (∃ node m, clock.query (router node).numberOfInputPorts 1 s.now (s.routers node) = .ok m ∧
        s'.routers = Function.update s.routers node m ∧ s'.handled = s.handled ∧ s'.now = s.now) ∨
      (∃ d new uid destination route, l = .injectPacket d new uid destination route ∧
        Handles clock router s (net.node d) none s') ∨
      ∃ k route e, l = .transmitEnd k route ∧ s.network.pending[k]? = some e ∧
        e.destination ≠ some e.destNocNetDevice ∧
        Handles clock router s (net.node e.destNocNetDevice) (some e.destNocNetDevice) s' := by
  cases l with
  | injectPacket d new uid destination route =>
    rw [act, injectPacket] at h
    split at h
    · obtain ⟨t, ht, h⟩ := bind_eq_ok h
      obtain ⟨network, -, h⟩ := bind_eq_ok h
      obtain rfl := Except.ok.inj h
      obtain ⟨hnow, haccount⟩ := nodeSend_eq_ok ht
      exact .inr (.inr (.inl ⟨d, new, uid, destination, route, rfl, hnow, haccount⟩))
    · cases h
  | processBufferedPackets d =>
    obtain ⟨u, -, h⟩ := bind_eq_ok h
    obtain ⟨network, -, h⟩ := bind_eq_ok h
    obtain rfl := Except.ok.inj h
    exact .inl ⟨rfl, rfl, le_rfl, id⟩
  | transmitEnd k route =>
    obtain ⟨e, he, h⟩ := bind_eq_ok h
    obtain ⟨⟨t, packet, w⟩, -, h⟩ := bind_eq_ok h
    obtain ⟨dest, hdest, h⟩ := bind_eq_ok h
    obtain ⟨r, hr, h⟩ := bind_eq_ok h
    obtain ⟨network, -, h⟩ := bind_eq_ok h
    obtain ⟨⟨n, m⟩, -, h⟩ := bind_eq_ok h
    obtain rfl := Except.ok.inj h
    rw [receive] at hr
    split at hr
    · obtain rfl := Except.ok.inj hr
      exact .inl ⟨rfl, rfl, le_rfl, id⟩
    · rename_i hother
      obtain ⟨hnow, haccount⟩ := nodeSend_eq_ok hr
      refine .inr (.inr (.inr ⟨k, route, e, rfl, require_eq_ok he, ?_, hnow, haccount⟩))
      rw [require_eq_ok hdest]
      exact fun heq => hother (Option.some.inj heq)
  | routerPower node =>
    obtain ⟨m, hm, h⟩ := bind_eq_ok h
    obtain rfl := Except.ok.inj h
    exact .inr (.inl ⟨node, m, hm, rfl, rfl, rfl⟩)
  | channelPower c =>
    obtain ⟨m, -, h⟩ := bind_eq_ok h
    obtain rfl := Except.ok.inj h
    exact .inl ⟨rfl, rfl, le_rfl, id⟩
  | elapse time =>
    rw [act] at h
    split at h
    · rename_i hlt
      obtain rfl := Except.ok.inj h
      exact .inl ⟨rfl, rfl, Nat.le_add_right _ _, fun _ => hlt⟩
    · cases h

theorem attached_act {l : MeteredStep δ γ} (hs : net.Attached s.network)
    (h : s.act clock net protocol router l = .ok s') : net.Attached s'.network := by
  cases l with
  | injectPacket d new uid destination route =>
    rw [act, injectPacket] at h
    split at h
    · obtain ⟨t, -, h⟩ := bind_eq_ok h
      obtain ⟨network, hnetwork, h⟩ := bind_eq_ok h
      obtain rfl := Except.ok.inj h
      exact hs.injectPacket (require_eq_ok hnetwork)
    · cases h
  | processBufferedPackets d =>
    obtain ⟨u, -, h⟩ := bind_eq_ok h
    obtain ⟨network, hnetwork, h⟩ := bind_eq_ok h
    obtain rfl := Except.ok.inj h
    exact hs.processBufferedPackets (require_eq_ok hnetwork)
  | transmitEnd k route =>
    obtain ⟨e, -, h⟩ := bind_eq_ok h
    obtain ⟨⟨t, packet, w⟩, -, h⟩ := bind_eq_ok h
    obtain ⟨dest, -, h⟩ := bind_eq_ok h
    obtain ⟨r, -, h⟩ := bind_eq_ok h
    obtain ⟨network, hnetwork, h⟩ := bind_eq_ok h
    obtain ⟨⟨n, m⟩, -, h⟩ := bind_eq_ok h
    obtain rfl := Except.ok.inj h
    exact hs.transmitEnd (require_eq_ok hnetwork)
  | routerPower node =>
    obtain ⟨m, -, h⟩ := bind_eq_ok h
    obtain rfl := Except.ok.inj h
    exact hs
  | channelPower c =>
    obtain ⟨m, -, h⟩ := bind_eq_ok h
    obtain rfl := Except.ok.inj h
    exact hs
  | elapse time =>
    rw [act] at h
    split at h
    · obtain rfl := Except.ok.inj h
      exact hs
    · cases h

/-! ## The load over a run -/

/-- No router has handled more than five flits in a clock cycle, and no measurement fails the
assertion on the load. -/
def LoadBounded (clock : FlitClock γ) (s : MeteredNetwork δ γ σ) : Prop :=
  ∀ node, (∀ n, handledIn s.handled node n ≤ NocRouterType.fourWay.numberOfInputPorts) ∧
    ∀ k, clock.measureFlits NocRouterType.fourWay.numberOfInputPorts (s.routers node) k ≠
      .error .assertion

/-- The flits injected at a node in a clock cycle leave a port for each of its links, and a device
that sends a flit on has not received one before in the same cycle. -/
def Spaced [Fintype δ] (clock : FlitClock γ) (net : NocNetwork δ γ) (s : MeteredNetwork δ γ σ) :
    MeteredStep δ γ → Prop
  | .injectPacket d _ _ _ _ => ∀ n, clock.clockNumber s.now = .ok n →
      injectedIn s.handled (net.node d) n + net.links (net.node d) < 5
  | .transmitEnd k _ => ∀ e, s.network.pending[k]? = some e →
      e.destination ≠ some e.destNocNetDevice →
        net.links (net.node e.destNocNetDevice) ≤ 5 ∧
          ∀ h ∈ s.handled, h.origin = some e.destNocNetDevice →
            clock.clockNumber s.now ≠ .ok h.clock
  | _ => True

/-- What holds between the steps of a run whose steps are spaced. -/
structure Loaded [Fintype δ] (clock : FlitClock γ) (net : NocNetwork δ γ)
    (s : MeteredNetwork δ γ σ) : Prop where
  attached : net.Attached s.network
  now_lt : s.now < 2 ^ 63
  origin : ∀ h ∈ s.handled, ∀ d, h.origin = some d → net.node d = h.node ∧ (net.channel d).isSome
  once : (s.handled.filterMap fun h => h.origin.map (·, h.clock)).Nodup
  room : ∀ h ∈ s.handled, injectedIn s.handled h.node h.clock + net.links h.node ≤ 5
  arrived : ∀ node, (s.routers node).arrivedFlits ≤
    handledIn s.handled node (s.routers node).lastClock
  lastClock : ∀ node, (s.routers node).lastClock ≤ s.now / ⌊clock.globalClock⌋.toNat + 1

variable [Fintype δ]

omit [DecidableEq γ] in
theorem Loaded.handledIn_le_five (hs : Loaded clock net s) (node n : ℕ) :
    handledIn s.handled node n ≤ 5 := by
  by_cases hzero : handledIn s.handled node n = 0
  · omega
  · obtain ⟨h, hmem, hh⟩ := List.countP_pos_iff.mp (Nat.pos_of_ne_zero hzero)
    obtain ⟨rfl, rfl⟩ := of_decide_eq_true hh
    exact (handledIn_le hs.origin hs.once _ _).trans (hs.room h hmem)

omit [DecidableEq γ] in
theorem Loaded.loadBounded (hs : Loaded clock net s) : LoadBounded clock s := by
  intro node
  refine ⟨fun n => hs.handledIn_le_five node n, fun k => ?_⟩
  exact FlitClock.measureFlits_of_arrivedFlits_le
    ((hs.arrived node).trans (hs.handledIn_le_five node _)) k

omit [DecidableEq δ] [DecidableEq γ] in
/-- A spaced flit keeps the load bounded, whether it was injected or is sent on. -/
theorem Loaded.handles (hclock : 0 < clock.globalClock) (hs : Loaded clock net s) {node : ℕ}
    {origin : Option δ} (hattached : net.Attached s'.network)
    (h : Handles clock router s node origin s')
    (horigin : ∀ d, origin = some d → net.node d = node ∧ (net.channel d).isSome)
    (hfresh : ∀ d, origin = some d → ∀ f ∈ s.handled, f.origin = some d →
      clock.clockNumber s.now ≠ .ok f.clock)
    (hroom : ∀ n, clock.clockNumber s.now = .ok n →
      injectedIn s.handled node n + net.links node + (if origin = none then 1 else 0) ≤ 5) :
    Loaded clock net s' := by
  obtain ⟨hnow, n, m, haccount, hrouters, hhandled⟩ := h
  obtain ⟨hn, hmeter⟩ := FlitClock.accountFlit_eq_ok haccount
  have hclockNumber := FlitClock.clockNumber_eq_ok hclock hs.now_lt hn
  have hlast := hs.lastClock node
  refine ⟨hattached, hnow ▸ hs.now_lt, ?_, ?_, ?_, ?_, ?_⟩
  · intro f hf d hd
    rw [hhandled] at hf
    rcases List.mem_append.mp hf with hf | hf
    · exact hs.origin f hf d hd
    · obtain rfl := List.mem_singleton.mp hf
      exact horigin d hd
  · rw [hhandled, List.filterMap_append]
    refine List.Nodup.append hs.once ?_ ?_
    · cases origin with
      | none => simp
      | some d => simp
    · intro p hp hp'
      obtain ⟨f, hf, hfp⟩ := List.mem_filterMap.mp hp
      obtain ⟨f', hf', hfp'⟩ := List.mem_filterMap.mp hp'
      obtain rfl := List.mem_singleton.mp hf'
      obtain ⟨d, hd, rfl⟩ := Option.map_eq_some_iff.mp hfp
      obtain ⟨d', hd', heq⟩ := Option.map_eq_some_iff.mp hfp'
      obtain ⟨rfl, hfclock⟩ := Prod.mk.inj heq
      exact hfresh d' hd' f hf hd (hfclock ▸ hn)
  · intro f hf
    rw [hhandled] at hf ⊢
    rw [injectedIn_append]
    have hnew := hroom n hn
    rcases List.mem_append.mp hf with hf | hf
    · have hold := hs.room f hf
      split
      · rename_i hsame
        obtain ⟨⟨hnode, hfn⟩, ho⟩ := hsame
        dsimp only at hnode hfn ho
        rw [if_pos ho, hnode, hfn] at hnew
        omega
      · omega
    · obtain rfl := List.mem_singleton.mp hf
      simp only [true_and]
      omega
  · intro v
    rw [hhandled, hrouters, handledIn_append]
    by_cases hv : v = node
    · subst hv
      simp only [Function.update_self, true_and]
      rcases hmeter with ⟨-, hl, ha⟩ | ⟨hle, hl, ha⟩
      · rw [hl, ha, if_pos rfl]
        omega
      · have harrived := hs.arrived v
        rw [hl, if_pos (by omega)]
        omega
    · simp only [Function.update_of_ne hv]
      exact (hs.arrived v).trans (Nat.le_add_right _ _)
  · intro v
    rw [hrouters, hnow]
    by_cases hv : v = node
    · subst hv
      rw [Function.update_self]
      rcases hmeter with ⟨-, hl, -⟩ | ⟨-, hl, -⟩
      · omega
      · omega
    · rw [Function.update_of_ne hv]
      exact hs.lastClock v

theorem Loaded.act (hclock : 0 < clock.globalClock) (hs : Loaded clock net s)
    {l : MeteredStep δ γ} (hok : Spaced clock net s l)
    (h : s.act clock net protocol router l = .ok s') : Loaded clock net s' := by
  have hattached := attached_act hs.attached h
  rcases act_eq_ok h with ⟨hrouters, hhandled, hnow, hlt⟩ |
    ⟨node, m, hquery, hrouters, hhandled, hnow⟩ | ⟨d, new, uid, destination, route, rfl, hflit⟩ |
    ⟨k, route, e, rfl, he, hother, hflit⟩
  · refine ⟨hattached, hlt hs.now_lt, hhandled ▸ hs.origin, hhandled ▸ hs.once, hhandled ▸ hs.room,
      ?_, fun node => ?_⟩
    · rw [hhandled, hrouters]
      exact hs.arrived
    · rw [hrouters]
      exact (hs.lastClock node).trans (Nat.succ_le_succ (Nat.div_le_div_right hnow))
  · obtain ⟨hlast, hzero⟩ := FlitClock.query_eq_ok hquery
    have hclockNumber := FlitClock.clockNumber_eq_ok hclock hs.now_lt hlast
    refine ⟨hattached, hnow ▸ hs.now_lt, hhandled ▸ hs.origin, hhandled ▸ hs.once,
      hhandled ▸ hs.room, fun v => ?_, fun v => ?_⟩
    · rw [hhandled, hrouters]
      by_cases hv : v = node
      · subst hv
        rw [Function.update_self, hzero]
        exact Nat.zero_le _
      · rw [Function.update_of_ne hv]
        exact hs.arrived v
    · rw [hrouters, hnow]
      by_cases hv : v = node
      · subst hv
        rw [Function.update_self]
        exact hclockNumber.le
      · rw [Function.update_of_ne hv]
        exact hs.lastClock v
  · refine hs.handles hclock hattached hflit nofun nofun fun n hn => ?_
    have hroom := hok n hn
    rw [if_pos rfl]
    omega
  · obtain ⟨hlinks, hfresh⟩ := hok e he hother
    have hpending := hs.attached.pending e (List.mem_of_getElem? he)
    refine hs.handles hclock hattached hflit ?_ ?_ fun n hn => ?_
    · intro d hd
      obtain rfl := Option.some.inj hd
      exact ⟨rfl, hpending⟩
    · intro d hd f hf hfd
      exact hfresh f hf (hfd.trans hd.symm)
    · rw [if_neg nofun, Nat.add_zero]
      -- either nothing was injected in this cycle, or an injected flit has left room
      by_cases hzero : injectedIn s.handled (net.node e.destNocNetDevice) n = 0
      · omega
      · obtain ⟨f, hf, hfn⟩ := List.countP_pos_iff.mp (Nat.pos_of_ne_zero hzero)
        obtain ⟨⟨hnode, rfl⟩, -⟩ := of_decide_eq_true hfn
        exact hnode ▸ hs.room f hf

omit [DecidableEq δ] [DecidableEq γ] in
theorem loaded_start (switching : ℕ → σ) : Loaded clock net (start switching) where
  attached := ⟨nofun, nofun⟩
  now_lt := Nat.two_pow_pos 63
  origin := nofun
  once := List.nodup_nil
  room := nofun
  arrived _ := Nat.zero_le _
  lastClock _ := Nat.zero_le _

/-- A head flit that node 0 of the pair injects for node 1 -/
def pairFlit (uid : ℕ) : MeteredStep PairDevice Unit :=
  .injectPacket (.internalInput ⟨0, Nat.two_pos⟩) (.head ⟨[1], [0]⟩ 0 0) uid 1
    ⟨.link ⟨0, Nat.two_pos⟩, .link ⟨1, Nat.one_lt_two⟩, ⟨[0], [0]⟩⟩

end MeteredNetwork
end Ns3Noc
