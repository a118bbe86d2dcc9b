import Ns3Noc.NocHeader
import Ns3Noc.BlockedLoops

/-!
# Net devices, channels and the router's port lookup

A wiring is what a topology's `Install` leaves behind: the link net devices in the order
they were created and the number of channels. A link device is known by its node, channel,
direction and dimension. `LinkedBy` is the abstract view of a wiring: a family of one-way
links along the dimensions, each realised by one channel with two devices.
-/
namespace Ns3Noc

/-- A `NocNetDevice` attached to a channel. -/
structure NocNetDevice where
  node : ℕ
  channel : ℕ
  routingDirection : RoutingDirection
  routingDimension : ℕ
  deriving DecidableEq, Repr

/-- The channels created so far and `m_devices` of the topology. -/
structure Wiring where
  channels : ℕ
  devices : List NocNetDevice
  deriving Repr

namespace Wiring

def empty : Wiring := ⟨0, []⟩

/-- `m_channelFactory.Create ()`; the new channel is the old count. -/
def createChannel (w : Wiring) : Wiring := { w with channels := w.channels + 1 }

/-- A new device on an existing channel, added to the topology, the node and its router. -/
def addDevice (w : Wiring) (d : NocNetDevice) : Wiring := { w with devices := w.devices ++ [d] }

/-- `NocRouter::m_devices` of the router at a node. -/
def routerDevices (w : Wiring) (node : ℕ) : List NocNetDevice :=
  w.devices.filter (fun d => d.node == node)

/-- `FourWayRouter::GetInputNetDevice`: the first device with this direction and dimension. -/
def getInputNetDevice (w : Wiring) (node : ℕ) (routingDirection : RoutingDirection)
    (routingDimension : ℕ) : Option NocNetDevice :=
  (w.routerDevices node).find? (fun d =>
    d.routingDirection == routingDirection && d.routingDimension == routingDimension)

/-- `FourWayRouter::GetOutputNetDevice`. -/
def getOutputNetDevice (w : Wiring) (node : ℕ) (routingDirection : RoutingDirection)
    (routingDimension : ℕ) : Option NocNetDevice :=
  w.getInputNetDevice node routingDirection routingDimension

/-- `NocChannel::m_devices`. -/
def channelDevices (w : Wiring) (channel : ℕ) : List NocNetDevice :=
  w.devices.filter (fun d => d.channel == channel)

/-- The receiver that `NocChannel::TransmitStart` finds for a sender. -/
def peer (w : Wiring) (sender : NocNetDevice) : Option NocNetDevice :=
  (w.channelDevices sender.channel).find? (fun d => d != sender)

@[simp] theorem createChannel_devices (w : Wiring) : w.createChannel.devices = w.devices := rfl
@[simp] theorem createChannel_channels (w : Wiring) :
    w.createChannel.channels = w.channels + 1 := rfl
@[simp] theorem addDevice_devices (w : Wiring) (d : NocNetDevice) :
    (w.addDevice d).devices = w.devices ++ [d] := rfl
@[simp] theorem addDevice_channels (w : Wiring) (d : NocNetDevice) :
    (w.addDevice d).channels = w.channels := rfl

theorem mem_routerDevices {w : Wiring} {v : ℕ} {d : NocNetDevice} :
    d ∈ w.routerDevices v ↔ d ∈ w.devices ∧ d.node = v := by simp [routerDevices]

theorem mem_channelDevices {w : Wiring} {c : ℕ} {d : NocNetDevice} :
    d ∈ w.channelDevices c ↔ d ∈ w.devices ∧ d.channel = c := by simp [channelDevices]

theorem getInputNetDevice_spec {w : Wiring} {v k : ℕ} {r : RoutingDirection} {d : NocNetDevice}
    (h : w.getInputNetDevice v r k = some d) :
    d ∈ w.devices ∧ d.node = v ∧ d.routingDirection = r ∧ d.routingDimension = k := by
  obtain ⟨hm, hn⟩ := mem_routerDevices.mp (List.mem_of_find?_eq_some h)
  have hp := List.find?_some h
  simp only [Bool.and_eq_true, beq_iff_eq] at hp
  exact ⟨hm, hn, hp⟩

theorem getInputNetDevice_of_unique {w : Wiring} {d : NocNetDevice} (hd : d ∈ w.devices)
    (hu : ∀ e ∈ w.devices, e.node = d.node → e.routingDirection = d.routingDirection →
      e.routingDimension = d.routingDimension → e = d) :
    w.getInputNetDevice d.node d.routingDirection d.routingDimension = some d := by
  refine BlockedLoops.find?_of_unique (mem_routerDevices.mpr ⟨hd, rfl⟩) (by simp) ?_
  intro e he hp
  obtain ⟨hm, hn⟩ := mem_routerDevices.mp he
  simp only [Bool.and_eq_true, beq_iff_eq] at hp
  exact hu e hm hn hp.1 hp.2

theorem peer_of_unique {w : Wiring} {d e : NocNetDevice} (he : e ∈ w.devices)
    (hc : e.channel = d.channel) (hne : e ≠ d)
    (hu : ∀ x ∈ w.devices, x.channel = d.channel → x ≠ d → x = e) : w.peer d = some e := by
  refine BlockedLoops.find?_of_unique (mem_channelDevices.mpr ⟨he, hc⟩) (by simpa using hne) ?_
  intro x hx hp
  obtain ⟨hm, hxc⟩ := mem_channelDevices.mp hx
  exact hu x hm hxc (by simpa using hp)

end Wiring

/-- The devices of `w` are exactly the two ends of the links `v → next k v` along the
dimensions below `dimensions`, for the nodes below `nodes`; `chan` names their channels. -/
structure LinkedBy (w : Wiring) (dimensions nodes : ℕ) (next : ℕ → ℕ → Option ℕ)
    (chan : ℕ → ℕ → ℕ) : Prop where
  mem_devices : ∀ d, d ∈ w.devices ↔ ∃ k < dimensions, ∃ v < nodes, ∃ v', next k v = some v' ∧
    (d = ⟨v, chan k v, .forward, k⟩ ∨ d = ⟨v', chan k v, .back, k⟩)
  chan_inj : ∀ k < dimensions, ∀ k' < dimensions, ∀ v < nodes, ∀ v' < nodes,
    (next k v).isSome → (next k' v').isSome → chan k v = chan k' v' → k = k' ∧ v = v'
  next_inj : ∀ k < dimensions, ∀ v < nodes, ∀ v' < nodes, ∀ u,
    next k v = some u → next k v' = some u → v = v'

namespace LinkedBy
variable {w : Wiring} {dimensions nodes : ℕ} {next : ℕ → ℕ → Option ℕ} {chan : ℕ → ℕ → ℕ}
variable {k v u : ℕ}

theorem forward_mem (h : LinkedBy w dimensions nodes next chan) (hk : k < dimensions)
    (hv : v < nodes) (hn : next k v = some u) :
    (⟨v, chan k v, .forward, k⟩ : NocNetDevice) ∈ w.devices :=
  (h.mem_devices _).mpr ⟨k, hk, v, hv, u, hn, .inl rfl⟩

theorem back_mem (h : LinkedBy w dimensions nodes next chan) (hk : k < dimensions)
    (hv : v < nodes) (hn : next k v = some u) :
    (⟨u, chan k v, .back, k⟩ : NocNetDevice) ∈ w.devices :=
  (h.mem_devices _).mpr ⟨k, hk, v, hv, u, hn, .inr rfl⟩

/-- The forward port of the lower end of a link. -/
theorem getInputNetDevice_forward (h : LinkedBy w dimensions nodes next chan)
    (hk : k < dimensions) (hv : v < nodes) (hn : next k v = some u) :
    w.getInputNetDevice v .forward k = some ⟨v, chan k v, .forward, k⟩ := by
  refine Wiring.getInputNetDevice_of_unique (h.forward_mem hk hv hn) ?_
  intro e he hnode hdir hdim
  obtain ⟨k', hk', v', hv', u', hn', rfl | rfl⟩ := (h.mem_devices e).mp he
  · simp only at hnode hdim
    subst hnode hdim
    rfl
  · cases hdir

/-- The back port of the upper end of a link. -/
theorem getInputNetDevice_back (h : LinkedBy w dimensions nodes next chan)
    (hk : k < dimensions) (hv : v < nodes) (hn : next k v = some u) :
    w.getInputNetDevice u .back k = some ⟨u, chan k v, .back, k⟩ := by
  refine Wiring.getInputNetDevice_of_unique (h.back_mem hk hv hn) ?_
  intro e he hnode hdir hdim
  obtain ⟨k', hk', v', hv', u', hn', rfl | rfl⟩ := (h.mem_devices e).mp he
  · cases hdir
  · simp only at hnode hdim
    subst hnode hdim
    rw [h.next_inj k' hk v hv v' hv' u' hn hn']

theorem channel_eq (h : LinkedBy w dimensions nodes next chan) (hk : k < dimensions)
    (hv : v < nodes) (hn : next k v = some u) {d : NocNetDevice} (hd : d ∈ w.devices)
    (hc : d.channel = chan k v) :
    d = ⟨v, chan k v, .forward, k⟩ ∨ d = ⟨u, chan k v, .back, k⟩ := by
  obtain ⟨k', hk', v', hv', u', hn', hd'⟩ := (h.mem_devices d).mp hd
  have hc' : chan k' v' = chan k v := by rcases hd' with rfl | rfl <;> exact hc
  obtain ⟨rfl, rfl⟩ := h.chan_inj k' hk' k hk v' hv' v hv (by simp [hn']) (by simp [hn]) hc'
  rw [hn] at hn'
  cases hn'
  exact hd'

theorem peer_forward (h : LinkedBy w dimensions nodes next chan) (hk : k < dimensions)
    (hv : v < nodes) (hn : next k v = some u) :
    w.peer ⟨v, chan k v, .forward, k⟩ = some ⟨u, chan k v, .back, k⟩ := by
  refine Wiring.peer_of_unique (h.back_mem hk hv hn) rfl (by simp) ?_
  intro x hx hc hne
  exact (h.channel_eq hk hv hn hx hc).resolve_left hne

theorem peer_back (h : LinkedBy w dimensions nodes next chan) (hk : k < dimensions)
    (hv : v < nodes) (hn : next k v = some u) :
    w.peer ⟨u, chan k v, .back, k⟩ = some ⟨v, chan k v, .forward, k⟩ := by
  refine Wiring.peer_of_unique (h.forward_mem hk hv hn) rfl (by simp) ?_
  intro x hx hc hne
  exact (h.channel_eq hk hv hn hx hc).resolve_right hne

end LinkedBy
end Ns3Noc
