import Ns3Noc.FlitConservation

/-!
# Body flits

A data or tail flit knows only the uid of its head, and takes at every router the devices that the
head took there. The flits of a packet share their in-queues, which are first in, first out, so that
each of them finds a longer way behind the flit before it than behind itself.
-/
namespace Ns3Noc

open PartialRuns

variable {δ γ σ : Type}

/-- The maps of a `NocRoutingProtocol`, by the uid of a head. -/
structure PacketRoutes (δ : Type) where
  packetSourceNetDevices : ℕ → Option δ := fun _ => none
  packetDestinationNetDevices : ℕ → Option δ := fun _ => none

/-- `NocRoutingProtocol::RequestRoute`. The new route is what `RequestNewRoute` answers for a head;
a body flit that finds no devices is a failed assertion. -/
def PacketRoutes.requestRoute (r : PacketRoutes δ) (packet : NocPacket) (newRoute : RouteReply δ) :
    Option (RouteReply δ × PacketRoutes δ) :=
  if packet.packetType = .head then
    some (newRoute,
      { packetSourceNetDevices :=
          Function.update r.packetSourceNetDevices packet.uid (some newRoute.sourceDevice)
        packetDestinationNetDevices :=
          Function.update r.packetDestinationNetDevices packet.uid
            (some newRoute.destinationDevice) })
  else do
    let sourceDevice ← r.packetSourceNetDevices packet.packetHeadUid
    let destinationDevice ← r.packetDestinationNetDevices packet.packetHeadUid
    some (⟨sourceDevice, destinationDevice, newRoute.header⟩, r)

/-- The triple that `DoSend` makes of a route. -/
def RouteReply.srcDest (route : RouteReply δ) : SrcDest δ :=
  ⟨some route.sourceDevice, some route.destinationDevice, some route.sourceDevice⟩

/-- The maps hold this triple for a head. -/
structure PacketRoutes.Answers (r : PacketRoutes δ) (head : ℕ) (srcDest : SrcDest δ) : Prop where
  source : r.packetSourceNetDevices head = srcDest.viaNetDevice
  destination : r.packetDestinationNetDevices head = srcDest.dest

theorem PacketRoutes.requestRoute_keep {r r' : PacketRoutes δ} {packet : NocPacket}
    {newRoute route : RouteReply δ} (h : r.requestRoute packet newRoute = some (route, r')) {head : ℕ}
    {srcDest : SrcDest δ} (hne : packet.packetType = .head → head ≠ packet.uid)
    (hanswers : r.Answers head srcDest) : r'.Answers head srcDest := by
  rw [PacketRoutes.requestRoute] at h
  split_ifs at h with hhead
  · obtain ⟨-, rfl⟩ := Prod.mk.inj (Option.some.inj h)
    exact ⟨(Function.update_of_ne (hne hhead) _ _).trans hanswers.source,
      (Function.update_of_ne (hne hhead) _ _).trans hanswers.destination⟩
  · obtain ⟨sourceDevice, -, h⟩ := Option.bind_eq_some_iff.mp h
    obtain ⟨destinationDevice, -, h⟩ := Option.bind_eq_some_iff.mp h
    obtain ⟨-, rfl⟩ := Prod.mk.inj (Option.some.inj h)
    exact hanswers

theorem PacketRoutes.requestRoute_head {r r' : PacketRoutes δ} {packet : NocPacket}
    {newRoute route : RouteReply δ} (hhead : packet.packetType = .head)
    (h : r.requestRoute packet newRoute = some (route, r')) :
    r'.Answers packet.uid route.srcDest := by
  rw [PacketRoutes.requestRoute, if_pos hhead, Option.some.injEq, Prod.mk.injEq] at h
  obtain ⟨rfl, rfl⟩ := h
  exact ⟨Function.update_self _ _ _, Function.update_self _ _ _⟩

theorem PacketRoutes.requestRoute_body {r r' : PacketRoutes δ} {packet : NocPacket}
    {newRoute route : RouteReply δ} {srcDest : SrcDest δ} (hbody : packet.packetType ≠ .head)
    (h : r.requestRoute packet newRoute = some (route, r'))
    (hanswers : r.Answers packet.packetHeadUid srcDest) (hsrc : srcDest.src = srcDest.viaNetDevice) :
    route.srcDest = srcDest ∧ r' = r := by
  rw [PacketRoutes.requestRoute, if_neg hbody] at h
  obtain ⟨sourceDevice, hsource, h⟩ := Option.bind_eq_some_iff.mp h
  obtain ⟨destinationDevice, hdestination, h⟩ := Option.bind_eq_some_iff.mp h
  obtain ⟨rfl, rfl⟩ := Prod.mk.inj (Option.some.inj h)
  rw [hanswers.source] at hsource
  rw [hanswers.destination] at hdestination
  obtain ⟨src, dest, via⟩ := srcDest
  dsimp only at hsource hdestination hsrc
  subst hsource hdestination hsrc
  exact ⟨rfl, rfl⟩

/-- A body flit whose head has come by finds its devices. -/
theorem PacketRoutes.Answers.found {r : PacketRoutes δ} {packet : NocPacket} {route : RouteReply δ}
    (h : r.Answers packet.packetHeadUid route.srcDest) (hbody : packet.packetType ≠ .head)
    (newRoute : RouteReply δ) : ∃ route', r.requestRoute packet newRoute = some (route', r) ∧
      route'.srcDest = route.srcDest := by
  refine ⟨⟨route.sourceDevice, route.destinationDevice, newRoute.header⟩, ?_, rfl⟩
  rw [PacketRoutes.requestRoute, if_neg hbody, h.source, h.destination]
  rfl

/-- The uid of the head of a packet. -/
def NewPacket.packetUid (uid : ℕ) : NewPacket → ℕ
  | head _ _ _ => uid
  | body headPacketUid _ => headPacketUid

/-! ## Flits on their ways -/

/-- Where flits wait, the devices and triples of their ways so far, which of them were delivered,
and which of them came into the network, each with its device. -/
structure Travels (δ : Type) where
  queued : δ → List ℕ
  visits : ℕ → List (δ × SrcDest δ)
  delivered : List ℕ
  injected : List (δ × NewPacket × ℕ)

namespace Travels

/-- The flits of a packet, in the order in which they came into the network. -/
def flits (t : Travels δ) (head : ℕ) : List ℕ :=
  (t.injected.filter fun i => i.2.1.packetUid i.2.2 = head).map fun i => i.2.2

def inject (t : Travels δ) (d : δ) (new : NewPacket) (uid : ℕ) : Travels δ :=
  { t with injected := t.injected ++ [(d, new, uid)] }

def deliver (t : Travels δ) (uid : ℕ) : Travels δ := { t with delivered := t.delivered ++ [uid] }

variable [DecidableEq δ]

def enqueue (t : Travels δ) (d : δ) (uid : ℕ) (srcDest : SrcDest δ) : Travels δ :=
  { t with
    queued := Function.update t.queued d (t.queued d ++ [uid])
    visits := Function.update t.visits uid (t.visits uid ++ [(d, srcDest)]) }

def dequeue (t : Travels δ) (d : δ) : Travels δ :=
  { t with queued := Function.update t.queued d (t.queued d).tail }

omit [DecidableEq δ] in
theorem flits_inject (t : Travels δ) (d : δ) (new : NewPacket) (uid head : ℕ) :
    (t.inject d new uid).flits head =
      t.flits head ++ if new.packetUid uid = head then [uid] else [] := by
  rw [flits, inject, flits, List.filter_append, List.map_append]
  split_ifs with h
  · simp [h]
  · simp [h]

/-- From one device to the next, and never past the device that the flit is intended for. -/
structure Onward (peer : SrcDest δ → Option δ) (a b : δ × SrcDest δ) : Prop where
  next : peer a.2 = some b.1
  passes : a.2.dest ≠ some b.1

/-- One flit is behind another: its way is a part of the way of the other, and where they are on the
same device the other leaves first. -/
structure Behind (t : Travels δ) (u w : ℕ) : Prop where
  way : t.visits w <+: t.visits u
  later : t.visits w = t.visits u → u ∈ t.delivered ∨ ∃ d, [u, w].Sublist (t.queued d)

/-- What holds of the ways of flits, where `peer` is the next device for a triple. -/
structure Ordered (node : δ → ℕ) (peer : SrcDest δ → Option δ) (t : Travels δ)
    (routes : ℕ → PacketRoutes δ) : Prop where
  nodup : (t.injected.map fun i => i.2.2).Nodup
  visited : ∀ uid, t.visits uid ≠ [] → ∃ i ∈ t.injected, i.2.2 = uid
  started : ∀ i ∈ t.injected, ∃ srcDest rest, t.visits i.2.2 = (i.1, srcDest) :: rest
  headFirst : ∀ head, t.flits head ≠ [] → ∃ rest, t.flits head = head :: rest
  heads : ∀ i ∈ t.injected, i.2.1.packetUid i.2.2 = i.2.2 →
    ∃ header dataFlitCount uninitialised, i.2.1 = .head header dataFlitCount uninitialised
  here : ∀ d, ∀ uid ∈ t.queued d, ∃ srcDest, (t.visits uid).getLast? = some (d, srcDest)
  onward : ∀ uid, (t.visits uid).IsChain (Onward peer)
  arrived : ∀ uid ∈ t.delivered, ∃ a, (t.visits uid).getLast? = some a ∧
    ∃ d, peer a.2 = some d ∧ a.2.dest = some d
  nodes : ∀ head ∈ t.flits head, ((t.visits head).map fun a => node a.1).Nodup
  cached : ∀ head ∈ t.flits head, ∀ a ∈ t.visits head, (routes (node a.1)).Answers head a.2 ∧
    ∃ route : RouteReply δ, a.2 = route.srcDest
  behind : ∀ head, (t.flits head).Pairwise t.Behind
  inOrder : ∀ head, (t.delivered.filter (· ∈ t.flits head)) <+: t.flits head

section Behind
variable {t : Travels δ} {u g w : ℕ} {d d' : δ} {srcDest : SrcDest δ}

omit [DecidableEq δ] in
theorem mem_flits {head uid : ℕ} :
    uid ∈ t.flits head ↔ ∃ i ∈ t.injected, i.2.1.packetUid i.2.2 = head ∧ i.2.2 = uid := by
  simp [flits]

@[simp] theorem visits_enqueue_self :
    (t.enqueue d w srcDest).visits w = t.visits w ++ [(d, srcDest)] :=
  Function.update_self _ _ _

theorem visits_enqueue_of_ne (h : u ≠ w) : (t.enqueue d w srcDest).visits u = t.visits u :=
  Function.update_of_ne h _ _

theorem sublist_enqueue {l : List ℕ} (h : l.Sublist (t.queued d')) :
    l.Sublist ((t.enqueue d w srcDest).queued d') := by
  by_cases hd : d' = d
  · subst hd
    simp only [enqueue, Function.update_self]
    exact h.trans (List.sublist_append_left _ _)
  · simpa only [enqueue, Function.update_of_ne hd] using h

theorem sublist_dequeue {rest : List ℕ} (hqueue : t.queued d = w :: rest) (hu : u ≠ w)
    (h : [u, g].Sublist (t.queued d')) : [u, g].Sublist ((t.dequeue d).queued d') := by
  by_cases hd : d' = d
  · subst hd
    rw [hqueue] at h
    simp only [dequeue, Function.update_self, hqueue, List.tail_cons]
    cases h with
    | cons _ h => exact h
    | cons_cons _ h => exact absurd rfl hu
  · simpa only [dequeue, Function.update_of_ne hd] using h

theorem Behind.enqueue_other (h : t.Behind u g) (hu : u ≠ w) (hg : g ≠ w) :
    (t.enqueue d w srcDest).Behind u g := by
  refine ⟨?_, fun heq => ?_⟩
  · rw [visits_enqueue_of_ne hu, visits_enqueue_of_ne hg]
    exact h.way
  · rw [visits_enqueue_of_ne hu, visits_enqueue_of_ne hg] at heq
    obtain hdelivered | ⟨d', hqueued⟩ := h.later heq
    · exact .inl hdelivered
    · exact .inr ⟨d', sublist_enqueue hqueued⟩

theorem Behind.dequeue {rest : List ℕ} (h : t.Behind u g) (hqueue : t.queued d = w :: rest)
    (hu : u ≠ w) : (t.dequeue d).Behind u g := by
  refine ⟨h.way, fun heq => ?_⟩
  obtain hdelivered | ⟨d', hqueued⟩ := h.later heq
  · exact .inl hdelivered
  · exact .inr ⟨d', sublist_dequeue hqueue hu hqueued⟩

/-- A flit that goes on leaves those behind it further behind. -/
theorem Behind.enqueue_first (h : t.visits g <+: t.visits w) (hg : g ≠ w) :
    (t.enqueue d w srcDest).Behind w g := by
  refine ⟨?_, fun heq => ?_⟩
  · rw [visits_enqueue_of_ne hg, visits_enqueue_self]
    exact h.trans (List.prefix_append _ _)
  · rw [visits_enqueue_of_ne hg, visits_enqueue_self] at heq
    have hle := h.length_le
    rw [heq, List.length_append, List.length_singleton] at hle
    omega

/-- A flit comes to a device where another one of its packet has been. -/
theorem Behind.enqueue_last (hu : u ≠ w) (h : t.visits w ++ [(d, srcDest)] <+: t.visits u)
    (hplace : t.visits w ++ [(d, srcDest)] = t.visits u → u ∈ t.delivered ∨ u ∈ t.queued d) :
    (t.enqueue d w srcDest).Behind u w := by
  refine ⟨?_, fun heq => ?_⟩
  · rwa [visits_enqueue_of_ne hu, visits_enqueue_self]
  · rw [visits_enqueue_of_ne hu, visits_enqueue_self] at heq
    obtain hdelivered | hqueued := hplace heq
    · exact .inl hdelivered
    · refine .inr ⟨d, ?_⟩
      simp only [Travels.enqueue, Function.update_self]
      exact (List.singleton_sublist.mpr hqueued).append (List.Sublist.refl [w])

end Behind

section Ordered
variable {node : δ → ℕ} {peer : SrcDest δ → Option δ} {t : Travels δ} {routes routes' : ℕ → PacketRoutes δ}
  {u w head : ℕ} {d d' : δ} {sd sd' : SrcDest δ} {rest : List ℕ}

omit [DecidableEq δ] in
theorem Ordered.nodup_flits (h : Ordered node peer t routes) (head : ℕ) : (t.flits head).Nodup :=
  ((List.filter_sublist).map _).nodup h.nodup

omit [DecidableEq δ] in
/-- The head comes first. -/
theorem Ordered.pairwise_body (h : Ordered node peer t routes) (head : ℕ) :
    (t.flits head).Pairwise fun _ g => g ≠ head := by
  by_cases hnil : t.flits head = []
  · rw [hnil]
    exact List.Pairwise.nil
  · obtain ⟨rest, hrest⟩ := h.headFirst head hnil
    have hnodup := h.nodup_flits head
    rw [hrest, List.nodup_cons] at hnodup
    have hne : ∀ g ∈ rest, g ≠ head := fun g hg heq => hnodup.1 (heq ▸ hg)
    rw [hrest, List.pairwise_cons]
    exact ⟨hne, hnodup.2.imp_of_mem fun _ hg _ => hne _ hg⟩

omit [DecidableEq δ] in
theorem Ordered.behind_head (h : Ordered node peer t routes) (hu : u ∈ t.flits head)
    (hne : u ≠ head) : t.Behind head u := by
  obtain ⟨rest, hrest⟩ := h.headFirst head (List.ne_nil_of_mem hu)
  have hbehind := h.behind head
  rw [hrest, List.pairwise_cons] at hbehind
  rw [hrest] at hu
  exact hbehind.1 u ((List.mem_cons.mp hu).resolve_left hne)

omit [DecidableEq δ] in
/-- No flit of a packet leaves the way of the head. -/
theorem Ordered.way_head (h : Ordered node peer t routes) (hu : u ∈ t.flits head) :
    t.visits u <+: t.visits head := by
  by_cases hne : u = head
  · rw [hne]
  · exact (h.behind_head hu hne).way

omit [DecidableEq δ] in
/-- The first flit of an in-queue is not behind another one there. -/
theorem not_sublist_first (hqueue : t.queued d = w :: rest) (hnodup : (t.queued d).Nodup) :
    ¬[u, w].Sublist (t.queued d) := by
  intro h
  have hsub := h.nodup hnodup
  rw [hqueue] at h hnodup
  rw [List.nodup_cons] at hnodup
  cases h with
  | cons _ h => exact hnodup.1 (h.subset (List.mem_cons_of_mem _ List.mem_cons_self))
  | cons_cons _ h => simp at hsub

omit [DecidableEq δ] in
/-- The flits before the first one of an in-queue have gone further, unless they were delivered. -/
theorem Ordered.ahead (h : Ordered node peer t routes) (hnodup : ∀ d, (t.queued d).Nodup)
    (hqueue : t.queued d = w :: rest) (hb : t.Behind u w) :
    t.visits w = t.visits u ∧ u ∈ t.delivered ∨
      ∃ b later, t.visits u = t.visits w ++ b :: later ∧
        ∀ a, (t.visits w).getLast? = some a → Onward peer a b := by
  obtain ⟨later, hlater⟩ := hb.way
  cases later with
  | nil =>
    rw [List.append_nil] at hlater
    refine .inl ⟨hlater, (hb.later hlater).resolve_right ?_⟩
    rintro ⟨d', hsub⟩
    obtain ⟨sd, hlast⟩ := h.here d' w (hsub.subset (List.mem_cons_of_mem _ List.mem_cons_self))
    obtain ⟨sd', hlast'⟩ := h.here d w (hqueue ▸ List.mem_cons_self)
    obtain ⟨rfl, -⟩ := Prod.mk.inj (Option.some.inj (hlast.symm.trans hlast'))
    exact not_sublist_first hqueue (hnodup d') hsub
  | cons b later =>
    refine .inr ⟨b, later, hlater.symm, fun a ha => ?_⟩
    have hchain := h.onward u
    rw [← hlater, List.isChain_append] at hchain
    exact hchain.2.2 a ha b rfl

theorem mem_dequeue (hqueue : t.queued d = w :: rest) (hu : u ≠ w) (h : u ∈ t.queued d') :
    u ∈ (t.dequeue d).queued d' := by
  by_cases hd : d' = d
  · subst hd
    rw [hqueue] at h
    simp only [dequeue, Function.update_self, hqueue, List.tail_cons]
    exact (List.mem_cons.mp h).resolve_left hu
  · simpa only [dequeue, Function.update_of_ne hd] using h

theorem mem_queued_dequeue (h : Ordered node peer t routes) (hqueue : t.queued d = w :: rest)
    (hnodup : (t.queued d).Nodup) (hu : u ∈ (t.dequeue d).queued d') : u ∈ t.queued d' ∧ u ≠ w := by
  rw [hqueue, List.nodup_cons] at hnodup
  by_cases hd : d' = d
  · subst hd
    simp only [dequeue, Function.update_self, hqueue, List.tail_cons] at hu
    refine ⟨hqueue ▸ List.mem_cons_of_mem _ hu, ?_⟩
    rintro rfl
    exact hnodup.1 hu
  · simp only [dequeue, Function.update_of_ne hd] at hu
    refine ⟨hu, ?_⟩
    rintro rfl
    obtain ⟨sd, hlast⟩ := h.here d' u hu
    obtain ⟨sd', hlast'⟩ := h.here d u (hqueue ▸ List.mem_cons_self)
    exact hd (Prod.mk.inj (Option.some.inj (hlast.symm.trans hlast'))).1

/-- The first flit of an in-queue goes on to the next device. -/
theorem Ordered.hop (h : Ordered node peer t routes) (hnodup : ∀ d, (t.queued d).Nodup)
    (hplace : ∀ i ∈ t.injected, i.2.2 ∈ t.delivered ∨ ∃ d, i.2.2 ∈ t.queued d)
    (hnot : w ∉ t.delivered) (hqueue : t.queued d = w :: rest)
    (hlast : (t.visits w).getLast? = some (d, sd)) (honward : Onward peer (d, sd) (d', sd'))
    (hnext : ∀ head, w ∈ t.flits head → w ≠ head → ∀ b ∈ t.visits head, b.1 = d' → b.2 = sd')
    (hkeep : ∀ head ∈ t.flits head, ∀ a ∈ t.visits head, (routes' (node a.1)).Answers head a.2)
    (hnew : w ∈ t.flits w → node d' ∉ (t.visits w).map (fun a => node a.1) ∧
      (routes' (node d')).Answers w sd')
    (hroute : ∃ route : RouteReply δ, sd' = route.srcDest) :
    Ordered node peer ((t.dequeue d).enqueue d' w sd') routes' where
  nodup := h.nodup
  visited uid huid := by
    refine h.visited uid ?_
    by_cases hw : uid = w
    · subst hw
      rintro hnil
      rw [hnil] at hlast
      cases hlast
    · rwa [visits_enqueue_of_ne hw] at huid
  started i hi := by
    obtain ⟨sd₀, later, hstart⟩ := h.started i hi
    by_cases hw : i.2.2 = w
    · rw [hw] at hstart ⊢
      exact ⟨sd₀, later ++ [(d', sd')], by rw [visits_enqueue_self, ← List.cons_append, ← hstart]; rfl⟩
    · exact ⟨sd₀, later, by rw [visits_enqueue_of_ne hw]; exact hstart⟩
  headFirst := h.headFirst
  heads := h.heads
  here d₁ uid huid := by
    have hcases : d₁ = d' ∧ uid = w ∨ uid ∈ (t.dequeue d).queued d₁ := by
      by_cases hd : d₁ = d'
      · subst hd
        simp only [enqueue, Function.update_self, List.mem_append, List.mem_singleton] at huid
        obtain huid | rfl := huid
        · exact .inr huid
        · exact .inl ⟨rfl, rfl⟩
      · simp only [enqueue, Function.update_of_ne hd] at huid
        exact .inr huid
    obtain ⟨rfl, rfl⟩ | hmem := hcases
    · exact ⟨sd', by rw [visits_enqueue_self, List.getLast?_concat]⟩
    · obtain ⟨hmem, hw⟩ := mem_queued_dequeue h hqueue (hnodup d) hmem
      rw [visits_enqueue_of_ne hw]
      exact h.here d₁ uid hmem
  onward uid := by
    by_cases hw : uid = w
    · subst hw
      rw [visits_enqueue_self, List.isChain_append]
      refine ⟨h.onward uid, List.isChain_singleton _, fun a ha b hb => ?_⟩
      obtain rfl := Option.some.inj (hlast.symm.trans ha)
      obtain rfl := Option.some.inj hb
      exact honward
    · rw [visits_enqueue_of_ne hw]
      exact h.onward uid
  arrived uid huid := by
    have hw : uid ≠ w := fun heq => hnot (heq ▸ huid)
    rw [visits_enqueue_of_ne hw]
    exact h.arrived uid huid
  nodes head hhead := by
    by_cases hw : head = w
    · subst hw
      rw [visits_enqueue_self, List.map_append, List.map_singleton, ← List.concat_eq_append]
      exact (h.nodes head hhead).concat (hnew hhead).1
    · rw [visits_enqueue_of_ne hw]
      exact h.nodes head hhead
  cached head hhead a ha := by
    by_cases hw : head = w
    · subst hw
      rw [visits_enqueue_self, List.mem_append, List.mem_singleton] at ha
      obtain ha | rfl := ha
      · exact ⟨hkeep head hhead a ha, (h.cached head hhead a ha).2⟩
      · exact ⟨(hnew hhead).2, hroute⟩
    · rw [visits_enqueue_of_ne hw] at ha
      exact ⟨hkeep head hhead a ha, (h.cached head hhead a ha).2⟩
  behind head := by
    refine ((h.behind head).and ((h.nodup_flits head).and (h.pairwise_body head))).imp_of_mem ?_
    rintro u g hu hg ⟨hb, hne, hgh⟩
    by_cases huw : u = w
    · subst huw
      exact Behind.enqueue_first hb.way hne.symm
    by_cases hgw : g = w
    · subst hgw
      obtain ⟨hway, hdelivered⟩ | ⟨b, later, hway, hb⟩ := h.ahead hnodup hqueue hb
      · obtain ⟨a, ha, d₁, hpeer, hdest⟩ := h.arrived u hdelivered
        rw [← hway, hlast, Option.some.injEq] at ha
        subst ha
        obtain rfl := Option.some.inj (honward.next.symm.trans hpeer)
        exact absurd hdest honward.passes
      · have hdevice : b.1 = d' := Option.some.inj ((hb _ hlast).next.symm.trans honward.next)
        have hmem : b ∈ t.visits head :=
          (h.way_head hu).subset (hway ▸ List.mem_append_right _ List.mem_cons_self)
        obtain rfl : b = (d', sd') := Prod.ext hdevice (hnext head hg hgh b hmem hdevice)
        refine Behind.enqueue_last huw ?_ fun heq => ?_
        · exact ⟨later, by rw [List.append_assoc]; exact hway.symm⟩
        · obtain ⟨i, hi, -, rfl⟩ := mem_flits.mp hu
          obtain hdelivered | ⟨d₁, hqueued⟩ := hplace i hi
          · exact .inl hdelivered
          · obtain ⟨sd₁, hlast₁⟩ := h.here d₁ i.2.2 hqueued
            have heq' : t.visits g ++ [(d', sd')] = t.visits i.2.2 := heq
            rw [← heq', List.getLast?_concat, Option.some.injEq, Prod.mk.injEq] at hlast₁
            exact .inr (mem_dequeue hqueue huw (hlast₁.1 ▸ hqueued))
    · exact (hb.dequeue hqueue huw).enqueue_other huw hgw
  inOrder := h.inOrder

omit [DecidableEq δ] in
/-- The delivered flits of a packet are the first ones, and the next one is delivered. -/
theorem prefix_concat {delivered before after : List ℕ} (h : delivered <+: before ++ w :: after)
    (hnot : w ∉ delivered) (hnodup : (before ++ w :: after).Nodup) (hbefore : before ⊆ delivered) :
    delivered ++ [w] <+: before ++ w :: after := by
  have hbefore' : before <+: before ++ w :: after := List.prefix_append _ _
  have hle : delivered.length ≤ before.length := by
    by_contra hlt
    have hw : before ++ [w] <+: delivered := by
      refine List.prefix_of_prefix_length_le ⟨after, by simp⟩ h ?_
      rw [List.length_append, List.length_singleton]
      omega
    exact hnot (hw.subset (List.mem_append_right _ List.mem_cons_self))
  have hpre : delivered <+: before := List.prefix_of_prefix_length_le h hbefore' hle
  have hlength : before.length ≤ delivered.length :=
    (List.subperm_of_subset (List.nodup_append.mp hnodup).1 hbefore).length_le
  rw [hpre.eq_of_length_le hlength]
  exact ⟨after, by simp⟩

/-- The first flit of an in-queue is delivered. -/
theorem Ordered.arrive (h : Ordered node peer t routes) (hnodup : ∀ d, (t.queued d).Nodup)
    (hnot : w ∉ t.delivered) (hqueue : t.queued d = w :: rest)
    (hlast : (t.visits w).getLast? = some (d, sd)) (hpeer : peer sd = some d')
    (hdest : sd.dest = some d') : Ordered node peer ((t.dequeue d).deliver w) routes where
  nodup := h.nodup
  visited := h.visited
  started := h.started
  headFirst := h.headFirst
  heads := h.heads
  here d₁ uid huid := h.here d₁ uid (mem_queued_dequeue h hqueue (hnodup d) huid).1
  onward := h.onward
  arrived uid huid := by
    obtain huid | huid := List.mem_append.mp huid
    · exact h.arrived uid huid
    · obtain rfl := List.mem_singleton.mp huid
      exact ⟨_, hlast, d', hpeer, hdest⟩
  nodes := h.nodes
  cached := h.cached
  behind head := by
    refine (h.behind head).imp fun {u g} hb => ⟨hb.way, fun heq => ?_⟩
    by_cases huw : u = w
    · exact .inl (List.mem_append_right _ (List.mem_singleton.mpr huw))
    · obtain hdelivered | ⟨d₁, hqueued⟩ := hb.later heq
      · exact .inl (List.mem_append_left _ hdelivered)
      · exact .inr ⟨d₁, sublist_dequeue hqueue huw hqueued⟩
  inOrder head := by
    have hflits : ((t.dequeue d).deliver w).flits head = t.flits head := rfl
    rw [hflits]
    simp only [deliver, dequeue, List.filter_append]
    by_cases hw : w ∈ t.flits head
    · obtain ⟨before, after, hsplit⟩ := List.append_of_mem hw
      have hbehind := h.behind head
      have hflitsNodup := h.nodup_flits head
      have horder := h.inOrder head
      rw [hsplit] at hbehind hflitsNodup
      rw [List.filter_cons_of_pos (by simpa using hw), List.filter_nil]
      have hbefore : before ⊆ t.delivered.filter (· ∈ t.flits head) := by
        intro u hu
        have hb := (List.pairwise_append.mp hbehind).2.2 u hu w List.mem_cons_self
        refine List.mem_filter.mpr ⟨?_, by simp [hsplit, hu]⟩
        obtain ⟨-, hdelivered⟩ | ⟨b, later, -, honward⟩ := h.ahead hnodup hqueue hb
        · exact hdelivered
        · have hnext := honward _ hlast
          obtain heq := Option.some.inj (hpeer.symm.trans hnext.next)
          exact absurd (heq ▸ hdest) hnext.passes
      conv_rhs => rw [hsplit]
      refine prefix_concat ?_ (fun hmem => hnot (List.mem_filter.mp hmem).1) hflitsNodup hbefore
      rwa [← hsplit]
    · rw [List.filter_cons_of_neg (by simpa using hw), List.filter_nil, List.append_nil]
      exact h.inOrder head

/-- A flit comes into the network. -/
theorem Ordered.enter (h : Ordered node peer t routes) {uid : ℕ} {new : NewPacket}
    (hplace : ∀ i ∈ t.injected, i.2.2 ∈ t.delivered ∨ ∃ d, i.2.2 ∈ t.queued d)
    (hfresh : ∀ i ∈ t.injected, i.2.2 ≠ uid) (hnot : uid ∉ t.delivered)
    (hbody : new.packetUid uid ≠ uid → (∃ i ∈ t.injected, i.1 = d ∧
      i.2.1.packetUid i.2.2 = new.packetUid uid ∧ i.2.2 = new.packetUid uid) ∧
      ∀ b ∈ t.visits (new.packetUid uid), b.1 = d → b.2 = sd)
    (hhead : new.packetUid uid = uid → (∃ header dataFlitCount uninitialised,
      new = .head header dataFlitCount uninitialised) ∧ (routes' (node d)).Answers uid sd)
    (hkeep : ∀ head ∈ t.flits head, ∀ a ∈ t.visits head, (routes' (node a.1)).Answers head a.2)
    (hroute : ∃ route : RouteReply δ, sd = route.srcDest) :
    Ordered node peer ((t.inject d new uid).enqueue d uid sd) routes' := by
  have hnil : t.visits uid = [] := by
    by_contra hne
    obtain ⟨i, hi, heq⟩ := h.visited uid hne
    exact hfresh i hi heq
  have hne {head u : ℕ} (hu : u ∈ t.flits head) : u ≠ uid := by
    obtain ⟨i, hi, -, rfl⟩ := mem_flits.mp hu
    exact hfresh i hi
  have hvisits {u : ℕ} (hu : u ≠ uid) :
      ((t.inject d new uid).enqueue d uid sd).visits u = t.visits u := visits_enqueue_of_ne hu
  have hself : ((t.inject d new uid).enqueue d uid sd).visits uid = [(d, sd)] := by
    rw [visits_enqueue_self]
    exact congrArg (· ++ [(d, sd)]) hnil
  have hflits (head : ℕ) : ((t.inject d new uid).enqueue d uid sd).flits head =
      t.flits head ++ if new.packetUid uid = head then [uid] else [] := flits_inject t d new uid head
  have hcases {head u : ℕ} (hu : u ∈ ((t.inject d new uid).enqueue d uid sd).flits head) :
      u ∈ t.flits head ∧ u ≠ uid ∨ u = uid ∧ new.packetUid uid = head := by
    rw [hflits, List.mem_append] at hu
    obtain hu | hu := hu
    · exact .inl ⟨hu, hne hu⟩
    · split_ifs at hu with hpacket
      · exact .inr ⟨List.mem_singleton.mp hu, hpacket⟩
      · exact absurd hu List.not_mem_nil
  refine ⟨?_, fun u hu => ?_, fun i hi => ?_, fun head hhead' => ?_, fun i hi => ?_, fun d₁ u hu => ?_,
    fun u => ?_, fun u hu => ?_, fun head hhead' => ?_, fun head hhead' a ha => ?_, fun head => ?_,
    fun head => ?_⟩
  · simp only [enqueue, inject, List.map_append, List.map_singleton]
    rw [← List.concat_eq_append]
    refine h.nodup.concat fun hmem => ?_
    obtain ⟨i, hi, heq⟩ := List.mem_map.mp hmem
    exact hfresh i hi heq
  · by_cases heq : u = uid
    · exact ⟨(d, new, uid), List.mem_append_right _ List.mem_cons_self, heq.symm⟩
    · rw [hvisits heq] at hu
      obtain ⟨i, hi, hiu⟩ := h.visited u hu
      exact ⟨i, List.mem_append_left _ hi, hiu⟩
  · obtain hi | hi := List.mem_append.mp hi
    · rw [hvisits (hfresh i hi)]
      exact h.started i hi
    · obtain rfl := List.mem_singleton.mp hi
      exact ⟨sd, [], hself⟩
  · by_cases hnone : t.flits head = []
    · rw [hflits, hnone, List.nil_append] at hhead' ⊢
      split_ifs at hhead' ⊢ with hpacket
      · by_cases hown : new.packetUid uid = uid
        · exact ⟨[], by rw [← hpacket, hown]⟩
        · obtain ⟨⟨i, hi, -, hpi, -⟩, -⟩ := hbody hown
          have hmem : i.2.2 ∈ t.flits head := mem_flits.mpr ⟨i, hi, hpi.trans hpacket, rfl⟩
          rw [hnone] at hmem
          exact absurd hmem List.not_mem_nil
      · exact absurd rfl hhead'
    · obtain ⟨later, hlater⟩ := h.headFirst head hnone
      exact ⟨_, by rw [hflits, hlater, List.cons_append]⟩
  · obtain hi | hi := List.mem_append.mp hi
    · exact h.heads i hi
    · obtain rfl := List.mem_singleton.mp hi
      exact fun heq => (hhead heq).1
  · have hwhere : u ∈ t.queued d₁ ∨ u = uid ∧ d₁ = d := by
      by_cases hd : d₁ = d
      · subst hd
        simp only [enqueue, inject, Function.update_self, List.mem_append, List.mem_singleton] at hu
        exact hu.imp_right fun heq => ⟨heq, rfl⟩
      · simp only [enqueue, inject, Function.update_of_ne hd] at hu
        exact .inl hu
    obtain hu | ⟨rfl, rfl⟩ := hwhere
    · obtain ⟨sd₁, hlast⟩ := h.here d₁ u hu
      have heq : u ≠ uid := by
        rintro rfl
        rw [hnil] at hlast
        cases hlast
      exact ⟨sd₁, by rw [hvisits heq]; exact hlast⟩
    · exact ⟨sd, by rw [hself]; rfl⟩
  · by_cases heq : u = uid
    · rw [heq, hself]
      exact List.isChain_singleton _
    · rw [hvisits heq]
      exact h.onward u
  · have heq : u ≠ uid := fun heq => hnot (heq ▸ hu)
    rw [hvisits heq]
    exact h.arrived u hu
  · obtain ⟨hmem, heq⟩ | ⟨rfl, -⟩ := hcases hhead'
    · rw [hvisits heq]
      exact h.nodes head hmem
    · rw [hself]
      exact List.nodup_singleton _
  · obtain ⟨hmem, heq⟩ | ⟨rfl, hown⟩ := hcases hhead'
    · rw [hvisits heq] at ha
      exact ⟨hkeep head hmem a ha, (h.cached head hmem a ha).2⟩
    · rw [hself, List.mem_singleton] at ha
      subst ha
      exact ⟨(hhead hown).2, hroute⟩
  · have hold : (t.flits head).Pairwise ((t.inject d new uid).enqueue d uid sd).Behind :=
      (h.behind head).imp_of_mem fun hu hg hb =>
        Behind.enqueue_other (t := t.inject d new uid) ⟨hb.way, hb.later⟩ (hne hu) (hne hg)
    rw [hflits]
    split_ifs with hpacket
    · refine List.pairwise_append.mpr ⟨hold, List.pairwise_singleton _ _, fun u hu w hw => ?_⟩
      obtain rfl := List.mem_singleton.mp hw
      have hown : new.packetUid w ≠ w := by
        rw [hpacket]
        rintro rfl
        obtain ⟨later, hlater⟩ := h.headFirst head (List.ne_nil_of_mem hu)
        exact hne (hlater ▸ List.mem_cons_self : head ∈ t.flits head) rfl
      obtain ⟨⟨i, hi, rfl, -, hiu⟩, hsame⟩ := hbody hown
      rw [hpacket] at hiu hsame
      obtain ⟨sd₀, later, hstart⟩ := h.started i hi
      obtain ⟨j, hj, -, rfl⟩ := mem_flits.mp hu
      obtain ⟨sd₁, later₁, hstart₁⟩ := h.started j hj
      have hway := h.way_head hu
      rw [← hiu, hstart, hstart₁, List.cons_prefix_cons] at hway
      obtain ⟨heq, -⟩ := hway
      have hsd : sd₀ = sd := hsame (i.1, sd₀) (by rw [← hiu, hstart]; exact List.mem_cons_self) rfl
      rw [heq, hsd] at hstart₁
      refine Behind.enqueue_last (t := t.inject i.1 new w) (hne hu) ?_ fun hlast => ?_
      · refine ⟨later₁, ?_⟩
        simp only [inject, hnil, hstart₁]
        rfl
      · have hsingle : t.visits j.2.2 = [(i.1, sd)] := by
          simp only [inject, hnil, List.nil_append] at hlast
          exact hlast.symm
        obtain hdelivered | ⟨d₁, hqueued⟩ := hplace j hj
        · exact .inl hdelivered
        · obtain ⟨sd₂, hlast₂⟩ := h.here d₁ j.2.2 hqueued
          rw [hsingle] at hlast₂
          obtain ⟨rfl, -⟩ := Prod.mk.inj (Option.some.inj hlast₂)
          exact .inr hqueued
    · rwa [List.append_nil]
  · have hfilter : t.delivered.filter (· ∈ ((t.inject d new uid).enqueue d uid sd).flits head) =
        t.delivered.filter (· ∈ t.flits head) := by
      refine List.filter_congr fun u hu => ?_
      have heq : u ≠ uid := fun heq => hnot (heq ▸ hu)
      rw [hflits, decide_eq_decide, List.mem_append]
      refine or_iff_left fun hmem => heq ?_
      split_ifs at hmem
      · exact List.mem_singleton.mp hmem
      · exact absurd hmem List.not_mem_nil
    have hpre := h.inOrder head
    rw [← hfilter] at hpre
    refine hpre.trans ?_
    rw [hflits]
    exact List.prefix_append _ _

end Ordered

end Travels

/-! ## Flits in a network -/

namespace FlitEvent

def visit (uid : ℕ) : FlitEvent δ → Option (δ × SrcDest δ)
  | enqueued d packet srcDest => if packet.uid = uid then some (d, srcDest) else none
  | _ => none

def injection : FlitEvent δ → Option (δ × NewPacket × ℕ)
  | injected d new uid => some (d, new, uid)
  | _ => none

end FlitEvent

def NetworkState.travels (s : NetworkState δ γ σ) : Travels δ where
  queued := s.queued
  visits uid := s.trace.filterMap (FlitEvent.visit uid)
  delivered := deliveredUids s.trace
  injected := s.trace.filterMap FlitEvent.injection

/-- A network whose routers have a routing protocol each, by node. -/
structure RoutedState (δ γ σ : Type) where
  network : NetworkState δ γ σ
  routes : ℕ → PacketRoutes δ := fun _ => {}

namespace NetworkStep

def withRoute (route : RouteReply δ) : NetworkStep δ → NetworkStep δ
  | injectPacket d new uid destination _ => .injectPacket d new uid destination route
  | transmitEnd n _ => .transmitEnd n route
  | processBufferedPackets d => .processBufferedPackets d

end NetworkStep

namespace NocNetwork
variable [DecidableEq δ] [DecidableEq γ]
variable (net : NocNetwork δ γ) (protocol : SwitchingProtocol σ)

/-- The flit for which a step requests a route, at which device, with what `RequestNewRoute` would
answer. -/
def requested (s : NetworkState δ γ σ) : NetworkStep δ → Option (δ × NocPacket × RouteReply δ)
  | .injectPacket d new uid _ route => some (d, new.build uid, route)
  | .processBufferedPackets _ => none
  | .transmitEnd n route => do
    let e ← s.pending[n]?
    let (_, packet, _) ← net.dequeueTransmitted { s with pending := s.pending.eraseIdx n } e
    if e.destination = some e.destNocNetDevice then none
    else some (e.destNocNetDevice, packet, route)

/-- A step whose routes come from `RequestRoute`. -/
def routedStep (x : RoutedState δ γ σ) (l : NetworkStep δ) : Option (RoutedState δ γ σ) :=
  match net.requested x.network l with
  | none => (net.step protocol x.network l).map fun s => { x with network := s }
  | some (d, packet, newRoute) => do
    let (route, routes) ← (x.routes (net.node d)).requestRoute packet newRoute
    let s ← net.step protocol x.network (l.withRoute route)
    some ⟨s, Function.update x.routes (net.node d) routes⟩

/-- Body flits come in behind their head and at the same device, and no head is routed to a node
where it has been before. -/
def InOrder (x : RoutedState δ γ σ) : NetworkStep δ → Prop
  | .injectPacket d (.body headPacketUid _) _ _ _ =>
    ∃ i ∈ x.network.travels.injected, i.1 = d ∧ i.2.2 = headPacketUid ∧
      (i.2.1.build i.2.2).packetType = .head
  | .injectPacket _ (.head _ _ _) _ _ _ | .processBufferedPackets _ => True
  | .transmitEnd n route => ∀ a ∈ net.requested x.network (.transmitEnd n route),
    a.2.1.packetType = .head →
      net.node a.1 ∉ (x.network.travels.visits a.2.1.uid).map fun b => net.node b.1

/-- The flits of a packet take the way of their head, with the triples of the head, and are delivered
in the order of their injection. A body flit that needs a route finds the one of its head. -/
structure BodiesFollow (x : RoutedState δ γ σ) : Prop where
  way : ∀ head, ∀ uid ∈ x.network.travels.flits head,
    x.network.travels.visits uid <+: x.network.travels.visits head
  inOrder : ∀ head, (x.network.travels.delivered.filter (· ∈ x.network.travels.flits head)) <+:
    x.network.travels.flits head
  found : ∀ l, net.InOrder x l → ∀ d packet newRoute,
    net.requested x.network l = some (d, packet, newRoute) → packet.packetType ≠ .head →
      ∃ route, (x.routes (net.node d)).requestRoute packet newRoute =
          some (route, x.routes (net.node d)) ∧
        (d, route.srcDest) ∈ x.network.travels.visits packet.packetHeadUid

section Travels
variable {net} {protocol} {s s' : NetworkState δ γ σ} {d : δ} {c : γ}

/-- What no device changes of a flit. -/
def identity (p : NocPacket) : ℕ × NocPacketType × ℕ := (p.uid, p.packetType, p.packetHeadUid)

/-- The flit came into the network. -/
def Genuine (t : Travels δ) (p : NocPacket) : Prop :=
  ∃ i ∈ t.injected, identity (i.2.1.build i.2.2) = identity p

/-- No flits but those that came into the network. -/
structure AllGenuine (s : NetworkState δ γ σ) : Prop where
  inQueue : ∀ d, ∀ q ∈ s.inQueue d, Genuine s.travels q.packet
  currentPkt : ∀ w p, (s.link w).currentPkt = some p → Genuine s.travels p

/-- What `ProcessBufferedPackets` may do to flits. -/
structure Processed (d : δ) (s s' : NetworkState δ γ σ) : Prop where
  inQueue : ∀ d', (s'.inQueue d').map (fun q => identity q.packet) =
    (s.inQueue d').map fun q => identity q.packet
  trace : s'.trace = s.trace ∨ ∃ p srcDest, s'.trace = s.trace ++ [.sent d p srcDest]
  currentPkt : ∀ w p, (s'.link w).currentPkt = some p →
    (s.link w).currentPkt = some p ∨ ∃ q ∈ s.inQueue d, q.packet = p

omit [DecidableEq γ] in
theorem processed_flowControl {via : Option δ} {packet : Option QueuedPacket} {answer : Bool}
    (h : net.flowControl protocol s d c via packet = some (answer, s')) :
    (∀ d', (s'.inQueue d').map (fun q => identity q.packet) =
      (s.inQueue d').map fun q => identity q.packet) ∧ s'.trace = s.trace ∧ s'.link = s.link := by
  cases packet with
  | none =>
    obtain ⟨-, rfl⟩ := Prod.mk.inj (Option.some.inj h)
    exact ⟨fun _ => rfl, rfl, rfl⟩
  | some q =>
    obtain ⟨v, -, h⟩ := Option.bind_eq_some_iff.mp h
    obtain ⟨srcId, -, h⟩ := Option.bind_eq_some_iff.mp h
    obtain ⟨-, rfl⟩ := Prod.mk.inj (Option.some.inj h)
    dsimp only
    split
    · refine ⟨fun d' => ?_, rfl, rfl⟩
      by_cases hd : d' = d
      · subst hd
        simp only [NetworkState.markHeadPacketAsBlocked, Function.update_self, List.map_map]
        refine List.map_congr_left fun q' _ => ?_
        simp only [Function.comp_apply]
        split <;> rfl
      · simp only [NetworkState.markHeadPacketAsBlocked, Function.update_of_ne hd]
    · exact ⟨fun _ => rfl, rfl, rfl⟩

omit [DecidableEq δ] in
theorem processed_transmitStart {p : NocPacket} {srcId : Fin 2} {answer : Bool}
    (h : net.transmitStart s d p c srcId = (answer, s')) :
    s'.inQueue = s.inQueue ∧ s'.trace = s.trace ∧ ∀ w p', (s'.link w).currentPkt = some p' →
      (s.link w).currentPkt = some p' ∨ p' = p := by
  have hlink {link : ChannelLink δ} (hcurrent : link.currentPkt = (s.link (net.wire c srcId)).currentPkt ∨
      link.currentPkt = some p) : ∀ w p', ((s.setLink (net.wire c srcId) link).link w).currentPkt =
        some p' → (s.link w).currentPkt = some p' ∨ p' = p := by
    intro w p' hp'
    by_cases hw : w = net.wire c srcId
    · subst hw
      simp only [NetworkState.setLink, Function.update_self] at hp'
      obtain hsame | hnew := hcurrent
      · exact .inl (hsame ▸ hp')
      · exact .inr (Option.some.inj (hp'.symm.trans hnew))
    · simp only [NetworkState.setLink, Function.update_of_ne hw] at hp'
      exact .inl hp'
  rw [NocNetwork.transmitStart] at h
  dsimp only at h
  split_ifs at h
  · obtain ⟨-, rfl⟩ := Prod.mk.inj h
    exact ⟨rfl, rfl, hlink (.inl rfl)⟩
  · obtain ⟨-, rfl⟩ := Prod.mk.inj h
    exact ⟨rfl, rfl, hlink (.inr rfl)⟩
  · obtain ⟨-, rfl⟩ := Prod.mk.inj h
    exact ⟨rfl, rfl, hlink (.inr rfl)⟩

theorem processed_send {srcDest : SrcDest δ} (h : net.send s c srcDest = some s') :
    s'.inQueue = s.inQueue ∧ s'.trace = s.trace ∧
      ∀ w, (s'.link w).currentPkt = (s.link w).currentPkt := by
  obtain ⟨sender, -, h⟩ := Option.bind_eq_some_iff.mp h
  obtain ⟨srcId, -, h⟩ := Option.bind_eq_some_iff.mp h
  obtain ⟨dest, -, h⟩ := Option.bind_eq_some_iff.mp h
  split_ifs at h
  obtain rfl := Option.some.inj h
  refine ⟨rfl, rfl, fun w => ?_⟩
  by_cases hw : w = net.wire c srcId
  · subst hw
    simp [NetworkState.setLink]
  · simp [NetworkState.setLink, hw]

theorem processed {packet : Option QueuedPacket}
    (h : net.processBufferedPackets protocol s d packet = some s') : Processed d s s' := by
  rw [NocNetwork.processBufferedPackets] at h
  split at h
  · obtain rfl := Option.some.inj h
    exact ⟨fun _ => rfl, .inl rfl, fun _ _ => .inl⟩
  rename_i front rest hqueue
  obtain ⟨c, -, h⟩ := Option.bind_eq_some_iff.mp h
  obtain ⟨⟨canDoRouting, t⟩, hflow, h⟩ := Option.bind_eq_some_iff.mp h
  obtain ⟨hinQueue, htrace, hlink⟩ := processed_flowControl hflow
  have hfront : ∃ q ∈ s.inQueue d, q.packet = front.packet :=
    ⟨front, hqueue ▸ List.mem_cons_self, rfl⟩
  have ht : Processed d s t := ⟨hinQueue, .inl htrace, fun w p hp => .inl (by rwa [hlink] at hp)⟩
  dsimp only at h
  by_cases hrouting : canDoRouting = true
  · rw [if_pos hrouting] at h
    cases hstart : net.transmitStart t d front.packet c
        (net.deviceId (((s.pktSrcDestMap d front.ptr).getD {}).viaNetDevice.getD d)) with
    | mk canSend u =>
      obtain ⟨hinQueue', htrace', hlink'⟩ := processed_transmitStart hstart
      have hu : Processed d s u := by
        refine ⟨fun d' => by rw [hinQueue']; exact hinQueue d', .inl (htrace'.trans htrace), ?_⟩
        intro w p hp
        obtain hp | rfl := hlink' w p hp
        · exact ht.currentPkt w p hp
        · exact .inr hfront
      rw [hstart] at h
      dsimp only at h
      split_ifs at h
      · obtain ⟨r, hr, rfl⟩ := Option.map_eq_some_iff.mp h
        obtain ⟨hinQueue'', htrace'', hlink''⟩ := processed_send hr
        refine ⟨fun d' => ?_, .inr ⟨front.packet, (s.pktSrcDestMap d front.ptr).getD {}, ?_⟩,
          fun w p hp => ?_⟩
        · simp only [NetworkState.log, hinQueue'']
          exact hu.inQueue d'
        · exact (congrArg (· ++ [_]) (htrace''.trans (htrace'.trans htrace)))
        · exact hu.currentPkt w p ((hlink'' w).symm.trans hp)
      · obtain rfl := Option.some.inj h
        exact hu
  · rw [if_neg hrouting] at h
    obtain rfl := Option.some.inj h
    exact ht

omit [DecidableEq δ] [DecidableEq γ] in
theorem Processed.queued (h : Processed d s s') : s'.queued = s.queued := by
  funext d'
  have hmap := congrArg (List.map Prod.fst) (h.inQueue d')
  rw [List.map_map, List.map_map] at hmap
  exact hmap

omit [DecidableEq δ] [DecidableEq γ] in
theorem travels_log (s : NetworkState δ γ σ) {e : FlitEvent δ} (hvisit : ∀ uid, e.visit uid = none)
    (hdelivered : e.deliveredUid = none) (hinjection : e.injection = none) :
    (s.log e).travels = s.travels := by
  simp only [NetworkState.travels, NetworkState.log, filterMap_concat, hvisit, hinjection,
    deliveredUids_concat, hdelivered, Option.toList, List.append_nil]
  rfl

omit [DecidableEq δ] [DecidableEq γ] in
theorem Processed.travels (h : Processed d s s') : s'.travels = s.travels := by
  have hqueued := h.queued
  obtain htrace | ⟨p, srcDest, htrace⟩ := h.trace
  · simp only [NetworkState.travels, htrace, hqueued]
  · have hlog := travels_log s (e := .sent d p srcDest) (fun _ => rfl) rfl rfl
    rw [← hlog]
    simp only [NetworkState.travels, NetworkState.log, htrace, hqueued]
    rfl

omit [DecidableEq δ] [DecidableEq γ] in
theorem AllGenuine.processed (h : AllGenuine s) (hs : Processed d s s') : AllGenuine s' where
  inQueue d' q hq := by
    have hmem : identity q.packet ∈ (s'.inQueue d').map fun q => identity q.packet :=
      List.mem_map.mpr ⟨q, hq, rfl⟩
    rw [hs.inQueue] at hmem
    obtain ⟨q', hq', heq⟩ := List.mem_map.mp hmem
    obtain ⟨i, hi, hidentity⟩ := h.inQueue d' q' hq'
    exact ⟨i, hs.travels.symm ▸ hi, hidentity.trans heq⟩
  currentPkt w p hp := by
    rw [hs.travels]
    obtain hp | ⟨q, hq, rfl⟩ := hs.currentPkt w p hp
    · exact h.currentPkt w p hp
    · exact h.inQueue d q hq

omit [DecidableEq γ] in
theorem travels_enqueue (s : NetworkState δ γ σ) (d : δ) (packet : NocPacket) (srcDest : SrcDest δ) :
    (s.enqueue d packet srcDest).travels = s.travels.enqueue d packet.uid srcDest := by
  have hqueued : (s.enqueue d packet srcDest).queued =
      Function.update s.queued d (s.queued d ++ [packet.uid]) := by
    funext d'
    by_cases hd : d' = d
    · subst hd
      simp [NetworkState.queued, NetworkState.enqueue]
    · simp [NetworkState.queued, NetworkState.enqueue, hd]
  have hvisits (uid : ℕ) : (s.enqueue d packet srcDest).travels.visits uid =
      (s.travels.enqueue d packet.uid srcDest).visits uid := by
    simp only [NetworkState.travels, NetworkState.enqueue, filterMap_concat, FlitEvent.visit]
    by_cases huid : uid = packet.uid
    · subst huid
      rw [if_pos rfl, Travels.visits_enqueue_self]
      rfl
    · rw [if_neg (Ne.symm huid), Travels.visits_enqueue_of_ne huid]
      exact List.append_nil _
  rw [Travels.mk.injEq]
  refine ⟨hqueued, funext hvisits, ?_, ?_⟩
  · simp [NetworkState.travels, NetworkState.enqueue, Travels.enqueue, FlitEvent.deliveredUid]
  · simp [NetworkState.travels, NetworkState.enqueue, Travels.enqueue, FlitEvent.injection]

/-- A flit enters an in-queue that has room for it. -/
theorem processed_sendFrom {p : NocPacket} {via dest : δ} (hroom : (s.inQueue d).length < net.maxPackets d)
    (hvia : s.viaNetDevice d = some via) (hstep : net.sendFrom protocol s d p dest = some s') :
    Processed d (s.enqueue d p ⟨some via, some dest, some via⟩) s' := by
  rw [NocNetwork.sendFrom, if_pos hroom, hvia, Option.getD_some] at hstep
  exact processed hstep

theorem processed_nodeSend {p : NocPacket} {destination : ℕ} {route : RouteReply δ}
    (hroom : (s.inQueue d).length < net.maxPackets d)
    (hstep : net.nodeSend protocol s d p destination route = some s') :
    ∃ p', identity p' = identity p ∧ Processed d (s.enqueue d p' route.srcDest) s' := by
  rw [NocNetwork.nodeSend] at hstep
  split at hstep
  · cases hstep
  dsimp only at hstep
  refine ⟨if p.packetType = .head then { p with header := route.header } else p, by split <;> rfl, ?_⟩
  have hs := processed_sendFrom (s := { s with
    viaNetDevice := Function.update s.viaNetDevice d (some route.sourceDevice) }) hroom
    (Function.update_self d _ s.viaNetDevice) hstep
  exact ⟨hs.inQueue, hs.trace, hs.currentPkt⟩

omit [DecidableEq γ] in
theorem AllGenuine.enqueue (h : AllGenuine s) {p : NocPacket} (hp : Genuine s.travels p)
    (srcDest : SrcDest δ) : AllGenuine (s.enqueue d p srcDest) where
  inQueue d' q hq := by
    rw [travels_enqueue]
    by_cases hd : d' = d
    · subst hd
      simp only [NetworkState.enqueue, Function.update_self, List.mem_append,
        List.mem_singleton] at hq
      obtain hq | rfl := hq
      · exact h.inQueue d' q hq
      · exact hp
    · simp only [NetworkState.enqueue, Function.update_of_ne hd] at hq
      exact h.inQueue d' q hq
  currentPkt w q hq := by
    rw [travels_enqueue]
    exact h.currentPkt w q hq

omit [DecidableEq δ] [DecidableEq γ] in
theorem travels_inject (s : NetworkState δ γ σ) (d : δ) (new : NewPacket) (uid : ℕ) :
    (s.log (.injected d new uid)).travels = s.travels.inject d new uid := by
  rw [NetworkState.travels, Travels.inject, Travels.mk.injEq]
  refine ⟨rfl, funext fun u => ?_, ?_, ?_⟩
  · simp [NetworkState.travels, NetworkState.log, FlitEvent.visit]
  · simp [NetworkState.travels, NetworkState.log, FlitEvent.deliveredUid]
  · simp [NetworkState.travels, NetworkState.log, FlitEvent.injection]

omit [DecidableEq δ] [DecidableEq γ] in
theorem travels_deliver (s : NetworkState δ γ σ) (d : δ) (p : NocPacket) :
    (s.log (.delivered d p)).travels = s.travels.deliver p.uid := by
  rw [NetworkState.travels, Travels.deliver, Travels.mk.injEq]
  refine ⟨rfl, funext fun u => ?_, ?_, ?_⟩
  · simp [NetworkState.travels, NetworkState.log, FlitEvent.visit]
  · simp [NetworkState.travels, NetworkState.log, FlitEvent.deliveredUid]
  · simp [NetworkState.travels, NetworkState.log, FlitEvent.injection]

omit [DecidableEq δ] [DecidableEq γ] in
theorem AllGenuine.inject (h : AllGenuine s) (d : δ) (new : NewPacket) (uid : ℕ) :
    AllGenuine (s.log (.injected d new uid)) where
  inQueue d' q hq := by
    obtain ⟨i, hi, hidentity⟩ := h.inQueue d' q hq
    exact ⟨i, travels_inject s d new uid ▸ List.mem_append_left _ hi, hidentity⟩
  currentPkt w p hp := by
    obtain ⟨i, hi, hidentity⟩ := h.currentPkt w p hp
    exact ⟨i, travels_inject s d new uid ▸ List.mem_append_left _ hi, hidentity⟩

omit [DecidableEq γ] in
/-- The triple of the last time that a flit was enqueued is the recorded one. -/
theorem recorded_of_visits {uid : ℕ} {srcDest : SrcDest δ}
    (h : (s.travels.visits uid).getLast? = some (d, srcDest)) :
    recorded d uid s.trace = some srcDest := by
  have hfor (e : FlitEvent δ) : e.recordedFor d uid =
      (e.visit uid).bind fun a => if a.1 = d then some a.2 else none := by
    cases e with
    | enqueued d' packet srcDest' =>
      by_cases hd : d' = d
      · by_cases huid : packet.uid = uid
        · simp [FlitEvent.recordedFor, FlitEvent.visit, hd, huid]
        · simp [FlitEvent.recordedFor, FlitEvent.visit, huid]
      · by_cases huid : packet.uid = uid
        · simp [FlitEvent.recordedFor, FlitEvent.visit, hd, huid]
        · simp [FlitEvent.recordedFor, FlitEvent.visit, huid]
    | injected _ _ _ => rfl
    | dropped _ _ => rfl
    | sent _ _ _ => rfl
    | dequeued _ _ => rfl
    | delivered _ _ => rfl
  obtain ⟨before, hbefore⟩ := List.getLast?_eq_some_iff.mp h
  have hvisits : s.trace.filterMap (FlitEvent.visit uid) = before ++ [(d, srcDest)] := hbefore
  rw [recorded, funext hfor, ← List.filterMap_filterMap, hvisits, List.filterMap_append]
  simp

/-- The flit of a transmission leaves its in-queue. -/
structure Departs (net : NocNetwork δ γ) (s t : NetworkState δ γ σ) (e : TransmitEndEvent δ γ)
    (p : NocPacket) (d : δ) (srcDest : SrcDest δ) : Prop where
  first : ∃ rest, s.travels.queued d = p.uid :: rest
  recorded : recorded d p.uid s.trace = some srcDest
  peer : net.peer srcDest = some e.destNocNetDevice
  dest : srcDest.dest = e.destination
  travels : t.travels = s.travels.dequeue d
  genuine : AllGenuine s → AllGenuine t ∧ Genuine t.travels p

omit [DecidableEq γ] in
theorem travels_dequeue {t : NetworkState δ γ σ} {q : QueuedPacket} {tail : List QueuedPacket}
    (hqueue : s.inQueue d = q :: tail) (ht : t.inQueue = Function.update s.inQueue d tail)
    (htrace : t.trace = s.trace ++ [.dequeued d q.packet]) : t.travels = s.travels.dequeue d := by
  have hqueued : t.queued = Function.update s.queued d (s.queued d).tail := by
    funext d'
    rw [NetworkState.queued, ht]
    by_cases hd : d' = d
    · subst hd
      simp [NetworkState.queued, hqueue]
    · simp [NetworkState.queued, hd]
  simp only [NetworkState.travels, Travels.dequeue, Travels.mk.injEq, htrace, hqueued]
  refine ⟨trivial, funext fun uid => ?_, ?_, ?_⟩
  · simp [FlitEvent.visit]
  · simp [FlitEvent.deliveredUid]
  · simp [FlitEvent.injection]

omit [DecidableEq γ] in
theorem AllGenuine.dequeue {t : NetworkState δ γ σ} {q : QueuedPacket} {tail : List QueuedPacket}
    (h : AllGenuine s) (hqueue : s.inQueue d = q :: tail)
    (ht : t.inQueue = Function.update s.inQueue d tail)
    (htrace : t.trace = s.trace ++ [.dequeued d q.packet])
    (hlink : ∀ w, (t.link w).currentPkt = (s.link w).currentPkt) : AllGenuine t where
  inQueue d' q' hq' := by
    rw [travels_dequeue hqueue ht htrace]
    refine h.inQueue d' q' ?_
    rw [ht] at hq'
    by_cases hd : d' = d
    · subst hd
      rw [Function.update_self] at hq'
      exact hqueue ▸ List.mem_cons_of_mem _ hq'
    · rwa [Function.update_of_ne hd] at hq'
  currentPkt w p hp := by
    rw [travels_dequeue hqueue ht htrace]
    exact h.currentPkt w p ((hlink w).symm.trans hp)

theorem departs_of_dequeueTransmitted {e : TransmitEndEvent δ γ} {t : NetworkState δ γ σ}
    {p : NocPacket} (ht : net.Transmits s.view e) (ha : Addressed s.view) {n : ℕ}
    (h : net.dequeueTransmitted { s with pending := s.pending.eraseIdx n } e =
      some (t, p, net.eventWire e)) : ∃ d srcDest, Departs net s t e p d srcDest := by
  obtain ⟨p', d, ptr, rest, sd, hcurrent, horiginal, hids, hmap, hvia, hdest⟩ := ht.flit
  obtain ⟨srcId, hid, h⟩ := Option.bind_eq_some_iff.mp h
  obtain rfl := Option.some.inj ((indexOf_of_channel ht.channel).symm.trans hid)
  obtain ⟨current, hcurrent', h⟩ := Option.bind_eq_some_iff.mp h
  obtain ⟨original, horiginal', h⟩ := Option.bind_eq_some_iff.mp h
  obtain rfl := Option.some.inj (hcurrent.symm.trans hcurrent')
  obtain rfl := Option.some.inj (horiginal.symm.trans horiginal')
  obtain ⟨⟨q, t₀⟩, hdequeue, h⟩ := Option.bind_eq_some_iff.mp h
  dsimp only at h
  split_ifs at h with hchecked
  obtain ⟨rfl, hpair⟩ := Prod.mk.inj (Option.some.inj h)
  obtain ⟨rfl, -⟩ := Prod.mk.inj hpair
  obtain ⟨q', tail, hqueue, hq, hrest⟩ := List.map_eq_cons_iff.mp hids
  obtain ⟨rfl, huid⟩ := Prod.mk.inj hq
  simp only [NetworkState.dequeuePacketFromInQueue, hqueue, Option.some.injEq, Prod.mk.injEq]
    at hdequeue
  obtain ⟨rfl, rfl⟩ := hdequeue
  obtain ⟨sd', hmap', hrecorded, -⟩ := ha.triple d (q'.ptr, p'.uid) (hids ▸ List.mem_cons_self)
  obtain rfl := Option.some.inj (hmap.symm.trans hmap')
  have hfirst : s.queued d = p'.uid :: tail.map fun q => q.packet.uid := by
    rw [NetworkState.queued, hqueue, List.map_cons, huid]
  have hlink (w : γ × Fin 2) : ((NetworkState.setLink s (net.eventWire e)
      { s.link (net.eventWire e) with
        packetOriginalDevice :=
          Function.update (s.link (net.eventWire e)).packetOriginalDevice p'.uid none }).link w).currentPkt =
        (s.link w).currentPkt := by
    by_cases hw : w = net.eventWire e
    · simp [NetworkState.setLink, hw]
    · simp [NetworkState.setLink, hw]
  refine ⟨d, sd, ⟨_, hfirst⟩, hrecorded, ?_, hdest, travels_dequeue hqueue rfl rfl, fun h => ⟨?_, ?_⟩⟩
  · rw [peer, hvia, Option.bind_eq_bind, Option.bind_some, ht.channel, ht.dest]
    rfl
  · exact h.dequeue hqueue rfl rfl hlink
  · rw [travels_dequeue hqueue rfl rfl]
    exact h.currentPkt _ _ hcurrent

/-- What holds in every state that is reached in order. -/
structure Follows (net : NocNetwork δ γ) (x : RoutedState δ γ σ) : Prop where
  holds : net.Holds none none x.network.view
  ordered : x.network.travels.Ordered net.node net.peer x.routes
  genuine : AllGenuine x.network

omit [DecidableEq γ] in
theorem Holds.nodup_queued (h : net.Holds none none s.view) (d : δ) : (s.travels.queued d).Nodup := by
  have hnodup := h.placed.nodup d
  rwa [← queued_eq] at hnodup

omit [DecidableEq δ] [DecidableEq γ] in
theorem mem_injectedUids {uid : ℕ} :
    uid ∈ injectedUids s.trace ↔ ∃ i ∈ s.travels.injected, i.2.2 = uid := by
  have hmap : injectedUids s.trace = s.travels.injected.map fun i => i.2.2 := by
    rw [injectedUids, NetworkState.travels, List.map_filterMap]
    refine List.filterMap_congr fun e _ => ?_
    cases e <;> rfl
  rw [hmap, List.mem_map]

omit [DecidableEq γ] in
theorem Holds.place (h : net.Holds none none s.view) :
    ∀ i ∈ s.travels.injected, i.2.2 ∈ s.travels.delivered ∨ ∃ d, i.2.2 ∈ s.travels.queued d := by
  intro i hi
  obtain hnone | hdelivered | ⟨d, j, hj, huid⟩ :=
    (h.placed.injected i.2.2).mp (mem_injectedUids.mpr ⟨i, hi, rfl⟩)
  · cases hnone
  · exact .inl hdelivered
  · refine .inr ⟨d, ?_⟩
    have hqueued : s.travels.queued d = (s.view.ids d).map Prod.snd := queued_eq s d
    exact hqueued ▸ List.mem_map.mpr ⟨j, hj, huid⟩

omit [DecidableEq γ] in
theorem Holds.not_delivered (h : net.Holds none none s.view) {uid : ℕ}
    (hqueued : uid ∈ s.travels.queued d) : uid ∉ s.travels.delivered := by
  have hids : s.travels.queued d = (s.view.ids d).map Prod.snd := queued_eq s d
  rw [hids, List.mem_map] at hqueued
  obtain ⟨j, hj, rfl⟩ := hqueued
  exact h.placed.notDelivered d j hj

omit [DecidableEq δ] in
/-- A genuine head is the head of its packet, any other genuine flit has one of its own. -/
theorem Genuine.flits {t : Travels δ} {node : δ → ℕ} {peer : SrcDest δ → Option δ}
    {routes : ℕ → PacketRoutes δ} (h : t.Ordered node peer routes) {p : NocPacket} (hp : Genuine t p) :
    (p.packetType = .head → p.uid ∈ t.flits p.uid) ∧
      (p.packetType ≠ .head → p.uid ∉ t.flits p.uid ∧ p.uid ∈ t.flits p.packetHeadUid) := by
  obtain ⟨⟨d, new, uid⟩, hi, hidentity⟩ := hp
  rw [identity, identity, Prod.mk.injEq, Prod.mk.injEq, NewPacket.uid_build] at hidentity
  obtain ⟨rfl, htype, hheadUid⟩ := hidentity
  cases new with
  | head header dataFlitCount uninitialised =>
    exact ⟨fun _ => Travels.mem_flits.mpr ⟨_, hi, rfl, rfl⟩, fun hbody => absurd htype.symm hbody⟩
  | body headPacketUid isTailPacket =>
    refine ⟨fun hhead => ?_, fun _ => ⟨fun hmem => ?_, ?_⟩⟩
    · rw [hhead] at htype
      cases isTailPacket <;> cases htype
    · obtain ⟨j, hj, hpacket, huid⟩ := Travels.mem_flits.mp hmem
      obtain ⟨header, count, uninitialised, hnew⟩ := h.heads j hj (hpacket.trans huid.symm)
      obtain rfl := List.inj_on_of_nodup_map h.nodup hj hi huid
      cases hnew
    · exact Travels.mem_flits.mpr ⟨_, hi, hheadUid, rfl⟩

omit [DecidableEq γ] in
/-- The maps of the other nodes stay, and a node keeps what it has for other heads. -/
theorem Follows.keep {x : RoutedState δ γ σ} (h : Follows net x) {packet : NocPacket}
    {newRoute route : RouteReply δ} {routes : PacketRoutes δ} {node : ℕ}
    (hroute : (x.routes node).requestRoute packet newRoute = some (route, routes))
    (hnew : packet.packetType = .head → ∀ head ∈ x.network.travels.flits head,
      ∀ a ∈ x.network.travels.visits head, net.node a.1 = node → head ≠ packet.uid) :
    ∀ head ∈ x.network.travels.flits head, ∀ a ∈ x.network.travels.visits head,
      (Function.update x.routes node routes (net.node a.1)).Answers head a.2 := by
  intro head hhead a ha
  have hanswers := (h.ordered.cached head hhead a ha).1
  by_cases hnode : net.node a.1 = node
  · subst hnode
    rw [Function.update_self]
    exact PacketRoutes.requestRoute_keep hroute (fun htype => hnew htype head hhead a ha rfl) hanswers
  · rwa [Function.update_of_ne hnode]

omit [DecidableEq γ] in
/-- A body flit is given the triple of its head. -/
theorem Follows.same_triple {x : RoutedState δ γ σ} (h : Follows net x) {packet : NocPacket}
    {newRoute route : RouteReply δ} {routes : PacketRoutes δ} {d : δ}
    (hroute : (x.routes (net.node d)).requestRoute packet newRoute = some (route, routes))
    (hbody : packet.packetType ≠ .head) {head : ℕ} (hhead : head ∈ x.network.travels.flits head)
    (hpacket : packet.packetHeadUid = head) :
    ∀ b ∈ x.network.travels.visits head, b.1 = d → b.2 = route.srcDest := by
  rintro b hb rfl
  obtain ⟨hanswers, route', hroute'⟩ := h.ordered.cached head hhead b hb
  subst hpacket
  refine (PacketRoutes.requestRoute_body hbody hroute hanswers ?_).1.symm
  rw [hroute']
  rfl

theorem Follows.injectPacket {x : RoutedState δ γ σ} (h : Follows net x) {new : NewPacket}
    {uid destination : ℕ} {newRoute route : RouteReply δ} {routes : PacketRoutes δ}
    (hroute : (x.routes (net.node d)).requestRoute (new.build uid) newRoute = some (route, routes))
    (hok : net.InOrder x (.injectPacket d new uid destination newRoute))
    (hstep : net.injectPacket protocol x.network d new uid destination route = some s') :
    Follows net ⟨s', Function.update x.routes (net.node d) routes⟩ := by
  have hholds := h.holds.injectPacket hstep
  rw [NocNetwork.injectPacket] at hstep
  split at hstep
  swap
  · cases hstep
  rename_i hnew
  obtain ⟨hnone, huid, hlt⟩ := hnew
  obtain ⟨hroom, -⟩ := h.holds.room_injection hnone huid hlt
  obtain ⟨p, hidentity, hp⟩ := processed_nodeSend (s := x.network.log (.injected d new uid)) hroom hstep
  have hpuid : p.uid = uid := (congrArg Prod.fst hidentity).trans (NewPacket.uid_build new uid)
  have hfresh : ∀ i ∈ x.network.travels.injected, i.2.2 ≠ uid := fun i hi heq =>
    huid (mem_injectedUids.mpr ⟨i, hi, heq⟩)
  have htravels : s'.travels = (x.network.travels.inject d new uid).enqueue d uid route.srcDest := by
    rw [hp.travels, travels_enqueue, travels_inject, hpuid]
  refine ⟨hholds, ?_, (AllGenuine.enqueue (h.genuine.inject d new uid) ?_ _).processed hp⟩
  · have hkeep := h.keep hroute fun _ head hhead _ _ _ => by
      obtain ⟨i, hi, -, rfl⟩ := Travels.mem_flits.mp hhead
      rw [NewPacket.uid_build]
      exact hfresh i hi
    have hnot : uid ∉ x.network.travels.delivered := fun hdelivered =>
      huid ((h.holds.placed.injected uid).mpr (.inr (.inl hdelivered)))
    rw [htravels]
    refine h.ordered.enter h.holds.place hfresh hnot (fun hne => ?_) (fun heq => ?_) hkeep ⟨route, rfl⟩
    · cases new with
      | head header dataFlitCount uninitialised => exact absurd rfl hne
      | body headPacketUid isTailPacket =>
        obtain ⟨i, hi, hd, rfl, htype⟩ := hok
        have hpacket : i.2.1.packetUid i.2.2 = i.2.2 := by
          cases hi' : i.2.1 with
          | head header dataFlitCount uninitialised => rfl
          | body headPacketUid' isTailPacket' =>
            rw [hi'] at htype
            cases isTailPacket' <;> cases htype
        have hhead : i.2.2 ∈ x.network.travels.flits i.2.2 := Travels.mem_flits.mpr ⟨i, hi, hpacket, rfl⟩
        refine ⟨⟨i, hi, hd, hpacket, rfl⟩, h.same_triple hroute ?_ hhead rfl⟩
        cases isTailPacket <;> simp [NewPacket.build]
    · cases new with
      | head header dataFlitCount uninitialised =>
        refine ⟨⟨_, _, _, rfl⟩, ?_⟩
        dsimp only
        rw [Function.update_self]
        exact PacketRoutes.requestRoute_head rfl hroute
      | body headPacketUid isTailPacket =>
        obtain ⟨i, hi, -, hhead, -⟩ := hok
        exact absurd (hhead.trans heq) (hfresh i hi)
  · refine ⟨(d, new, uid), ?_, hidentity.symm⟩
    rw [travels_inject]
    exact List.mem_append_right _ List.mem_cons_self

theorem Follows.departs {x : RoutedState δ γ σ} (h : Follows net x) {n : ℕ} {e : TransmitEndEvent δ γ}
    (hn : x.network.pending[n]? = some e) : ∃ t p d sd, net.dequeueTransmitted
        { x.network with pending := x.network.pending.eraseIdx n } e = some (t, p, net.eventWire e) ∧
      Departs net x.network t e p d sd ∧ (x.network.travels.visits p.uid).getLast? = some (d, sd) ∧
      (t.inQueue e.destNocNetDevice).length < net.maxPackets e.destNocNetDevice := by
  obtain ⟨t, p, _, _, hdequeue, -, -, -, hpending, hlength⟩ := h.holds.dequeueTransmitted hn
  obtain ⟨d, sd, hdeparts⟩ := departs_of_dequeueTransmitted
    (h.holds.joined.pending e (List.mem_of_getElem? hn)) h.holds.addressed hdequeue
  obtain ⟨rest, hfirst⟩ := hdeparts.first
  obtain ⟨sd', hlast⟩ := h.ordered.here d p.uid (hfirst ▸ List.mem_cons_self)
  obtain rfl := Option.some.inj (hdeparts.recorded.symm.trans (recorded_of_visits hlast))
  exact ⟨t, p, d, sd, hdequeue, hdeparts, hlast, (h.holds.room_arrival hn hpending hlength).1⟩

theorem transmitEnd_cases {n : ℕ} {e : TransmitEndEvent δ γ} (hn : s.pending[n]? = some e)
    {t : NetworkState δ γ σ} {p : NocPacket} {w : γ × Fin 2}
    (hdequeue : net.dequeueTransmitted { s with pending := s.pending.eraseIdx n } e = some (t, p, w))
    {route : RouteReply δ} (h : net.transmitEnd protocol s n route = some s') :
    ∃ u, s'.inQueue = u.inQueue ∧ s'.trace = u.trace ∧
      (∀ w, (s'.link w).currentPkt = (u.link w).currentPkt) ∧
      (e.destination = some e.destNocNetDevice → u = t.log (.delivered e.destNocNetDevice p)) ∧
      (e.destination ≠ some e.destNocNetDevice → ∃ destination,
        net.nodeSend protocol t e.destNocNetDevice p destination route = some u) := by
  obtain ⟨e', hn', h⟩ := Option.bind_eq_some_iff.mp h
  obtain rfl := Option.some.inj (hn.symm.trans hn')
  rw [hdequeue, Option.bind_eq_bind, Option.bind_some] at h
  obtain ⟨u, hreceive, h⟩ := Option.bind_eq_some_iff.mp h
  obtain rfl := Option.some.inj h
  obtain ⟨dest, hdest, hreceive⟩ := Option.bind_eq_some_iff.mp hreceive
  refine ⟨u, rfl, rfl, fun w' => ?_, fun hhere => ?_, fun hother => ?_⟩
  · by_cases hw : w' = w
    · simp [NetworkState.setLink, hw]
    · simp [NetworkState.setLink, hw]
  · rw [hdest, Option.some.injEq] at hhere
    rw [if_pos hhere] at hreceive
    exact (Option.some.inj hreceive).symm
  · rw [hdest, ne_eq, Option.some.injEq] at hother
    rw [if_neg hother] at hreceive
    exact ⟨_, hreceive⟩

omit [DecidableEq δ] [DecidableEq γ] in
theorem AllGenuine.congr (h : AllGenuine s) (hinQueue : s'.inQueue = s.inQueue)
    (hinjected : s'.travels.injected = s.travels.injected)
    (hlink : ∀ w, (s'.link w).currentPkt = (s.link w).currentPkt) : AllGenuine s' where
  inQueue d q hq := by
    rw [hinQueue] at hq
    obtain ⟨i, hi, hidentity⟩ := h.inQueue d q hq
    exact ⟨i, hinjected.symm ▸ hi, hidentity⟩
  currentPkt w p hp := by
    rw [hlink] at hp
    obtain ⟨i, hi, hidentity⟩ := h.currentPkt w p hp
    exact ⟨i, hinjected.symm ▸ hi, hidentity⟩

omit [DecidableEq δ] [DecidableEq γ] in
theorem travels_congr (hinQueue : s'.inQueue = s.inQueue) (htrace : s'.trace = s.trace) :
    s'.travels = s.travels := by
  simp only [NetworkState.travels, htrace]
  rw [show s'.queued = s.queued from funext fun d => by rw [NetworkState.queued, hinQueue]; rfl]

omit [DecidableEq δ] in
theorem flits_unique {t : Travels δ} {node : δ → ℕ} {peer : SrcDest δ → Option δ}
    {routes : ℕ → PacketRoutes δ} (h : t.Ordered node peer routes) {uid head head' : ℕ}
    (hhead : uid ∈ t.flits head) (hhead' : uid ∈ t.flits head') : head = head' := by
  obtain ⟨i, hi, hpacket, huid⟩ := Travels.mem_flits.mp hhead
  obtain ⟨j, hj, hpacket', huid'⟩ := Travels.mem_flits.mp hhead'
  obtain rfl := List.inj_on_of_nodup_map h.nodup hi hj (huid.trans huid'.symm)
  exact hpacket.symm.trans hpacket'

/-- A flit that has left an in-queue is delivered, or goes on. -/
theorem Follows.transmitEnd {x : RoutedState δ γ σ} (h : Follows net x) {n : ℕ}
    {newRoute : RouteReply δ} (hok : net.InOrder x (.transmitEnd n newRoute)) {x' : RoutedState δ γ σ}
    (hstep : net.routedStep protocol x (.transmitEnd n newRoute) = some x') : Follows net x' := by
  rw [routedStep] at hstep
  cases hn : x.network.pending[n]? with
  | none => simp [requested, step, NocNetwork.transmitEnd, hn] at hstep
  | some e =>
    obtain ⟨t, p, d, sd, hdequeue, hdeparts, hlast, hroom⟩ := h.departs hn
    obtain ⟨rest, hfirst⟩ := hdeparts.first
    have hnot := h.holds.not_delivered (d := d) (hfirst ▸ List.mem_cons_self)
    obtain ⟨hgenuine, hp⟩ := hdeparts.genuine h.genuine
    have hp' : Genuine x.network.travels p := by rwa [hdeparts.travels] at hp
    by_cases hdest : e.destination = some e.destNocNetDevice
    · simp only [requested, hn, hdequeue, hdest, Option.bind_eq_bind, Option.bind_some, if_true,
        step] at hstep
      obtain ⟨s', hs', rfl⟩ := Option.map_eq_some_iff.mp hstep
      obtain ⟨u, hinQueue, htrace, hlink, hdelivered, -⟩ := transmitEnd_cases hn hdequeue hs'
      obtain rfl := hdelivered hdest
      have htravels : s'.travels = (x.network.travels.dequeue d).deliver p.uid := by
        rw [travels_congr hinQueue htrace, travels_deliver, hdeparts.travels]
      refine ⟨h.holds.transmitEnd hs', ?_, hgenuine.congr hinQueue ?_ hlink⟩
      · dsimp only
        rw [htravels]
        exact h.ordered.arrive h.holds.nodup_queued hnot hfirst hlast hdeparts.peer
          (hdeparts.dest.trans hdest)
      · dsimp only
        rw [htravels, hdeparts.travels]
        rfl
    · simp only [requested, hn, hdequeue, hdest, Option.bind_eq_bind, Option.bind_some, if_false,
        step] at hstep
      obtain ⟨⟨route, routes⟩, hroute, hstep⟩ := Option.bind_eq_some_iff.mp hstep
      obtain ⟨s', hs', hstep⟩ := Option.bind_eq_some_iff.mp hstep
      obtain rfl := Option.some.inj hstep
      obtain ⟨u, hinQueue, htrace, hlink, -, hsent⟩ := transmitEnd_cases hn hdequeue hs'
      obtain ⟨destination, hsend⟩ := hsent hdest
      obtain ⟨q, hidentity, hq⟩ := processed_nodeSend hroom hsend
      have hquid : q.uid = p.uid := congrArg Prod.fst hidentity
      have htravels : s'.travels = (x.network.travels.dequeue d).enqueue e.destNocNetDevice p.uid
          route.srcDest := by
        rw [travels_congr hinQueue htrace, hq.travels, travels_enqueue, hdeparts.travels, hquid]
      have hfar : p.packetType = .head → net.node e.destNocNetDevice ∉
          (x.network.travels.visits p.uid).map fun b => net.node b.1 :=
        hok (e.destNocNetDevice, p, newRoute)
          (by simp [requested, hn, hdequeue, hdest])
      obtain ⟨hhead, hbody⟩ := Genuine.flits h.ordered hp'
      have hpassed : sd.dest ≠ some e.destNocNetDevice := by rwa [hdeparts.dest]
      refine ⟨h.holds.transmitEnd hs', ?_, ?_⟩
      · have hkeep := h.keep hroute fun htype head _ a ha hnode heq =>
          hfar htype (List.mem_map.mpr ⟨a, heq ▸ ha, hnode⟩)
        dsimp only
        rw [htravels]
        refine h.ordered.hop h.holds.nodup_queued h.holds.place hnot hfirst hlast
          ⟨hdeparts.peer, hpassed⟩ (fun head hmem hne => ?_) hkeep (fun hmem => ?_) ⟨route, rfl⟩
        · have htype : p.packetType ≠ .head := fun htype =>
            hne (flits_unique h.ordered (hhead htype) hmem)
          obtain ⟨later, hlater⟩ := h.ordered.headFirst head (List.ne_nil_of_mem hmem)
          exact h.same_triple hroute htype (hlater ▸ List.mem_cons_self)
            (flits_unique h.ordered (hbody htype).2 hmem)
        · have htype : p.packetType = .head := by
            by_contra htype
            exact (hbody htype).1 hmem
          refine ⟨hfar htype, ?_⟩
          rw [Function.update_self]
          exact PacketRoutes.requestRoute_head htype hroute
      · refine ((hgenuine.enqueue ?_ route.srcDest).processed hq).congr hinQueue ?_ hlink
        · obtain ⟨i, hi, hi'⟩ := hp
          exact ⟨i, hi, hi'.trans hidentity.symm⟩
        · rw [travels_congr hinQueue htrace]

theorem Follows.step {x x' : RoutedState δ γ σ} (h : Follows net x) {l : NetworkStep δ}
    (hok : net.InOrder x l) (hstep : net.routedStep protocol x l = some x') : Follows net x' := by
  cases l with
  | injectPacket d new uid destination newRoute =>
    obtain ⟨⟨route, routes⟩, hroute, hstep⟩ := Option.bind_eq_some_iff.mp hstep
    obtain ⟨s', hs', hstep⟩ := Option.bind_eq_some_iff.mp hstep
    obtain rfl := Option.some.inj hstep
    exact h.injectPacket hroute hok hs'
  | processBufferedPackets d =>
    obtain ⟨s', hs', rfl⟩ := Option.map_eq_some_iff.mp hstep
    have hp : Processed d x.network s' := processed hs'
    refine ⟨h.holds.processBufferedPackets hs', ?_, h.genuine.processed hp⟩
    dsimp only
    rw [hp.travels]
    exact h.ordered
  | transmitEnd n route => exact h.transmitEnd hok hstep

theorem Follows.bodiesFollow {x : RoutedState δ γ σ} (h : Follows net x) : net.BodiesFollow x where
  way head uid huid := h.ordered.way_head huid
  inOrder := h.ordered.inOrder
  found l hok d packet newRoute hrequested hbody := by
    have hcached {sd : SrcDest δ} (hhead : packet.packetHeadUid ∈ x.network.travels.flits
        packet.packetHeadUid) (hvisit : (d, sd) ∈ x.network.travels.visits packet.packetHeadUid) :
        ∃ route, (x.routes (net.node d)).requestRoute packet newRoute =
          some (route, x.routes (net.node d)) ∧
          (d, route.srcDest) ∈ x.network.travels.visits packet.packetHeadUid := by
      obtain ⟨hanswers, route, hroute⟩ := h.ordered.cached _ hhead _ hvisit
      dsimp only at hroute hanswers
      rw [hroute] at hanswers hvisit
      obtain ⟨route', hfound, hsame⟩ := hanswers.found hbody newRoute
      exact ⟨route', hfound, hsame.symm ▸ hvisit⟩
    cases l with
    | injectPacket d' new uid destination route =>
      obtain ⟨rfl, hpacket⟩ := Prod.mk.inj (Option.some.inj hrequested)
      obtain ⟨rfl, rfl⟩ := Prod.mk.inj hpacket
      cases new with
      | head header dataFlitCount uninitialised => exact absurd rfl hbody
      | body headPacketUid isTailPacket =>
        obtain ⟨⟨d, new, head⟩, hi, rfl, rfl, htype⟩ := hok
        obtain ⟨sd, rest, hstart⟩ := h.ordered.started _ hi
        have hgenuine : Genuine x.network.travels (new.build head) := ⟨_, hi, rfl⟩
        have hhead := (Genuine.flits h.ordered hgenuine).1 htype
        rw [NewPacket.uid_build] at hhead
        exact hcached hhead (hstart ▸ List.mem_cons_self : (d, sd) ∈ x.network.travels.visits head)
    | processBufferedPackets d' => cases hrequested
    | transmitEnd n route =>
      obtain ⟨e, hn, hrequested⟩ := Option.bind_eq_some_iff.mp hrequested
      obtain ⟨t, p, d', sd, hdequeue, hdeparts, hlast, -⟩ := h.departs hn
      rw [hdequeue, Option.bind_eq_bind, Option.bind_some] at hrequested
      dsimp only at hrequested
      split_ifs at hrequested with hdest
      obtain ⟨rfl, hpacket⟩ := Prod.mk.inj (Option.some.inj hrequested)
      obtain ⟨rfl, rfl⟩ := Prod.mk.inj hpacket
      obtain ⟨rest, hfirst⟩ := hdeparts.first
      obtain ⟨-, hp⟩ := hdeparts.genuine h.genuine
      rw [hdeparts.travels] at hp
      obtain ⟨hown, hmem⟩ := (Genuine.flits h.ordered hp).2 hbody
      have hne : p.uid ≠ p.packetHeadUid := fun heq => hown (by rwa [← heq] at hmem)
      obtain ⟨hway, hdelivered⟩ | ⟨b, later, hway, honward⟩ :=
        h.ordered.ahead h.holds.nodup_queued hfirst (h.ordered.behind_head hmem hne)
      · obtain ⟨a, ha, d₁, hpeer, hdest'⟩ := h.ordered.arrived _ hdelivered
        rw [← hway, hlast, Option.some.injEq] at ha
        subst ha
        obtain rfl := Option.some.inj (hdeparts.peer.symm.trans hpeer)
        exact absurd (hdeparts.dest.symm.trans hdest') hdest
      · obtain ⟨d₁, sd₁⟩ := b
        obtain rfl : d₁ = e.destNocNetDevice :=
          Option.some.inj ((honward _ hlast).next.symm.trans hdeparts.peer)
        obtain ⟨later', hlater⟩ := h.ordered.headFirst p.packetHeadUid (List.ne_nil_of_mem hmem)
        exact hcached (hlater ▸ List.mem_cons_self)
          (hway ▸ List.mem_append_right _ List.mem_cons_self)

omit [DecidableEq γ] in
theorem follows_start (net : NocNetwork δ γ) (switching : ℕ → σ) :
    Follows net ({ network := { switching } } : RoutedState δ γ σ) where
  holds := holds_start net switching
  ordered := by
    constructor <;> simp [NetworkState.travels, Travels.flits, NetworkState.queued, deliveredUids]
  genuine := by
    constructor <;> simp

/-- Body flits follow their head whatever the routing protocols answer for heads and however the
packets are interleaved. -/
theorem bodies_follow (net : NocNetwork δ γ) (protocol : SwitchingProtocol σ) (switching : ℕ → σ)
    (ls : List (NetworkStep δ))
    (hls : Allowed (net.routedStep protocol) net.InOrder { network := { switching } } ls) :
    Always (net.routedStep protocol) net.BodiesFollow { network := { switching } } ls :=
  (Always.of_invariant (fun _ _ _ h hok hstep => Follows.step h hok hstep)
    (follows_start net switching) hls).mono fun _ h => h.bodiesFollow

end Travels

instance InOrder.decidable (net : NocNetwork δ γ) (x : RoutedState δ γ σ) :
    ∀ l, Decidable (net.InOrder x l)
  | .injectPacket d (.body headPacketUid _) _ _ _ =>
    inferInstanceAs (Decidable (∃ i ∈ x.network.travels.injected, i.1 = d ∧ i.2.2 = headPacketUid ∧
      (i.2.1.build i.2.2).packetType = .head))
  | .injectPacket _ (.head _ _ _) _ _ _ | .processBufferedPackets _ => instDecidableTrue
  | .transmitEnd n route =>
    inferInstanceAs (Decidable (∀ a ∈ net.requested x.network (.transmitEnd n route),
      a.2.1.packetType = .head →
        net.node a.1 ∉ (x.network.travels.visits a.2.1.uid).map fun b => net.node b.1))

/-- Three nodes in a row: a device to inject packets at the first one, and two channels with a device
at each end. -/
def row : NocNetwork (Option (Bool × Bool)) Bool where
  node d := d.elim 0 fun a => a.1.toNat + a.2.toNat
  channel d := d.map Prod.fst
  deviceId d := finTwoEquiv.symm (d.elim false Prod.snd)
  device c i := some (c, finTwoEquiv i)
  fullDuplex _ := true
  maxPackets d := d.elim (2 ^ 32 - 1) fun _ => 4
  channel_eq_some := by decide
  deviceId_device := by decide
  maxPackets_internal := by decide

/-- A head and a tail from the first node to the last one. -/
def rowSteps : List (NetworkStep (Option (Bool × Bool))) :=
  let first : RouteReply (Option (Bool × Bool)) := ⟨some (false, false), some (true, true), ⟨[], []⟩⟩
  let second : RouteReply (Option (Bool × Bool)) := ⟨some (true, false), some (true, true), ⟨[], []⟩⟩
  [.injectPacket none (.head ⟨[], []⟩ 2 0) 0 2 first,
    .injectPacket none (.body 0 true) 1 2 first,
    .transmitEnd 0 second,
    .processBufferedPackets none,
    .transmitEnd 1 second,
    .transmitEnd 0 second,
    .processBufferedPackets (some (false, true)),
    .transmitEnd 0 second]

theorem bodies_follow_row :
    (run (row.routedStep ⟨fun _ _ _ => (true, ())⟩) { network := { switching := fun _ => () } }
        rowSteps).map (fun x => x.network.travels.delivered) = some [0, 1] ∧
      Always (row.routedStep ⟨fun _ _ _ => (true, ())⟩) row.BodiesFollow
        { network := { switching := fun _ => () } } rowSteps :=
  ⟨by decide +kernel, bodies_follow row ⟨fun _ _ _ => (true, ())⟩ (fun _ => ()) rowSteps
    (by decide +kernel)⟩

end NocNetwork
end Ns3Noc
