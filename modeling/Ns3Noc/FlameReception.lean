import Ns3Noc.FlameProtocol

/-!
# Frames at one mesh point

What a mesh point does with a frame: it drops it and changes nothing, or it learns the route to the
source and then passes the frame up or sends it on, at most once each. Its own packets are numbered
one after the other.
-/
namespace Ns3Noc.Flame

open Wifi (Mac48Address)

variable {device : Device} {n source : Mac48Address} {now : ℕ} {s : FlameProtocol}

/-! ## The routing table -/

/-- Only routes that have expired are gone. -/
def FlameRtable.Trimmed (now : ℕ) (t t' : FlameRtable) : Prop :=
  ∀ d, t' d = t d ∨ t' d = none ∧ ∃ route, t d = some route ∧ route.whenExpire < now

/-- The interface is one of the device. -/
def Device.HasOut (device : Device) (outIface : ℕ) : Prop :=
  outIface = interfaceAny ∨ outIface ∈ device.interfaces.map Prod.fst

/-- All routes are over an interface of the device and a single neighbour. -/
def Device.Sound (device : Device) (t : FlameRtable) : Prop :=
  ∀ d route, t d = some route → route.retransmitter ≠ broadcast ∧ device.HasOut route.interface

namespace FlameRtable

variable {t t' t'' : FlameRtable}

theorem Trimmed.refl (now : ℕ) (t : FlameRtable) : Trimmed now t t := fun _ => .inl rfl

theorem Trimmed.trans (h : Trimmed now t t') (h' : Trimmed now t' t'') : Trimmed now t t'' := by
  intro d
  cases h' d with
  | inl heq => exact heq ▸ h d
  | inr hgone =>
    obtain ⟨hnone, route, hroute, hexpired⟩ := hgone
    cases h d with
    | inl heq => exact .inr ⟨hnone, route, heq ▸ hroute, hexpired⟩
    | inr hgone => rw [hgone.1] at hroute; cases hroute

theorem Trimmed.sound (h : Trimmed now t t') (hsound : device.Sound t) : device.Sound t' := by
  intro d route hroute
  cases h d with
  | inl heq => exact hsound d route (heq ▸ hroute)
  | inr hgone => rw [hgone.1] at hroute; cases hroute

theorem Trimmed.eq_of_unexpired (h : Trimmed now t t') {d : Mac48Address}
    (hd : ∀ route, t d = some route → now ≤ route.whenExpire) : t' d = t d := by
  cases h d with
  | inl heq => exact heq
  | inr hgone =>
    obtain ⟨-, route, hroute, hexpired⟩ := hgone
    exact absurd (hd route hroute) (Nat.not_le.mpr hexpired)

theorem lookup_trimmed (t : FlameRtable) (now : ℕ) (d : Mac48Address) :
    Trimmed now t (t.lookup now d).2 := by
  rw [lookup]
  cases hroute : t d with
  | none => exact Trimmed.refl now t
  | some route =>
    dsimp only
    split
    · intro d'
      by_cases hd : d' = d
      · subst hd
        exact .inr ⟨Function.update_self .., route, hroute, ‹_›⟩
      · exact .inl (Function.update_of_ne hd ..)
    · exact Trimmed.refl now t

theorem lookup_of_unexpired {d : Mac48Address} {route : Route} (hroute : t d = some route)
    (hnow : now ≤ route.whenExpire) :
    t.lookup now d =
      (⟨route.retransmitter, route.interface, route.cost, route.seqnum⟩, t) := by
  rw [lookup, hroute]
  exact if_neg (Nat.not_lt.mpr hnow)

theorem lookup_hasOut (hsound : device.Sound t) (now : ℕ) (d : Mac48Address) :
    device.HasOut (t.lookup now d).1.ifIndex := by
  rw [lookup]
  cases hroute : t d with
  | none => exact .inl rfl
  | some route =>
    dsimp only
    split
    · exact .inl rfl
    · exact (hsound d route hroute).2

/-- The table after a route has been learnt -/
def Learned (now : ℕ) (t t' : FlameRtable) (source : Mac48Address) (route : Route) : Prop :=
  t' source = some route ∧ ∀ d, d ≠ source →
    t' d = t d ∨ t' d = none ∧ ∃ route, t d = some route ∧ route.whenExpire < now

theorem Learned.trimmed {route : Route} (h : Learned now t t' source route)
    (hnow : now ≤ route.whenExpire) (h' : Trimmed now t' t'') :
    Learned now t t'' source route := by
  constructor
  · rw [h'.eq_of_unexpired, h.1]
    intro route' hroute'
    rw [h.1] at hroute'
    exact Option.some.inj hroute' ▸ hnow
  · intro d hd
    cases h' d with
    | inl heq => exact heq ▸ h.2 d hd
    | inr hgone =>
      obtain ⟨hnone, route, hroute, hexpired⟩ := hgone
      cases h.2 d hd with
      | inl heq => exact .inr ⟨hnone, route, heq ▸ hroute, hexpired⟩
      | inr hgone => rw [hgone.1] at hroute; cases hroute

theorem Learned.sound {route : Route} (h : Learned now t t' source route)
    (hroute : route.retransmitter ≠ broadcast ∧ device.HasOut route.interface)
    (hsound : device.Sound t) : device.Sound t' := by
  intro d route' hroute'
  by_cases hd : d = source
  · subst hd
    rw [h.1] at hroute'
    exact Option.some.inj hroute' ▸ hroute
  · cases h.2 d hd with
    | inl heq => exact hsound d route' (heq ▸ hroute')
    | inr hgone => rw [hgone.1] at hroute'; cases hroute'

end FlameRtable

/-! ## Packets of the upper layer -/

/-- Packets of the node itself, numbered on from the first number. -/
inductive Originates (device : Device) (n : Mac48Address) : UInt16 → List Event → UInt16 → Prop
  | nil (seqno : UInt16) : Originates device n seqno [] seqno
  | cons {packet : Packet} {hdr : FlameHeader} {tag : FlameTag} {dst : Mac48Address} {outIface : ℕ}
      {seqno last : UInt16} {events : List Event} (hheader : packet.header = some hdr)
      (htag : packet.tag = some tag) (hseqno : hdr.seqno = seqno) (hcost : hdr.cost = 0)
      (hout : device.HasOut outIface) (hrest : Originates device n (seqno + 1) events last) :
      Originates device n seqno (.doSend packet n dst flameProtocol outIface :: events) last

theorem Originates.append {a b c : UInt16} {events events' : List Event}
    (h : Originates device n a events b) (h' : Originates device n b events' c) :
    Originates device n a (events ++ events') c := by
  induction h with
  | nil => exact h'
  | cons hheader htag hseqno hcost hout _ ih =>
    exact .cons hheader htag hseqno hcost hout (ih h')

namespace FlameProtocol

open FlameRtable

theorem originate_ok (hsound : device.Sound s.routes) (n : Mac48Address) (now : ℕ)
    (dst : Mac48Address) (payload : List UInt8) (protocol : UInt16) :
    ∃ s' events, s.originate device now n dst ⟨payload, none, none⟩ protocol =
        .ok (false, s', events) ∧
      Originates device n s.myLastSeqno events s'.myLastSeqno ∧
      Trimmed now s.routes s'.routes := by
  have hout : ∀ update : Bool, device.HasOut
      (if update then interfaceAny else (s.routes.lookup now dst).1.ifIndex) := by
    intro update
    cases update with
    | true => exact .inl rfl
    | false => exact lookup_hasOut hsound now dst
  refine ⟨_, _, rfl, ?_, lookup_trimmed s.routes now dst⟩
  exact .cons rfl rfl rfl rfl (hout _) (.nil _)

theorem send_ok (hsound : device.Sound s.routes) (n : Mac48Address) (now : ℕ)
    (sending : Sending) :
    ∃ s' events, s.send device n now sending = .ok (false, s', events) ∧
      Originates device n s.myLastSeqno events s'.myLastSeqno ∧
      Trimmed now s.routes s'.routes := by
  rw [send, requestRoute, if_pos rfl]
  exact originate_ok hsound n now sending.dest sending.payload sending.protocolNumber

theorem sendAll_ok (hsound : device.Sound s.routes) (n : Mac48Address) (now : ℕ)
    (sendings : List Sending) :
    ∃ s' events, s.sendAll device n now sendings = .ok (s', events) ∧
      Originates device n s.myLastSeqno events s'.myLastSeqno ∧
      Trimmed now s.routes s'.routes := by
  induction sendings generalizing s with
  | nil => exact ⟨s, [], rfl, .nil _, Trimmed.refl now s.routes⟩
  | cons sending sendings ih =>
    obtain ⟨s₁, events₁, hsend, horig₁, htrim₁⟩ := send_ok hsound n now sending
    obtain ⟨s', events₂, hrest, horig₂, htrim₂⟩ := ih (htrim₁.sound hsound)
    refine ⟨s', events₁ ++ events₂, ?_, horig₁.append horig₂, htrim₁.trans htrim₂⟩
    simp only [sendAll, hsend, hrest, bind, Except.bind, pure, Except.pure]

/-! ## Frames of other mesh points -/

/-- What the table holds of the source is older. -/
def Newer (now : ℕ) (t : FlameRtable) (source : Mac48Address) (seqno : UInt16) : Prop :=
  ∀ route, t source = some route → now ≤ route.whenExpire → (route.seqnum - seqno).toInt16 < 0

theorem handleDataFrame_cases (hsound : device.Sound s.routes) (n : Mac48Address) (now : ℕ)
    (source : Mac48Address) (hdr : FlameHeader) (transmitter : Mac48Address) (iface : ℕ) :
    (∃ routes, s.handleDataFrame device n now hdr.seqno source hdr transmitter iface =
        (true, { s with routes := routes }, []) ∧ Trimmed now s.routes routes) ∨
      source ≠ n ∧ hdr.cost ≤ device.maxCost ∧ Newer now s.routes source hdr.seqno ∧
        ∃ routes, s.handleDataFrame device n now hdr.seqno source hdr transmitter iface =
            (false, { s with routes := routes },
              [.addPath source transmitter iface hdr.cost hdr.seqno]) ∧
          Learned now s.routes routes source
            ⟨transmitter, iface, hdr.cost, now + device.lifetime, hdr.seqno⟩ := by
  rw [handleDataFrame]
  split
  · exact .inl ⟨s.routes, rfl, Trimmed.refl now s.routes⟩
  · dsimp only
    split
    · exact .inl ⟨_, rfl, lookup_trimmed s.routes now source⟩
    · split
      · exact .inl ⟨_, rfl, lookup_trimmed s.routes now source⟩
      · rename_i hsource hseen hcost
        refine .inr ⟨hsource, UInt8.not_lt.mp hcost, ?_, _, rfl, Function.update_self .., ?_⟩
        · intro route hroute hnow
          rw [lookup_of_unexpired hroute hnow] at hseen
          exact Int16.not_le.mp fun hle => hseen ⟨(hsound source route hroute).1, hle⟩
        · intro d hd
          rw [FlameRtable.addPath, Function.update_of_ne hd]
          exact lookup_trimmed s.routes now source d

theorem handleDataFrame_seen {route : Route} (hroute : s.routes source = some route)
    (hnow : now ≤ route.whenExpire) (hne : route.retransmitter ≠ broadcast) (hdr : FlameHeader)
    (transmitter : Mac48Address) (iface : ℕ) :
    s.handleDataFrame device n now route.seqnum source hdr transmitter iface = (true, s, []) := by
  rw [handleDataFrame]
  split
  · rfl
  · have hself : (0 : Int16) ≤ (route.seqnum - route.seqnum).toInt16 := by
      rw [sub_self]
      decide
    rw [lookup_of_unexpired hroute hnow]
    exact if_pos ⟨hne, hself⟩

/-- Packets of the source that are passed up: one at most. -/
def Received (source : Mac48Address) (events : List Event) : Prop :=
  events = [] ∨ ∃ packet protocol, events = [.rxCallback packet protocol source]

/-- Frames of the source that are sent on: one at most, with one more hop. -/
def Forwards (device : Device) (source : Mac48Address) (hdr : FlameHeader) (events : List Event) :
    Prop :=
  events = [] ∨ ∃ packet tag dst outIface, packet.header = some (hdr.addCost 1) ∧
    packet.tag = some tag ∧ device.HasOut outIface ∧
    events = [.doSend packet source dst flameProtocol outIface]

/-- A frame is dropped. -/
structure Rejected (now : ℕ) (s s' : FlameProtocol) (events : List Event) : Prop where
  events_eq : events = []
  myLastSeqno_eq : s'.myLastSeqno = s.myLastSeqno
  trimmed : Trimmed now s.routes s'.routes

/-- A frame is accepted. -/
structure Accepted (device : Device) (n : Mac48Address) (now : ℕ) (s s' : FlameProtocol)
    (source : Mac48Address) (hdr : FlameHeader) (route : Route) (events : List Event) : Prop where
  source_ne : source ≠ n
  cost_le : hdr.cost ≤ device.maxCost
  newer : Newer now s.routes source hdr.seqno
  learned : Learned now s.routes s'.routes source route
  events_eq : ∃ seqno own received own' sent,
    events = .addPath source route.retransmitter route.interface route.cost route.seqnum ::
      (own ++ received ++ own' ++ sent) ∧
    Originates device n s.myLastSeqno own seqno ∧ Received source received ∧
    Originates device n seqno own' s'.myLastSeqno ∧ Forwards device source hdr sent

variable {hdr : FlameHeader} {tag : FlameTag} {packet : Packet} {iface : ℕ}

/-- The route that a frame teaches. -/
def routeOf (device : Device) (now : ℕ) (hdr : FlameHeader) (tag : FlameTag) (iface : ℕ) : Route :=
  ⟨tag.transmitter, iface, hdr.cost, now + device.lifetime, hdr.seqno⟩

theorem forwardUnicast_seen (dst : Mac48Address) (packet : Packet)
    (h : s.handleDataFrame device n now hdr.seqno source hdr tag.transmitter iface =
      (true, s, [])) :
    s.forwardUnicast device n now iface source dst packet hdr tag = (false, s, []) := by
  rw [forwardUnicast, h]
  rfl

theorem forwardBroadcast_seen (dst : Mac48Address) (packet : Packet)
    (h : s.handleDataFrame device n now hdr.seqno source hdr tag.transmitter iface =
      (true, s, [])) :
    ∃ events, s.forwardBroadcast device n now iface source dst packet hdr tag =
      .ok (true, s, events) ∧ Forwards device source hdr events := by
  refine ⟨_, by rw [forwardBroadcast, h]; rfl, .inr ?_⟩
  refine ⟨⟨packet.payload, some (hdr.addCost 1), some (.create broadcast)⟩, ?_⟩
  exact ⟨.create broadcast, dst, interfaceAny, rfl, rfl, .inl rfl, rfl⟩

theorem forwardUnicast_cases (hsound : device.Sound s.routes) (n : Mac48Address) (now : ℕ)
    (source dst : Mac48Address) (packet : Packet) (hdr : FlameHeader)
    (htransmitter : tag.transmitter ≠ broadcast) (hiface : device.HasOut iface) :
    ∃ b s' events,
      s.forwardUnicast device n now iface source dst packet hdr tag = (b, s', events) ∧
        (Rejected now s s' events ∨
          Accepted device n now s s' source hdr (routeOf device now hdr tag iface) events) := by
  cases handleDataFrame_cases hsound n now source hdr tag.transmitter iface with
  | inl hdrop =>
    obtain ⟨routes, hdrop, htrim⟩ := hdrop
    have hs' : s.forwardUnicast device n now iface source dst packet hdr tag =
        (false, { s with routes := routes }, []) := by
      rw [forwardUnicast, hdrop]
      rfl
    exact ⟨false, _, [], hs', .inl ⟨rfl, rfl, htrim⟩⟩
  | inr hnew =>
    obtain ⟨hne, hcost, hnewer, routes, hnew, hlearn⟩ := hnew
    have hlearn' : Learned now s.routes (routes.lookup now dst).2 source
        (routeOf device now hdr tag iface) :=
      hlearn.trimmed (Nat.le_add_right ..) (lookup_trimmed routes now dst)
    have hsound' := hlearn.sound ⟨htransmitter, hiface⟩ hsound
    rw [forwardUnicast, hnew]
    dsimp only
    rw [if_neg Bool.false_ne_true]
    split
    · refine ⟨_, _, _, rfl, .inr ⟨hne, hcost, hnewer, hlearn', s.myLastSeqno, [], [], [], [], ?_⟩⟩
      exact ⟨rfl, .nil _, .inl rfl, .nil _, .inl rfl⟩
    · refine ⟨_, _, _, rfl, .inr ⟨hne, hcost, hnewer, hlearn', s.myLastSeqno, [], [], [], ?_⟩⟩
      refine ⟨_, rfl, .nil _, .inl rfl, .nil _, .inr ⟨_, _, dst, _, rfl, rfl, ?_, rfl⟩⟩
      exact lookup_hasOut hsound' now dst

theorem requestRoute_eq (dst : Mac48Address) (hiface : iface ∈ device.interfaces.map Prod.fst)
    (hheader : packet.header = some hdr) (htag : packet.tag = some tag) (protocol : UInt16) :
    s.requestRoute device n now iface source dst packet protocol =
      if dst = broadcast then
        s.forwardBroadcast device n now iface source dst packet hdr tag
      else .ok (s.forwardUnicast device n now iface source dst packet hdr tag) := by
  have hne : iface ≠ device.ifIndex := fun heq => device.ifIndex_notMem (heq ▸ hiface)
  rw [requestRoute, if_neg hne, hheader, htag]

/-- `RemoveRoutingStuff` drops a frame or learns its route. -/
theorem removeRoutingStuff_cases (hsound : device.Sound s.routes) (n : Mac48Address) (now : ℕ)
    (source dst : Mac48Address)
    (htransmitter : tag.transmitter ≠ broadcast) (hiface : device.HasOut iface)
    (hheader : packet.header = some hdr) (htag : packet.tag = some tag) :
    (∃ s', s.removeRoutingStuff device n now iface source dst packet flameProtocol =
        .ok (none, s', []) ∧ Rejected now s s' []) ∨
      source ≠ n ∧ hdr.cost ≤ device.maxCost ∧ Newer now s.routes source hdr.seqno ∧
        ∃ s' own, s.removeRoutingStuff device n now iface source dst packet flameProtocol =
            .ok (some (⟨packet.payload, none, none⟩, hdr.protocol), s',
              .addPath source tag.transmitter iface hdr.cost hdr.seqno :: own) ∧
          Learned now s.routes s'.routes source (routeOf device now hdr tag iface) ∧
          Originates device n s.myLastSeqno own s'.myLastSeqno := by
  rw [removeRoutingStuff]
  split
  · exact .inl ⟨s, rfl, rfl, rfl, Trimmed.refl now s.routes⟩
  · rw [htag, hheader]
    dsimp only
    cases handleDataFrame_cases hsound n now source hdr tag.transmitter iface with
    | inl hdrop =>
      obtain ⟨routes, hdrop, htrim⟩ := hdrop
      rw [hdrop]
      exact .inl ⟨{ s with routes := routes }, rfl, rfl, rfl, htrim⟩
    | inr hnew =>
      obtain ⟨hne, hcost, hnewer, routes, hnew, hlearn⟩ := hnew
      refine .inr ⟨hne, hcost, hnewer, ?_⟩
      rw [hnew]
      dsimp only
      rw [if_neg Bool.false_ne_true]
      split
      · have hsound' : device.Sound ({ s with routes := routes } : FlameProtocol).routes :=
          hlearn.sound ⟨htransmitter, hiface⟩ hsound
        obtain ⟨s', own, hsend, horig, htrim⟩ :=
          send_ok hsound' n now ⟨[], broadcast, 0⟩
        refine ⟨{ s' with lastBroadcast := now }, own, ?_, ?_, horig⟩
        · rw [hsend]
          rfl
        · exact hlearn.trimmed (Nat.le_add_right ..) htrim
      · exact ⟨{ s with routes := routes }, [], rfl, hlearn, .nil _⟩

/-- A frame is dropped, or it is accepted and its route is learnt. No fatal error is met and no
assertion fails. -/
theorem receiveFromDevice_cases (hsound : device.Sound s.routes) (n : Mac48Address) (now : ℕ)
    (source dst : Mac48Address)
    (htransmitter : tag.transmitter ≠ broadcast) (hiface : iface ∈ device.interfaces.map Prod.fst)
    (hheader : packet.header = some hdr) (htag : packet.tag = some tag) (replies : List Sending) :
    ∃ s' events, s.receiveFromDevice device n now iface packet flameProtocol source dst replies =
        .ok (s', events) ∧
      (Rejected now s s' events ∨
        Accepted device n now s s' source hdr (routeOf device now hdr tag iface) events) := by
  have hout : device.HasOut iface := .inr hiface
  rw [receiveFromDevice]
  by_cases hdst : dst.isGroup = true ∨ dst = n
  · rw [if_pos hdst]
    obtain ⟨s', hremove, hrejected⟩ | ⟨hne, hcost, hnewer, s₁, own, hremove, hlearn,
      horig⟩ := removeRoutingStuff_cases hsound n now source dst htransmitter hout hheader htag
    · refine ⟨s', [], ?_, .inl hrejected⟩
      rw [hremove]
      rfl
    · have hsound₁ := hlearn.sound ⟨htransmitter, hout⟩ hsound
      obtain ⟨s₂, own', hsends, horig', htrim⟩ :=
        sendAll_ok hsound₁ n now replies
      have hlearn₂ := hlearn.trimmed (Nat.le_add_right ..) htrim
      have haccepted : ∀ sent, Forwards device source hdr sent →
          Accepted device n now s s₂ source hdr (routeOf device now hdr tag iface)
            (.addPath source tag.transmitter iface hdr.cost hdr.seqno :: own ++
              .rxCallback ⟨packet.payload, none, none⟩ hdr.protocol source :: own' ++ sent) := by
        intro sent hsent
        refine ⟨hne, hcost, hnewer, hlearn₂, s₁.myLastSeqno, own,
          [.rxCallback ⟨packet.payload, none, none⟩ hdr.protocol source], own', sent, ?_⟩
        refine ⟨?_, horig, .inr ⟨_, _, rfl⟩, horig', hsent⟩
        simp [routeOf]
      rw [hremove]
      simp only [bind, Except.bind, hsends]
      by_cases hgroup : dst.isGroup = true
      · -- the number has just been stored, so it counts as seen
        have hseen : s₂.handleDataFrame device n now hdr.seqno source hdr tag.transmitter iface =
            (true, s₂, []) :=
          handleDataFrame_seen hlearn₂.1 (Nat.le_add_right ..) htransmitter hdr tag.transmitter iface
        rw [if_pos hgroup, requestRoute_eq dst hiface hheader htag]
        by_cases hbroadcast : dst = broadcast
        · obtain ⟨sent, hforward, hsent⟩ :=
            forwardBroadcast_seen dst packet hseen
          rw [if_pos hbroadcast, hforward]
          exact ⟨s₂, _, rfl, .inr (haccepted sent hsent)⟩
        · rw [if_neg hbroadcast, forwardUnicast_seen dst packet hseen]
          exact ⟨s₂, _, rfl, .inr (haccepted [] (.inl rfl))⟩
      · rw [if_neg hgroup]
        refine ⟨s₂, _, rfl, .inr ?_⟩
        have hend := haccepted [] (.inl rfl)
        rw [List.append_nil] at hend
        exact hend
  · rw [if_neg hdst, requestRoute_eq dst hiface hheader htag]
    have hbroadcast : dst ≠ broadcast := by
      rintro rfl
      exact hdst (.inl (by decide))
    obtain ⟨b, s', events, hforward, hcases⟩ :=
      forwardUnicast_cases hsound n now source dst packet hdr htransmitter hout
    rw [if_neg hbroadcast, hforward]
    exact ⟨s', events, rfl, hcases⟩

end FlameProtocol

end Ns3Noc.Flame
