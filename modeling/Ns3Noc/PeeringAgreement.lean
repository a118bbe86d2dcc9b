import Ns3Noc.PeerManagement
import Ns3Noc.PeerLinkReactions

/-!
# Agreement of peer links

The confirm frames of two mesh points do not cross: of two ids that were confirmed, one is as new as
the link that confirmed the other. A link that keeps the newest id of its peer is thus in agreement
with the peer's link, once both are established.
-/
namespace Ns3Noc.MeshPeering

open PartialRuns

@[simp] theorem MeshPoint.other_other (p : MeshPoint) : p.other.other = p := by
  cases p <;> rfl

theorem MeshPoint.other_ne (p : MeshPoint) : p.other ≠ p := by
  cases p <;> decide

theorem MeshPoint.eq_or_eq_other (p q : MeshPoint) : q = p ∨ q = p.other := by
  cases p <;> cases q <;> decide

/-- Every id that was taken from the counter is below. -/
def PeerManagementProtocol.bound (pmp : PeerManagementProtocol) : ℕ :=
  if pmp.lastLocalLinkId = 0 then 65536 else pmp.lastLocalLinkId

/-! ## The invariant -/

/-- An id that a mesh point has used for a link, the link that it has now at the latest -/
structure Mesh.Known (m : Mesh) (p : MeshPoint) (id : ℕ) : Prop where
  pos : 0 < id
  lt : id < (m.protocol p).bound
  le : ∀ link ∈ m.link p, id ≤ link.localLinkId

/-- What a link of a mesh point has in common with the frames that were sent -/
structure Mesh.LinkOk (m : Mesh) (p : MeshPoint) (link : PeerLink) : Prop where
  local_pos : 0 < link.localLinkId
  newest : ∀ id, m.Known p id → id ≤ link.localLinkId
  peer_known : link.peerLinkId ≠ 0 → m.Known p.other link.peerLinkId
  confirms_le : link.state ≠ .holding → ∀ aid id,
    .peerConfirm aid link.localLinkId id ∈ m.sent p → id ≤ link.peerLinkId
  confirmed : link.Confirmed →
    ∃ aid id, .peerConfirm aid id link.localLinkId ∈ m.sent p.other ∧ id ≤ link.peerLinkId

/-- What a mesh point may become -/
structure Mesh.ProtocolOk (m : Mesh) (p : MeshPoint) (pmp : PeerManagementProtocol) : Prop where
  counter_lt : pmp.lastLocalLinkId < 65536
  bound_le : (m.protocol p).bound ≤ pmp.bound
  local_lt : ∀ link ∈ pmp.peerLink, link.localLinkId < pmp.bound
  link : ∀ link ∈ pmp.peerLink, m.LinkOk p link

structure Mesh.Inv (m : Mesh) : Prop where
  protocol : ∀ p, m.ProtocolOk p (m.protocol p)
  frames : ∀ p, ∀ frame ∈ m.sent p, m.Known p frame.localLinkId
  confirms : ∀ p aid id peerId, .peerConfirm aid id peerId ∈ m.sent p → m.Known p.other peerId
  crossing : ∀ p aid id peerId aid' id' peerId', .peerConfirm aid id peerId ∈ m.sent p →
    .peerConfirm aid' id' peerId' ∈ m.sent p.other → peerId' ≤ id ∨ peerId ≤ id'

/-- The frames are those of the link. -/
def FramesOk (pmp : PeerManagementProtocol) (frames : List PeerLinkFrame) : Prop :=
  ∀ frame ∈ frames, ∃ link ∈ pmp.peerLink, frame.localLinkId = link.localLinkId ∧
    ∀ aid id peerId, frame = .peerConfirm aid id peerId → peerId = link.peerLinkId ∧ peerId ≠ 0

/-- The newest confirm frames show that two established links agree. -/
theorem Mesh.Inv.agree {m : Mesh} (h : m.Inv) : m.Agree := by
  -- of two links, the one that was confirmed by a link as new as the other knows the other's id
  have hone : ∀ p, ∀ link ∈ m.link p, ∀ link' ∈ m.link p.other, ∀ aid id aid' id',
      .peerConfirm aid id link.localLinkId ∈ m.sent p.other → id ≤ link.peerLinkId →
      .peerConfirm aid' id' link'.localLinkId ∈ m.sent p → id' ≤ link'.peerLinkId →
      link'.state = .estab → link'.localLinkId ≤ id →
        link.peerLinkId = link'.localLinkId ∧ link'.peerLinkId = link.localLinkId := by
    intro p link hlink link' hlink' aid id aid' id' hconfirm hle hconfirm' hle' hestab hid
    have hok := (h.protocol p).link link hlink
    have hok' := (h.protocol p.other).link link' hlink'
    have hpos : link.peerLinkId ≠ 0 := by
      have := hok'.local_pos
      omega
    have hpos' : link'.peerLinkId ≠ 0 := by
      have := (h.frames p _ hconfirm').pos
      exact fun h0 => by
        rw [h0] at hle'
        exact absurd this (by simpa [PeerLinkFrame.localLinkId] using hle')
    have hpeer := (hok.peer_known hpos).le link' hlink'
    have hpeer' := (hok'.peer_known hpos').le link (by simpa using hlink)
    have hid' : id = link'.localLinkId := by omega
    subst hid'
    have hconfirmed := hok'.confirms_le (by simp [hestab]) aid link.localLinkId hconfirm
    omega
  intro left hleft right hright hleftEstab hrightEstab
  obtain ⟨aid, id, hconfirm, hle⟩ := ((h.protocol _).link left hleft).confirmed (.inr hleftEstab)
  obtain ⟨aid', id', hconfirm', hle'⟩ :=
    ((h.protocol _).link right hright).confirmed (.inr hrightEstab)
  rcases h.crossing .right aid id left.localLinkId aid' id' right.localLinkId hconfirm hconfirm'
    with hcross | hcross
  · exact hone .left left hleft right hright aid id aid' id' hconfirm hle hconfirm' hle'
      hrightEstab hcross
  · exact (hone .right right hright left hleft aid' id' aid id hconfirm' hle' hconfirm hle
      hleftEstab hcross).symm

/-! ## What a mesh point does to the other one -/

section Put

variable {m : Mesh} {p : MeshPoint} {r : PeerManagementProtocol × List PeerLinkFrame}

@[simp] theorem Mesh.put_protocol_self : (m.put p r).protocol p = r.1 := by
  simp [put]

@[simp] theorem Mesh.put_protocol_other : (m.put p r).protocol p.other = m.protocol p.other := by
  simp [put, Function.update_of_ne p.other_ne]

@[simp] theorem Mesh.put_sent_self : (m.put p r).sent p = m.sent p ++ r.2 := by
  simp [put]

@[simp] theorem Mesh.put_sent_other : (m.put p r).sent p.other = m.sent p.other := by
  simp [put, Function.update_of_ne p.other_ne]

theorem Mesh.Known.put_self {id : ℕ} (h : m.Known p id) (hp : m.ProtocolOk p r.1) :
    (m.put p r).Known p id := by
  refine ⟨h.pos, ?_, fun link hlink => ?_⟩
  · rw [put_protocol_self]
    exact h.lt.trans_le hp.bound_le
  · rw [Mesh.link, put_protocol_self] at hlink
    exact (hp.link link hlink).newest id h

theorem Mesh.Known.put_other {id : ℕ} :
    (m.put p r).Known p.other id ↔ m.Known p.other id := by
  constructor <;> intro h <;> refine ⟨h.pos, ?_, ?_⟩
  · simpa using h.lt
  · simpa [Mesh.link] using h.le
  · simpa using h.lt
  · simpa [Mesh.link] using h.le

/-- The id of a link that is kept is known. -/
theorem Mesh.ProtocolOk.known (hp : m.ProtocolOk p r.1) {link : PeerLink}
    (hlink : link ∈ r.1.peerLink) : (m.put p r).Known p link.localLinkId := by
  refine ⟨(hp.link link hlink).local_pos, ?_, fun link' hlink' => ?_⟩
  · rw [put_protocol_self]
    exact hp.local_lt link hlink
  · rw [Mesh.link, put_protocol_self] at hlink'
    exact (Option.mem_unique hlink hlink' ▸ le_rfl)

theorem Mesh.Inv.put (h : m.Inv) (hp : m.ProtocolOk p r.1) (hframes : FramesOk r.1 r.2) :
    (m.put p r).Inv := by
  have hsent : ∀ frame ∈ (m.put p r).sent p, frame ∈ m.sent p ∨ frame ∈ r.2 := by
    intro frame hmem
    rw [put_sent_self] at hmem
    exact List.mem_append.mp hmem
  -- a new confirm frame is about the id that the link has recorded
  have hnew : ∀ aid id peerId, .peerConfirm aid id peerId ∈ r.2 →
      ∃ link ∈ r.1.peerLink, id = link.localLinkId ∧ peerId = link.peerLinkId ∧
        m.Known p.other peerId := by
    intro aid id peerId hmem
    obtain ⟨link, hlink, hlocal, hconfirm⟩ := hframes _ hmem
    obtain ⟨rfl, hne⟩ := hconfirm aid id peerId rfl
    exact ⟨link, hlink, hlocal, rfl, (hp.link link hlink).peer_known hne⟩
  refine ⟨fun q => ?_, fun q => ?_, fun q => ?_, ?_⟩
  · obtain rfl | rfl := p.eq_or_eq_other q
    · refine ⟨?_, le_rfl, ?_, fun link hlink => ?_⟩
      · simpa using hp.counter_lt
      · simpa using hp.local_lt
      rw [put_protocol_self] at hlink
      have hok := hp.link link hlink
      refine ⟨hok.local_pos, fun id hid => hid.le link ?_, fun hne => ?_, ?_, fun hconf => ?_⟩
      · rwa [Mesh.link, put_protocol_self]
      · exact Known.put_other.mpr (hok.peer_known hne)
      · intro hstate aid id hmem
        rcases hsent _ hmem with hold | hmem
        · exact hok.confirms_le hstate aid id hold
        · obtain ⟨link', hlink', -, hpeer, -⟩ := hnew aid _ id hmem
          rw [hpeer, Option.mem_unique hlink hlink']
      · rw [put_sent_other]
        exact hok.confirmed hconf
    · have hother := h.protocol p.other
      refine ⟨?_, le_rfl, ?_, fun link hlink => ?_⟩
      · simpa using hother.counter_lt
      · simpa using hother.local_lt
      rw [put_protocol_other] at hlink
      have hok := hother.link link hlink
      refine ⟨hok.local_pos, fun id hid => hid.le link ?_, fun hne => ?_, ?_, fun hconf => ?_⟩
      · rwa [Mesh.link, put_protocol_other]
      · have hknown := hok.peer_known hne
        rw [MeshPoint.other_other] at hknown ⊢
        exact hknown.put_self hp
      · rw [put_sent_other]
        exact hok.confirms_le
      · obtain ⟨aid, id, hmem, hle⟩ := hok.confirmed hconf
        rw [MeshPoint.other_other] at hmem ⊢
        exact ⟨aid, id, by rw [put_sent_self]; exact List.mem_append_left _ hmem, hle⟩
  · obtain rfl | rfl := p.eq_or_eq_other q
    · intro frame hmem
      rcases hsent frame hmem with hold | hmem
      · exact (h.frames _ frame hold).put_self hp
      · obtain ⟨link, hlink, hlocal, -⟩ := hframes frame hmem
        rw [hlocal]
        exact hp.known hlink
    · intro frame hmem
      rw [put_sent_other] at hmem
      exact Known.put_other.mpr (h.frames _ frame hmem)
  · obtain rfl | rfl := p.eq_or_eq_other q
    · intro aid id peerId hmem
      rw [Known.put_other]
      rcases hsent _ hmem with hold | hmem
      · exact h.confirms _ aid id peerId hold
      · obtain ⟨link, -, -, -, hknown⟩ := hnew aid id peerId hmem
        exact hknown
    · intro aid id peerId hmem
      rw [put_sent_other] at hmem
      have hknown := h.confirms _ aid id peerId hmem
      rw [MeshPoint.other_other] at hknown ⊢
      exact hknown.put_self hp
  · -- a new confirm frame comes from a link as new as every id that was confirmed before
    have hone : ∀ aid id peerId aid' id' peerId', .peerConfirm aid id peerId ∈ (m.put p r).sent p →
        .peerConfirm aid' id' peerId' ∈ m.sent p.other → peerId' ≤ id ∨ peerId ≤ id' := by
      intro aid id peerId aid' id' peerId' hmem hmem'
      rcases hsent _ hmem with hold | hmem
      · exact h.crossing p aid id peerId aid' id' peerId' hold hmem'
      · obtain ⟨link, hlink, rfl, -, -⟩ := hnew aid id peerId hmem
        have hknown := h.confirms _ aid' id' peerId' hmem'
        rw [MeshPoint.other_other] at hknown
        exact .inl ((hp.link link hlink).newest peerId' hknown)
    intro q aid id peerId aid' id' peerId' hmem hmem'
    obtain rfl | rfl := p.eq_or_eq_other q
    · rw [put_sent_other] at hmem'
      exact hone aid id peerId aid' id' peerId' hmem hmem'
    · rw [put_sent_other] at hmem
      rw [MeshPoint.other_other] at hmem'
      exact (hone aid' id' peerId' aid id peerId hmem' hmem).symm

end Put

end Ns3Noc.MeshPeering
