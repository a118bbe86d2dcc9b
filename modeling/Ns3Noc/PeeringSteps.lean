import Ns3Noc.PeeringAgreement

/-!
# Steps of two mesh points

What a link answers to an event, what a mesh point does with its link, and that every event keeps
the invariant of the agreement unless a stale open frame is accepted.
-/
namespace Ns3Noc.MeshPeering

open PartialRuns

/-! ## Answers of a link -/

section Answers

variable {m : Mesh} {p : MeshPoint} {link : PeerLink} {r : Reaction}

/-- A reaction that leaves a link in agreement with the frames, or that erases the link -/
structure Mesh.Answers (m : Mesh) (p : MeshPoint) (link : PeerLink) (r : Reaction) : Prop where
  local_eq : r.link.localLinkId = link.localLinkId
  link : m.LinkOk p r.link ∧ (r.link.state = .idle → r.status = none) ∨
    r.link.state = .idle ∧ ∃ ostate, r = ⟨r.link, some (ostate, .idle), []⟩
  frames : ∀ frame ∈ r.frames, frame.localLinkId = r.link.localLinkId ∧
    ∀ aid id peerId, frame = .peerConfirm aid id peerId →
      peerId = r.link.peerLinkId ∧ peerId ≠ 0

theorem Mesh.LinkOk.congr {link' : PeerLink} (h : m.LinkOk p link)
    (hlocal : link'.localLinkId = link.localLinkId) (hpeer : link'.peerLinkId = link.peerLinkId)
    (hstate : link'.state = link.state) : m.LinkOk p link' := by
  obtain ⟨hpos, hnewest, hknown, hconfirms, hconfirmed⟩ := h
  exact ⟨hlocal ▸ hpos, hlocal ▸ hnewest, hpeer ▸ hknown, by rw [hlocal, hpeer, hstate]; exact
    hconfirms, by rw [PeerLink.Confirmed, hlocal, hpeer, hstate]; exact hconfirmed⟩

theorem Mesh.Answers.congr {link' : PeerLink} (h : m.Answers p link r)
    (hlocal : link'.localLinkId = r.link.localLinkId)
    (hpeer : link'.peerLinkId = r.link.peerLinkId) (hstate : link'.state = r.link.state) :
    m.Answers p link { r with link := link' } := by
  refine ⟨hlocal.trans h.local_eq, ?_, fun frame hmem => ?_⟩
  · rcases h.link with ⟨hok, hidle⟩ | ⟨hidle, ostate, heq⟩
    · exact .inl ⟨hok.congr hlocal hpeer hstate, fun h => hidle (hstate.symm.trans h)⟩
    · refine .inr ⟨hstate.trans hidle, ostate, ?_⟩
      rw [heq]
  · rw [hlocal, hpeer]
    exact h.frames frame hmem

theorem Mesh.LinkOk.stay (h : m.LinkOk p link) : m.Answers p link link.stay :=
  ⟨rfl, .inl ⟨h, fun _ => rfl⟩, fun _ hmem => nomatch hmem⟩

theorem Mesh.LinkOk.stateMachine {event : PeerEvent} {reason : PmpReasonCode}
    (h : m.LinkOk p link) (hstep : link.stateMachine event reason = some r)
    (hconfirm : event = .cnfAcpt →
      ∃ aid, .peerConfirm aid link.peerLinkId link.localLinkId ∈ m.sent p.other)
    (hopen : event = .opnAcpt → link.peerLinkId ≠ 0) : m.Answers p link r := by
  have hfollows := PeerLink.stateMachine_follows hstep
  refine ⟨hfollows.localLinkId_eq, ?_, fun frame hmem => ?_⟩
  · by_cases herased : r.link.state = .idle ∧ ∃ ostate, r = ⟨r.link, some (ostate, .idle), []⟩
    · exact .inr herased
    have hkept : r.link.state = .idle → link.state = .idle ∧ r.status = none := fun hidle =>
      (hfollows.idle hidle).resolve_right fun h => herased ⟨hidle, h⟩
    refine .inl ⟨⟨?_, ?_, ?_, fun hstate => ?_, fun hconf => ?_⟩, fun hidle => (hkept hidle).2⟩
    · rw [hfollows.localLinkId_eq]
      exact h.local_pos
    · rw [hfollows.localLinkId_eq]
      exact h.newest
    · rw [hfollows.peerLinkId_eq]
      exact h.peer_known
    · -- a link in HOLDING stays there, or is erased
      have hne : link.state ≠ .holding := by
        intro hholding
        rcases hfollows.holding hholding with hr | hr
        · exact hstate hr
        · rw [(hkept hr).1] at hholding
          cases hholding
      rw [hfollows.localLinkId_eq, hfollows.peerLinkId_eq]
      exact h.confirms_le hne
    · rw [hfollows.localLinkId_eq, hfollows.peerLinkId_eq]
      rcases hfollows.confirmed hconf with hold | hevent
      · exact h.confirmed hold
      · obtain ⟨aid, hmem⟩ := hconfirm hevent
        exact ⟨aid, _, hmem, le_rfl⟩
  · rw [hfollows.localLinkId_eq, hfollows.peerLinkId_eq]
    cases hfollows.sends frame hmem with
    | peerOpen => exact ⟨rfl, fun aid id peerId heq => nomatch heq⟩
    | peerClose reason => exact ⟨rfl, fun aid id peerId heq => nomatch heq⟩
    | peerConfirm hevent =>
      refine ⟨rfl, fun aid id peerId heq => ?_⟩
      rw [PeerLink.peerLinkConfirm, PeerLinkFrame.peerConfirm.injEq] at heq
      exact heq.2.2 ▸ ⟨rfl, hopen hevent⟩

theorem PeerLink.setPeerMp_eq {link' : PeerLink} {peerMp : MeshPoint}
    (h : link.setPeerMp peerMp = some link') :
    link'.localLinkId = link.localLinkId ∧ link'.peerLinkId = link.peerLinkId ∧
      link'.state = link.state ∧ (link.TimersPending → link'.TimersPending) := by
  rw [setPeerMp] at h
  split at h
  · rw [← Option.some.inj h]
    exact ⟨rfl, rfl, rfl, id⟩
  · split_ifs at h
    rw [← Option.some.inj h]
    exact ⟨rfl, rfl, rfl, id⟩

theorem Mesh.LinkOk.openAccept {id : ℕ} {peerMp : MeshPoint} (h : m.LinkOk p link)
    (hknown : m.Known p.other id) (hle : link.state ≠ .holding → link.peerLinkId ≤ id)
    (hstep : link.openAccept id peerMp = some r) : m.Answers p link r := by
  obtain ⟨link', hlink', hstep⟩ := Option.bind_eq_some_iff.mp hstep
  obtain ⟨hlocal, hpeer, hstate, -⟩ := PeerLink.setPeerMp_eq hlink'
  have hne := Nat.ne_of_gt hknown.pos
  have hnew : m.LinkOk p { link with peerLinkId := id } := by
    refine ⟨h.local_pos, h.newest, fun _ => hknown, fun hs aid id' hmem => ?_, fun hconf => ?_⟩
    · exact (h.confirms_le hs aid id' hmem).trans (hle hs)
    · obtain ⟨aid, id', hmem, hle'⟩ := h.confirmed hconf
      refine ⟨aid, id', hmem, hle'.trans (hle fun hs => ?_)⟩
      rcases hconf with hconf | hconf <;> exact absurd (hs.symm.trans hconf) (by decide)
  have hanswers := (hnew.congr hlocal hpeer hstate).stateMachine hstep (fun h => nomatch h)
    fun _ => hpeer ▸ hne
  exact ⟨hanswers.local_eq.trans hlocal, hanswers.link, hanswers.frames⟩

/-- A link id is learnt only if none is recorded. -/
theorem Mesh.LinkOk.learnPeerLinkId {id : ℕ} (h : m.LinkOk p link) (hknown : m.Known p.other id) :
    m.LinkOk p (link.learnPeerLinkId id) := by
  rw [PeerLink.learnPeerLinkId]
  split_ifs with h0
  · refine ⟨h.local_pos, h.newest, fun _ => hknown, fun hs aid id' hmem => ?_, fun hconf => ?_⟩
    · have hle := h.confirms_le hs aid id' hmem
      rw [h0] at hle
      exact hle.trans (Nat.zero_le _)
    · obtain ⟨aid, id', hmem, hle⟩ := h.confirmed hconf
      rw [h0] at hle
      exact ⟨aid, id', hmem, hle.trans (Nat.zero_le _)⟩
  · exact h

theorem PeerLink.learnPeerLinkId_local (link : PeerLink) (id : ℕ) :
    (link.learnPeerLinkId id).localLinkId = link.localLinkId := by
  rw [learnPeerLinkId]
  split_ifs <;> rfl

theorem Mesh.LinkOk.openReject {id : ℕ} {peerMp : MeshPoint} {reason : PmpReasonCode}
    (h : m.LinkOk p link) (hknown : m.Known p.other id)
    (hstep : link.openReject id peerMp reason = some r) : m.Answers p link r := by
  obtain ⟨link', hlink', hstep⟩ := Option.bind_eq_some_iff.mp hstep
  obtain ⟨hlocal, hpeer, hstate, -⟩ := PeerLink.setPeerMp_eq hlink'
  have hanswers := ((h.learnPeerLinkId hknown).congr hlocal hpeer hstate).stateMachine hstep
    (fun h => nomatch h) fun h => nomatch h
  exact ⟨hanswers.local_eq.trans (hlocal.trans (link.learnPeerLinkId_local id)), hanswers.link,
    hanswers.frames⟩

theorem Mesh.LinkOk.confirmAccept {aid id peerId : ℕ} {peerMp : MeshPoint} (h : m.LinkOk p link)
    (hknown : m.Known p.other id) (hmem : .peerConfirm aid id peerId ∈ m.sent p.other)
    (hstep : link.confirmAccept id peerId aid peerMp = some r) : m.Answers p link r := by
  simp only [PeerLink.confirmAccept] at hstep
  split_ifs at hstep with hne hpeer
  · exact Option.some.inj hstep ▸ h.stay
  · exact Option.some.inj hstep ▸ h.stay
  rw [not_not] at hne hpeer
  obtain ⟨link', hlink', hstep⟩ := Option.bind_eq_some_iff.mp hstep
  obtain ⟨hlocal, hpeer', hstate, -⟩ := PeerLink.setPeerMp_eq hlink'
  have hlocal' := hlocal.trans (link.learnPeerLinkId_local id)
  have hanswers := ((h.learnPeerLinkId hknown).congr hlocal hpeer' hstate).stateMachine hstep
    (fun _ => ⟨aid, by rw [hpeer', hlocal', hne]; exact hpeer.symm ▸ hmem⟩) fun h => nomatch h
  exact ⟨hanswers.local_eq.trans hlocal', hanswers.link, hanswers.frames⟩

theorem Mesh.LinkOk.close {id peerId : ℕ} {reason : PmpReasonCode} (h : m.LinkOk p link)
    (hknown : m.Known p.other id) (hstep : link.close id peerId reason = some r) :
    m.Answers p link r := by
  simp only [PeerLink.close] at hstep
  split_ifs at hstep with hne hpeer
  · exact Option.some.inj hstep ▸ h.stay
  · exact Option.some.inj hstep ▸ h.stay
  have hanswers := (h.learnPeerLinkId hknown).stateMachine hstep (fun h => nomatch h)
    fun h => nomatch h
  exact ⟨hanswers.local_eq.trans (link.learnPeerLinkId_local id), hanswers.link, hanswers.frames⟩

end Answers

/-! ## Answers of a mesh point -/

section Protocol

variable {m : Mesh} {p : MeshPoint} {pmp : PeerManagementProtocol}

/-- Only ids that are in use and numbers of links change. -/
theorem Mesh.ProtocolOk.congr {pmp' : PeerManagementProtocol} (h : m.ProtocolOk p pmp)
    (hid : pmp'.lastLocalLinkId = pmp.lastLocalLinkId)
    (hlink : ∀ link ∈ pmp'.peerLink, link ∈ pmp.peerLink) : m.ProtocolOk p pmp' := by
  have hbound : pmp'.bound = pmp.bound := by
    rw [PeerManagementProtocol.bound, PeerManagementProtocol.bound, hid]
  exact ⟨hid ▸ h.counter_lt, hbound ▸ h.bound_le,
    fun link hmem => hbound ▸ h.local_lt link (hlink link hmem),
    fun link hmem => h.link link (hlink link hmem)⟩

theorem PeerManagementProtocol.mem_findPeerLink {link : PeerLink} :
    link ∈ pmp.findPeerLink.peerLink ↔ link ∈ pmp.peerLink ∧ link.state ≠ .idle := by
  rw [findPeerLink]
  cases hp : pmp.peerLink with
  | none => simp [hp]
  | some old =>
    by_cases hs : old.state = .idle
    · simp only [hs, if_true]
      simp only [Option.mem_def, Option.some.injEq]
      constructor
      · intro h
        cases h
      · rintro ⟨rfl, hne⟩
        exact absurd hs hne
    · simp only [hs, if_false, hp, Option.mem_def, Option.some.injEq]
      constructor
      · rintro rfl
        exact ⟨rfl, hs⟩
      · exact And.left

theorem PeerManagementProtocol.findPeerLink_lastLocalLinkId :
    pmp.findPeerLink.lastLocalLinkId = pmp.lastLocalLinkId := by
  rw [findPeerLink]
  cases pmp.peerLink with
  | none => rfl
  | some old => by_cases hs : old.state = .idle <;> simp [hs]

theorem Mesh.ProtocolOk.findPeerLink (h : m.ProtocolOk p pmp) : m.ProtocolOk p pmp.findPeerLink :=
  h.congr PeerManagementProtocol.findPeerLink_lastLocalLinkId fun _ hmem =>
    (PeerManagementProtocol.mem_findPeerLink.mp hmem).1

theorem PeerManagementProtocol.bound_drawIds (hne : pmp.lastLocalLinkId ≠ 0)
    (hlt : pmp.lastLocalLinkId < 65536) : pmp.drawIds.bound = pmp.bound + 1 := by
  rw [bound, bound, if_neg hne]
  show (if (pmp.lastLocalLinkId + 1) % 65536 = 0 then 65536 else
    (pmp.lastLocalLinkId + 1) % 65536) = _
  by_cases h : (pmp.lastLocalLinkId + 1) % 65536 = 0
  · rw [if_pos h]
    omega
  · rw [if_neg h]
    omega

theorem Mesh.ProtocolOk.drawIds (h : m.ProtocolOk p pmp) (hne : pmp.lastLocalLinkId ≠ 0) :
    m.ProtocolOk p pmp.drawIds := by
  have hbound := PeerManagementProtocol.bound_drawIds hne h.counter_lt
  refine ⟨Nat.mod_lt _ (by omega), ?_, fun link hlink => ?_, h.link⟩
  · rw [hbound]
    exact h.bound_le.trans (Nat.le_succ _)
  · rw [hbound]
    exact Nat.lt_succ_of_lt (h.local_lt link hlink)

/-- The id of a new link is above all ids that are known. -/
theorem Mesh.ProtocolOk.initiateLink {address : Option MeshPoint} (hinv : m.Inv)
    (h : m.ProtocolOk p pmp) (hne : pmp.lastLocalLinkId ≠ 0) :
    m.ProtocolOk p (pmp.initiateLink address) := by
  have hbound : (pmp.initiateLink address).bound = pmp.bound + 1 :=
    PeerManagementProtocol.bound_drawIds hne h.counter_lt
  have hold : (m.protocol p).bound ≤ pmp.lastLocalLinkId := by
    have hle := h.bound_le
    rwa [PeerManagementProtocol.bound, PeerManagementProtocol.bound, if_neg hne] at hle
  refine ⟨Nat.mod_lt _ (by omega), ?_, fun link hlink => ?_, fun link hlink => ?_⟩
  · rw [hbound]
    exact h.bound_le.trans (Nat.le_succ _)
  · obtain rfl := Option.some.inj hlink
    rw [hbound, PeerManagementProtocol.bound, if_neg hne]
    exact Nat.lt_succ_self _
  · obtain rfl := Option.some.inj hlink
    refine ⟨Nat.pos_of_ne_zero hne, fun id hid => (hid.lt.trans_le hold).le,
      fun h0 => absurd rfl h0, fun _ aid id hmem => ?_, fun hconf => ?_⟩
    · have hlt := (hinv.frames p _ hmem).lt.trans_le hold
      exact absurd hlt (lt_irrefl _)
    · rcases hconf with hconf | hconf <;> cases hconf

theorem PeerManagementProtocol.peerLinkStatus_lastLocalLinkId (ostate nstate : PeerState) :
    (pmp.peerLinkStatus ostate nstate).lastLocalLinkId = pmp.lastLocalLinkId := by
  simp only [peerLinkStatus]
  by_cases h : nstate = .idle
  · rw [if_pos h]
    exact findPeerLink_lastLocalLinkId
  · rw [if_neg h]

theorem PeerManagementProtocol.mem_peerLinkStatus {ostate nstate : PeerState} {link : PeerLink} :
    link ∈ (pmp.peerLinkStatus ostate nstate).peerLink ↔
      link ∈ pmp.peerLink ∧ (nstate = .idle → link.state ≠ .idle) := by
  simp only [peerLinkStatus]
  by_cases h : nstate = .idle
  · rw [if_pos h, mem_findPeerLink]
    simp [h]
  · rw [if_neg h]
    simp [h]

theorem Mesh.Answers.apply {link : PeerLink} {r : Reaction} (h : m.Answers p link r)
    (hok : m.ProtocolOk p pmp) (hlink : link ∈ pmp.peerLink) :
    m.ProtocolOk p (pmp.apply r).1 ∧ FramesOk (pmp.apply r).1 (pmp.apply r).2 := by
  rcases h.link with ⟨hlinkOk, hidle⟩ | ⟨hidle, ostate, heq⟩
  · -- the link is kept
    have hnew : m.ProtocolOk p { pmp with peerLink := some r.link } := by
      refine ⟨hok.counter_lt, hok.bound_le, fun link' hlink' => ?_, fun link' hlink' => ?_⟩
      · obtain rfl := Option.some.inj hlink'
        rw [h.local_eq]
        exact hok.local_lt link hlink
      · obtain rfl := Option.some.inj hlink'
        exact hlinkOk
    cases hstatus : r.status with
    | none =>
      simp only [PeerManagementProtocol.apply, hstatus]
      exact ⟨hnew, fun frame hmem => ⟨r.link, rfl, h.frames frame hmem⟩⟩
    | some status =>
      have hne : r.link.state ≠ .idle := fun hs => by
        rw [hidle hs] at hstatus
        cases hstatus
      simp only [PeerManagementProtocol.apply, hstatus]
      refine ⟨hnew.congr (PeerManagementProtocol.peerLinkStatus_lastLocalLinkId _ _)
        fun link' hlink' => (PeerManagementProtocol.mem_peerLinkStatus.mp hlink').1,
        fun frame hmem => ⟨r.link, ?_, h.frames frame hmem⟩⟩
      exact PeerManagementProtocol.mem_peerLinkStatus.mpr ⟨rfl, fun _ => hne⟩
  · -- the link is erased
    rw [heq]
    simp only [PeerManagementProtocol.apply]
    have hnone : ∀ link', link' ∉ (PeerManagementProtocol.peerLinkStatus
        { pmp with peerLink := some r.link } ostate .idle).peerLink := by
      intro link' hlink'
      obtain ⟨hmem, hne⟩ := PeerManagementProtocol.mem_peerLinkStatus.mp hlink'
      obtain rfl := Option.some.inj hmem
      exact hne rfl hidle
    refine ⟨hok.congr ?_ fun link' hlink' => absurd hlink' (hnone link'), fun _ hmem => nomatch hmem⟩
    exact PeerManagementProtocol.peerLinkStatus_lastLocalLinkId _ _

theorem Mesh.ProtocolOk.withLink {f : PeerLink → Option Reaction}
    {r : PeerManagementProtocol × List PeerLinkFrame} (h : m.ProtocolOk p pmp)
    (hf : ∀ link ∈ pmp.peerLink, m.LinkOk p link → ∀ r, f link = some r → m.Answers p link r)
    (hr : pmp.withLink f = some r) : m.ProtocolOk p r.1 ∧ FramesOk r.1 r.2 := by
  rw [PeerManagementProtocol.withLink] at hr
  cases hlink : pmp.peerLink with
  | none =>
    simp only [hlink] at hr
    rw [← Option.some.inj hr]
    exact ⟨h, fun _ hmem => nomatch hmem⟩
  | some link =>
    simp only [hlink] at hr
    obtain ⟨reaction, hreaction, rfl⟩ := Option.map_eq_some_iff.mp hr
    exact (hf link hlink (h.link link hlink) reaction hreaction).apply h hlink

end Protocol

/-! ## Steps and runs -/

namespace Mesh

variable {m : Mesh} {p : MeshPoint} {r : PeerManagementProtocol × List PeerLinkFrame}

/-- An event of the link, without a frame of the peer -/
theorem LinkOk.event {link link' : PeerLink} {event : PeerEvent} {reason : PmpReasonCode}
    {reaction : Reaction} (h : m.LinkOk p link)
    (hstep : link'.stateMachine event reason = some reaction)
    (hlocal : link'.localLinkId = link.localLinkId) (hpeer : link'.peerLinkId = link.peerLinkId)
    (hstate : link'.state = link.state) (hconfirm : event ≠ .cnfAcpt) (hopen : event ≠ .opnAcpt) :
    m.Answers p link reaction := by
  have hanswers := (h.congr hlocal hpeer hstate).stateMachine hstep (fun h => absurd h hconfirm)
    fun h => absurd h hopen
  exact ⟨hanswers.local_eq.trans hlocal, hanswers.link, hanswers.frames⟩

theorem LinkOk.transmissionFailure {link : PeerLink} {reaction : Reaction} (h : m.LinkOk p link)
    (hstep : link.transmissionFailure = some reaction) : m.Answers p link reaction := by
  simp only [PeerLink.transmissionFailure] at hstep
  split_ifs at hstep
  · obtain ⟨reaction', hreaction, rfl⟩ := Option.map_eq_some_iff.mp hstep
    exact (h.event hreaction rfl rfl rfl (by decide) (by decide)).congr rfl rfl rfl
  · have hstay : m.LinkOk p { link with packetFail := (link.packetFail + 1) % 65536 } :=
      h.congr rfl rfl rfl
    rw [← Option.some.inj hstep]
    exact ⟨rfl, hstay.stay.link, hstay.stay.frames⟩

theorem Inv.receiveBeacon (h : m.Inv)
    (hfresh : (m.protocol p).Draws .beacon → (m.protocol p).lastLocalLinkId ≠ 0)
    (hr : (m.protocol p).receiveBeacon = some r) : m.ProtocolOk p r.1 ∧ FramesOk r.1 r.2 := by
  have hfind := (h.protocol p).findPeerLink
  rw [PeerManagementProtocol.receiveBeacon] at hr
  cases hlink : (m.protocol p).findPeerLink.peerLink with
  | some link =>
    simp only [hlink] at hr
    rw [← Option.some.inj hr]
    refine ⟨⟨hfind.counter_lt, hfind.bound_le, fun link' hlink' => ?_, fun link' hlink' => ?_⟩,
      fun _ hmem => nomatch hmem⟩
    · obtain rfl := Option.some.inj hlink'
      exact hfind.local_lt link hlink
    · obtain rfl := Option.some.inj hlink'
      exact (hfind.link link hlink).congr rfl rfl rfl
  | none =>
    simp only [hlink] at hr
    split_ifs at hr with hsend
    have hne : (m.protocol p).findPeerLink.lastLocalLinkId ≠ 0 := by
      rw [PeerManagementProtocol.findPeerLink_lastLocalLinkId]
      exact hfresh ⟨hlink, hsend⟩
    refine (hfind.initiateLink h hne).withLink (fun link _ hok reaction hreaction => ?_) hr
    obtain ⟨reaction', hreaction', rfl⟩ := Option.map_eq_some_iff.mp hreaction
    exact (hok.event hreaction' rfl rfl rfl (by decide) (by decide)).congr rfl rfl rfl

theorem Inv.receiveOpen {id : ℕ} (h : m.Inv) (hmem : .peerOpen id ∈ m.sent p.other)
    (hfresh : m.Fresh (p, .frame (.peerOpen id)))
    (hstale : m.NoStaleOpen (p, .frame (.peerOpen id)))
    (hr : (m.protocol p).receivePeerLinkFrame p.other (.peerOpen id) = some r) :
    m.ProtocolOk p r.1 ∧ FramesOk r.1 r.2 := by
  have hfind := (h.protocol p).findPeerLink
  have hknown : m.Known p.other id := h.frames p.other _ hmem
  have hanswers : ∀ pmp, m.ProtocolOk p pmp → (∀ link ∈ pmp.peerLink,
      (m.protocol p).findPeerLink.shouldAcceptOpen → link.state ≠ .holding →
        link.peerLinkId ≤ id) → (pmp.withLink fun link =>
          if (m.protocol p).findPeerLink.shouldAcceptOpen then link.openAccept id p.other
          else link.openReject id p.other .meshMaxPeers) = some r →
            m.ProtocolOk p r.1 ∧ FramesOk r.1 r.2 := by
    intro pmp hok hle hr
    refine hok.withLink (fun link hlink hlinkOk reaction hreaction => ?_) hr
    by_cases haccept : (m.protocol p).findPeerLink.shouldAcceptOpen
    · rw [if_pos haccept] at hreaction
      exact hlinkOk.openAccept hknown (hle link hlink haccept) hreaction
    · rw [if_neg haccept] at hreaction
      exact hlinkOk.openReject hknown hreaction
  simp only [PeerManagementProtocol.receivePeerLinkFrame] at hr
  by_cases hnone : (m.protocol p).findPeerLink.peerLink = none
  · rw [if_pos hnone] at hr
    have hne : (m.protocol p).findPeerLink.lastLocalLinkId ≠ 0 := by
      rw [PeerManagementProtocol.findPeerLink_lastLocalLinkId]
      exact hfresh hnone
    refine hanswers _ (hfind.initiateLink h hne) (fun link hlink _ _ => ?_) hr
    obtain rfl := Option.some.inj hlink
    exact Nat.zero_le _
  · rw [if_neg hnone] at hr
    refine hanswers _ hfind (fun link hlink haccept hstate => ?_) hr
    obtain ⟨hlink, hidle⟩ := PeerManagementProtocol.mem_findPeerLink.mp hlink
    exact hstale haccept link hlink hidle hstate

theorem Inv.receivePeerLinkFrame {frame : PeerLinkFrame} (h : m.Inv)
    (hmem : frame ∈ m.sent p.other) (hfresh : m.Fresh (p, .frame frame))
    (hstale : m.NoStaleOpen (p, .frame frame))
    (hr : (m.protocol p).receivePeerLinkFrame p.other frame = some r) :
    m.ProtocolOk p r.1 ∧ FramesOk r.1 r.2 := by
  have hfind := (h.protocol p).findPeerLink
  have hknown : m.Known p.other frame.localLinkId := h.frames p.other _ hmem
  cases frame with
  | peerOpen id => exact h.receiveOpen hmem hfresh hstale hr
  | peerConfirm aid id peerId =>
    exact hfind.withLink (fun link _ hok reaction hreaction =>
      hok.confirmAccept hknown hmem hreaction) hr
  | peerClose id peerId reason =>
    exact hfind.withLink (fun link _ hok reaction hreaction => hok.close hknown hreaction) hr

theorem Inv.timeout {pending : PeerLink → Bool} {f : PeerLink → Option Reaction} (h : m.Inv)
    (hf : ∀ link, m.LinkOk p link → ∀ r, f link = some r → m.Answers p link r)
    (hr : (m.protocol p).timeout pending f = some r) :
    m.ProtocolOk p r.1 ∧ FramesOk r.1 r.2 := by
  rw [PeerManagementProtocol.timeout] at hr
  split_ifs at hr
  exact (h.protocol p).withLink (fun link _ hok => hf link hok) hr

/-- What an event makes of a mesh point -/
theorem Inv.react {event : Event} (h : m.Inv) (hreceived : m.Received p event)
    (hfresh : m.Fresh (p, event)) (hstale : m.NoStaleOpen (p, event))
    (hr : (m.protocol p).react p.other event = some r) : m.ProtocolOk p r.1 ∧ FramesOk r.1 r.2 := by
  have hprotocol := h.protocol p
  have hfind := hprotocol.findPeerLink
  have hnil : FramesOk r.1 [] := fun _ hmem => nomatch hmem
  cases event with
  | beacon => exact h.receiveBeacon hfresh hr
  | frame frame => exact h.receivePeerLinkFrame hreceived hfresh hstale hr
  | retryTimeout =>
    refine h.timeout (fun link hok reaction hreaction => ?_) hr
    refine hok.event hreaction rfl rfl rfl ?_ ?_ <;> split_ifs <;> decide
  | confirmTimeout =>
    refine h.timeout (fun link hok reaction hreaction => ?_) hr
    exact hok.event hreaction rfl rfl rfl (by decide) (by decide)
  | holdingTimeout =>
    refine h.timeout (fun link hok reaction hreaction => ?_) hr
    exact hok.event hreaction rfl rfl rfl (by decide) (by decide)
  | beaconLoss =>
    refine h.timeout (fun link hok reaction hreaction => ?_) hr
    exact hok.event hreaction rfl rfl rfl (by decide) (by decide)
  | transmissionFailure =>
    exact hfind.withLink (fun link _ hok reaction hreaction =>
      hok.transmissionFailure hreaction) hr
  | transmissionSuccess =>
    refine hfind.withLink (fun link _ hok reaction hreaction => ?_) hr
    have hok' : m.LinkOk p { link with packetFail := 0 } := hok.congr rfl rfl rfl
    rw [← Option.some.inj hreaction]
    exact ⟨rfl, hok'.stay.link, hok'.stay.frames⟩
  | configurationMismatch =>
    exact hfind.withLink (fun link _ hok reaction hreaction =>
      hok.event hreaction rfl rfl rfl (by decide) (by decide)) hr
  | isActiveLink =>
    rw [← Option.some.inj hr]
    exact ⟨hfind, fun _ hmem => nomatch hmem⟩
  | otherInitiateLink =>
    rw [← Option.some.inj hr]
    exact ⟨hprotocol.drawIds (hfresh True.intro), fun _ hmem => nomatch hmem⟩
  | otherLinkOpen =>
    rw [← Option.some.inj hr]
    exact ⟨hprotocol.congr rfl fun _ hlink => hlink, fun _ hmem => nomatch hmem⟩
  | otherLinkClose =>
    rw [← Option.some.inj hr]
    exact ⟨hprotocol.congr rfl fun _ hlink => hlink, fun _ hmem => nomatch hmem⟩

theorem Inv.step {m' : Mesh} {a : MeshPoint × Event} (h : m.Inv) (hfresh : m.Fresh a)
    (hstale : m.NoStaleOpen a) (hstep : m.step a = some m') : m'.Inv := by
  rw [Mesh.step] at hstep
  split_ifs at hstep with hreceived
  obtain ⟨r, hr, rfl⟩ := Option.map_eq_some_iff.mp hstep
  obtain ⟨hprotocol, hframes⟩ := h.react hreceived hfresh hstale hr
  exact h.put hprotocol hframes

theorem init_inv (attributes : MeshPoint → Attributes) : (init attributes).Inv := by
  have hnone : ∀ p, ∀ link, link ∉ (init attributes).link p := fun _ _ hlink => nomatch hlink
  have hcounter : ∀ p, ((init attributes).protocol p).lastLocalLinkId < 65536 := by
    intro p
    show 1 < 65536
    omega
  refine ⟨fun p => ⟨hcounter p, le_rfl, fun link hlink => absurd hlink (hnone p link),
    fun link hlink => absurd hlink (hnone p link)⟩, ?_, ?_, ?_⟩
  · intro p frame hmem
    cases hmem
  · intro p aid id peerId hmem
    cases hmem
  · intro p aid id peerId aid' id' peerId' hmem
    cases hmem

end Mesh

end Ns3Noc.MeshPeering
