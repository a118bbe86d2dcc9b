import Ns3Noc.PeerLink

/-!
# Admission of peer links

The peer management protocol of a mesh point with the links of all interfaces and neighbours. A
timer that outlives its link finds it idle.
-/
namespace Ns3Noc.MeshPeering

/-- What becomes of an event: a new state, a failed assertion, or the use of a null pointer. -/
inductive Outcome (σ : Type) where
  | done (s : σ)
  | failed
  | nullPointer

def Outcome.ofOption {σ : Type} : Option σ → Outcome σ
  | some s => .done s
  | none => .failed

def Outcome.bind {σ τ : Type} : Outcome σ → (σ → Outcome τ) → Outcome τ
  | .done s, f => f s
  | .failed, _ => .failed
  | .nullPointer, _ => .nullPointer

structure PeerEntry (α : Type) where
  interface : ℕ
  peerAddress : α
  link : PeerLink α

/-- The protocol of one mesh point. Each interface has its address. -/
structure PeerManager (α : Type) where
  maxNumberOfPeerLinks : ℕ
  maxRetries : ℕ
  maxPacketFail : ℕ
  plugins : List (ℕ × α)
  lastAssocId : ℕ
  lastLocalLinkId : ℕ
  linksTotal : ℕ
  peerLinks : List (PeerEntry α)

inductive PeerInput (α : Type) where
  | beacon (interface : ℕ) (peerAddress : α)
  | frame (interface : ℕ) (peerAddress peerMp : α) (frame : PeerLinkFrame)
  | retryTimeout (interface : ℕ) (peerAddress : α)
  | confirmTimeout (interface : ℕ) (peerAddress : α)
  | holdingTimeout (interface : ℕ) (peerAddress : α)
  | beaconLoss (interface : ℕ) (peerAddress : α)
  | erasedTimeout (interface : ℕ) (peerAddress : α)
  | transmissionFailure (interface : ℕ) (peerAddress : α)
  | transmissionSuccess (interface : ℕ) (peerAddress : α)
  | configurationMismatch (interface : ℕ) (peerAddress : α)
  | isActiveLink (interface : ℕ) (peerAddress : α)

namespace PeerManager
variable {α : Type} [DecidableEq α]

def create (maxNumberOfPeerLinks maxRetries maxPacketFail : ℕ) (plugins : List (ℕ × α)) :
    PeerManager α :=
  ⟨maxNumberOfPeerLinks, maxRetries, maxPacketFail, plugins, 0, 1, 0, []⟩

/-- The first link that the loop meets -/
def lookup (interface : ℕ) (peerAddress : α) : List (PeerEntry α) → Option (PeerLink α)
  | [] => none
  | e :: rest =>
    if e.interface = interface ∧ e.peerAddress = peerAddress then some e.link
    else lookup interface peerAddress rest

def erase (interface : ℕ) (peerAddress : α) : List (PeerEntry α) → List (PeerEntry α)
  | [] => []
  | e :: rest =>
    if e.interface = interface ∧ e.peerAddress = peerAddress then rest
    else e :: erase interface peerAddress rest

/-- The link changes. -/
def put (interface : ℕ) (peerAddress : α) (link : PeerLink α) :
    List (PeerEntry α) → List (PeerEntry α)
  | [] => []
  | e :: rest =>
    if e.interface = interface ∧ e.peerAddress = peerAddress then { e with link := link } :: rest
    else e :: put interface peerAddress link rest

variable (s : PeerManager α) (interface : ℕ) (peerAddress : α)

/-- An idle link is erased, and not found. -/
def findPeerLink : Option (PeerLink α) × PeerManager α :=
  match lookup interface peerAddress s.peerLinks with
  | none => (none, s)
  | some link =>
    if link.state = .idle then
      (none, { s with peerLinks := erase interface peerAddress s.peerLinks })
    else (some link, s)

def hasPlugin : Bool := s.plugins.any (·.1 = interface)

def newLink (peerMeshPointAddress : Option α) : PeerLink α where
  peerMeshPointAddress := peerMeshPointAddress
  localLinkId := s.lastLocalLinkId
  peerLinkId := 0
  assocId := s.lastAssocId
  peerAssocId := 0
  packetFail := 0
  state := .idle
  retryCounter := 0
  maxRetries := s.maxRetries
  maxPacketFail := s.maxPacketFail
  retryTimer := false
  confirmTimer := false
  holdingTimer := false
  beaconLossTimer := false

/-- The peer link must not exist, and the plugin must. -/
def initiateLink (peerMeshPointAddress : Option α) : Outcome (PeerManager α) :=
  match s.findPeerLink interface peerAddress with
  | (some _, _) => .failed
  | (none, s) =>
    if s.hasPlugin interface then
      .done { s with
        lastAssocId := (s.lastAssocId + 1) % 65536
        lastLocalLinkId := (s.lastLocalLinkId + 1) % 65536
        peerLinks := s.peerLinks ++ [⟨interface, peerAddress, s.newLink peerMeshPointAddress⟩] }
    else .failed

/-- `m_stats.linksTotal` after a move -/
def countMove (ostate nstate : PeerState) : PeerManager α :=
  { s with
    linksTotal :=
      if nstate = .estab ∧ ostate ≠ .estab then (s.linksTotal + 1) % 65536
      else if ostate = .estab ∧ nstate ≠ .estab then (s.linksTotal + 65535) % 65536
      else s.linksTotal }

def peerLinkStatus (ostate nstate : PeerState) : Outcome (PeerManager α) :=
  if s.hasPlugin interface then
    if nstate = .idle then
      match (s.countMove ostate nstate).findPeerLink interface peerAddress with
      | (some _, _) => .failed
      | (none, s) => .done s
    else .done (s.countMove ostate nstate)
  else .failed

/-- The link after its reaction, with its status callback -/
def apply (r : Reaction α) : Outcome (PeerManager α) :=
  let s := { s with peerLinks := put interface peerAddress r.link s.peerLinks }
  match r.status with
  | none => .done s
  | some (ostate, nstate) => s.peerLinkStatus interface peerAddress ostate nstate

/-- What is done with the link that is in the list -/
def withLink (f : PeerLink α → Option (Reaction α)) : Outcome (PeerManager α) :=
  match lookup interface peerAddress s.peerLinks with
  | none => .done s
  | some link => (Outcome.ofOption (f link)).bind (s.apply interface peerAddress)

/-- What is done with the link that `FindPeerLink` finds -/
def withFound (f : PeerLink α → Option (Reaction α)) : Outcome (PeerManager α) :=
  match s.findPeerLink interface peerAddress with
  | (none, s) => .done s
  | (some _, s) => s.withLink interface peerAddress f

def shouldSendOpen : Bool := s.linksTotal ≤ s.maxNumberOfPeerLinks

def shouldAcceptOpen : Bool := ¬s.linksTotal > s.maxNumberOfPeerLinks

def setBeaconInformation (link : PeerLink α) : PeerLink α := { link with beaconLossTimer := true }

def receiveBeacon : Outcome (PeerManager α) :=
  if s.plugins.any (·.2 = peerAddress) then .done s
  else
    match s.findPeerLink interface peerAddress with
    | (some link, s) =>
      .done { s with
        peerLinks := put interface peerAddress (setBeaconInformation link) s.peerLinks }
    | (none, s) =>
      if s.shouldSendOpen then
        (s.initiateLink interface peerAddress none).bind fun s =>
          s.withLink interface peerAddress fun link =>
            (link.stateMachine .actopn .reserved).map fun r =>
              { r with link := setBeaconInformation r.link }
      else .nullPointer

def receivePeerLinkFrame (peerMp : α) : PeerLinkFrame → Outcome (PeerManager α)
  | .peerOpen localLinkId =>
    let found := s.findPeerLink interface peerAddress
    let accept := found.2.shouldAcceptOpen
    let react (s : PeerManager α) : Outcome (PeerManager α) :=
      s.withLink interface peerAddress fun link =>
        if accept then link.openAccept localLinkId peerMp
        else link.openReject localLinkId peerMp .meshMaxPeers
    if found.1.isNone then
      (found.2.initiateLink interface peerAddress (some peerMp)).bind react
    else react found.2
  | .peerConfirm aid localLinkId peerLinkId =>
    s.withFound interface peerAddress (·.confirmAccept localLinkId peerLinkId aid peerMp)
  | .peerClose localLinkId peerLinkId reason =>
    s.withFound interface peerAddress (·.close localLinkId peerLinkId reason)

/-- A timer of an erased link, which is idle: `PeerLinkStatus` asserts that none is found. -/
def erasedTimeout : Outcome (PeerManager α) :=
  match s.findPeerLink interface peerAddress with
  | (some _, _) => .failed
  | (none, s) => .done s

def react : PeerInput α → Outcome (PeerManager α)
  | .beacon interface peerAddress => s.receiveBeacon interface peerAddress
  | .frame interface peerAddress peerMp frame =>
    s.receivePeerLinkFrame interface peerAddress peerMp frame
  | .retryTimeout interface peerAddress => s.withLink interface peerAddress PeerLink.retryTimeout
  | .confirmTimeout interface peerAddress =>
    s.withLink interface peerAddress PeerLink.confirmTimeout
  | .holdingTimeout interface peerAddress =>
    s.withLink interface peerAddress PeerLink.holdingTimeout
  | .beaconLoss interface peerAddress => s.withLink interface peerAddress PeerLink.beaconLoss
  | .erasedTimeout interface peerAddress => s.erasedTimeout interface peerAddress
  | .transmissionFailure interface peerAddress =>
    s.withFound interface peerAddress PeerLink.transmissionFailure
  | .transmissionSuccess interface peerAddress =>
    s.withFound interface peerAddress fun link => some { link with packetFail := 0 }.stay
  | .configurationMismatch interface peerAddress =>
    s.withFound interface peerAddress (·.cancelPeerLink .meshCapabilityPolicyViolation)
  | .isActiveLink interface peerAddress => .done (s.findPeerLink interface peerAddress).2

end PeerManager

/-! ## What admission is to guarantee -/

def PeerEntry.key {α : Type} (e : PeerEntry α) : ℕ × α := (e.interface, e.peerAddress)

namespace PeerManager
variable {α : Type} [DecidableEq α]

/-- The number of established links -/
def established (links : List (PeerEntry α)) : ℕ := links.countP (·.link.state = .estab)

structure Sound (s : PeerManager α) : Prop where
  limit : established s.peerLinks ≤ s.maxNumberOfPeerLinks
  linksTotal : s.linksTotal = established s.peerLinks
  unique : (s.peerLinks.map PeerEntry.key).Nodup

/-- The peer's mesh point address is not known, or it is the address. -/
def Knows (link : PeerLink α) (peerMp : α) : Prop :=
  link.peerMeshPointAddress = none ∨ link.peerMeshPointAddress = some peerMp

instance (link : PeerLink α) (peerMp : α) : Decidable (Knows link peerMp) :=
  inferInstanceAs (Decidable (_ ∨ _))

/-- The frame establishes a link that is half open. -/
def Completes (s : PeerManager α) : PeerInput α → Prop
  | .frame interface peerAddress peerMp (.peerOpen _) => s.shouldAcceptOpen = true ∧
    ∃ link, lookup interface peerAddress s.peerLinks = some link ∧ link.state = .cnfRcvd ∧
      Knows link peerMp
  | .frame interface peerAddress peerMp (.peerConfirm _ localLinkId peerLinkId) =>
    ∃ link, lookup interface peerAddress s.peerLinks = some link ∧ link.state = .opnRcvd ∧
      link.localLinkId = peerLinkId ∧ (link.peerLinkId = 0 ∨ link.peerLinkId = localLinkId) ∧
        Knows link peerMp
  | _ => False

/-- A beacon of a neighbour without a link comes only while a link may be opened. -/
def Answers (s : PeerManager α) : PeerInput α → Prop
  | .beacon interface peerAddress => s.plugins.any (·.2 = peerAddress) = true ∨
    (s.findPeerLink interface peerAddress).1 ≠ none ∨ s.shouldSendOpen = true
  | _ => True

structure Meets (s : PeerManager α) (input : PeerInput α) : Prop where
  room : s.Completes input → established s.peerLinks < s.maxNumberOfPeerLinks
  answers : s.Answers input

/-- The guarantee holds in every state of the run, which ends where an assertion fails. -/
def Serves (s : PeerManager α) : List (PeerInput α) → Prop
  | [] => Sound s
  | input :: inputs => Sound s ∧ s.react input ≠ .nullPointer ∧
    ∀ s', s.react input = .done s' → s'.Serves inputs

def AlwaysMeets (s : PeerManager α) : List (PeerInput α) → Prop
  | [] => True
  | input :: inputs => s.Meets input ∧ ∀ s', s.react input = .done s' → s'.AlwaysMeets inputs

end PeerManager

/-! ## Reactions -/

namespace PeerLink
variable {α : Type} {link : PeerLink α} {r : Reaction α} {event : PeerEvent}
  {reason : PmpReasonCode}

/-- The states that are reported are those of the link, which is established where it was, or where
the reaction completes it. -/
structure Reports (completes : Prop) (link : PeerLink α) (r : Reaction α) : Prop where
  silent : r.status = none → r.link.state = link.state
  moved : ∀ ostate nstate, r.status = some (ostate, nstate) →
    ostate = link.state ∧ nstate = r.link.state
  estab : r.link.state = .estab → link.state = .estab ∨ completes

theorem Reports.of_state {completes : Prop} {link' : PeerLink α} (h : Reports completes link r)
    (hstate : link.state = link'.state) : Reports completes link' r :=
  ⟨fun hs => (h.silent hs).trans hstate, fun o n hm => ⟨(h.moved o n hm).1.trans hstate,
    (h.moved o n hm).2⟩, fun he => hstate ▸ h.estab he⟩

theorem Reports.mono {completes completes' : Prop} (h : Reports completes link r)
    (himp : completes → completes') : Reports completes' link r :=
  ⟨h.silent, h.moved, fun he => (h.estab he).imp_right himp⟩

theorem reports_silent {completes : Prop} {link' : PeerLink α} {frames : List PeerLinkFrame}
    (hstate : link'.state = link.state) : Reports completes link ⟨link', none, frames⟩ :=
  ⟨fun _ => hstate, fun _ _ h => (by cases h), fun h => .inl (hstate.symm.trans h)⟩

theorem reports_moveTo {completes : Prop} {link' : PeerLink α} {nstate : PeerState}
    {frames : List PeerLinkFrame} (hstate : link'.state = link.state)
    (hestab : nstate = .estab → completes) : Reports completes link (link'.moveTo nstate frames) :=
  ⟨fun h => (by cases h), fun o n h => (by cases h; exact ⟨hstate, rfl⟩),
    fun h => .inr (hestab h)⟩

theorem reports_establish {link' : PeerLink α} {frames : List PeerLinkFrame}
    (hstate : link'.state = link.state) (h : link'.establish frames = some r) :
    Reports True link r := by
  rw [establish] at h
  split at h
  · cases h
  · cases h
    exact reports_moveTo hstate fun _ => trivial

/-- A link is established by a frame of the other kind than the one it has received. -/
def Awaits (link : PeerLink α) (event : PeerEvent) : Prop :=
  link.state = .cnfRcvd ∧ event = .opnAcpt ∨ link.state = .opnRcvd ∧ event = .cnfAcpt

theorem reports_stateMachine (h : link.stateMachine event reason = some r) :
    Reports (link.Awaits event) link r := by
  rw [stateMachine] at h
  cases hs : link.state with
  | idle =>
    rw [hs] at h
    cases event <;> cases h <;> first
      | exact reports_silent rfl
      | exact reports_moveTo rfl (fun h => by cases h)
  | opnSnt =>
    rw [hs] at h
    cases event <;> cases h <;> first
      | exact reports_silent rfl
      | exact reports_moveTo rfl (fun h => by cases h)
  | cnfRcvd =>
    rw [hs] at h
    cases event with
    | opnAcpt =>
      have hreports := reports_establish (show link.clearConfirmTimer.state = link.state from rfl) h
      exact hreports.mono fun _ => .inl ⟨hs, rfl⟩
    | _ =>
      cases h
      first
        | exact reports_silent rfl
        | exact reports_moveTo rfl (fun h => by cases h)
  | opnRcvd =>
    rw [hs] at h
    cases event with
    | cnfAcpt =>
      have hreports := reports_establish (show link.clearRetryTimer.state = link.state from rfl) h
      exact hreports.mono fun _ => .inr ⟨hs, rfl⟩
    | _ =>
      cases h
      first
        | exact reports_silent rfl
        | exact reports_moveTo rfl (fun h => by cases h)
  | estab =>
    rw [hs] at h
    cases event <;> cases h <;> first
      | exact reports_silent rfl
      | exact reports_moveTo rfl (fun h => by cases h)
  | holding =>
    rw [hs] at h
    cases event <;> cases h <;> first
      | exact reports_silent rfl
      | exact reports_moveTo rfl (fun h => by cases h)

end PeerLink

namespace PeerLink
variable {α : Type} {link : PeerLink α} {r : Reaction α} {event : PeerEvent}
  {reason : PmpReasonCode} {peerMp : α}

/-- `f` establishes a link only if `completes` holds. -/
def Honest (completes : PeerLink α → Prop) (f : PeerLink α → Option (Reaction α)) : Prop :=
  ∀ link r, f link = some r → Reports (completes link) link r

theorem honest_stateMachine (event : PeerEvent) (hopn : event ≠ .opnAcpt) (hcnf : event ≠ .cnfAcpt)
    (reason : PmpReasonCode) :
    Honest (fun _ => False) fun link : PeerLink α => link.stateMachine event reason :=
  fun _ _ h => (reports_stateMachine h).mono fun hawaits =>
    hawaits.elim (fun h => hopn h.2) fun h => hcnf h.2

theorem honest_stay (f : PeerLink α → PeerLink α) (hstate : ∀ link, (f link).state = link.state) :
    Honest (fun _ => False) fun link => some (f link).stay := by
  intro link r h
  cases h
  exact reports_silent (hstate link)

theorem honest_retryTimeout : Honest (fun _ => False) (retryTimeout (α := α)) := by
  intro link r h
  rw [retryTimeout] at h
  split at h
  · exact ((reports_stateMachine h).mono fun h => by rcases h with h | h <;> cases h.2).of_state rfl
  · exact ((reports_stateMachine h).mono fun h => by rcases h with h | h <;> cases h.2).of_state rfl

theorem honest_confirmTimeout : Honest (fun _ => False) (confirmTimeout (α := α)) :=
  fun link r h => ((honest_stateMachine .toc (by decide) (by decide) _) _ r h).of_state rfl

theorem honest_holdingTimeout : Honest (fun _ => False) (holdingTimeout (α := α)) :=
  fun link r h => ((honest_stateMachine .toh (by decide) (by decide) _) _ r h).of_state rfl

theorem honest_beaconLoss : Honest (fun _ => False) (beaconLoss (α := α)) :=
  fun link r h => ((honest_stateMachine .cncl (by decide) (by decide) _) _ r h).of_state rfl

theorem honest_transmissionFailure : Honest (fun _ => False) (transmissionFailure (α := α)) := by
  intro link r h
  rw [transmissionFailure] at h
  dsimp only at h
  split at h
  · obtain ⟨r', hr', rfl⟩ := Option.map_eq_some_iff.mp h
    obtain ⟨hsilent, hmoved, hestab⟩ :=
      (honest_stateMachine .cncl (by decide) (by decide) _) _ r' hr'
    exact ⟨hsilent, hmoved, hestab⟩
  · cases h
    exact reports_silent rfl

theorem learnPeerLinkId_state (link : PeerLink α) (localLinkId : ℕ) :
    (link.learnPeerLinkId localLinkId).state = link.state := by
  rw [learnPeerLinkId]
  split <;> rfl

theorem learnPeerLinkId_eq_iff (link : PeerLink α) (localLinkId : ℕ) :
    (link.learnPeerLinkId localLinkId).peerLinkId = localLinkId ↔
      link.peerLinkId = 0 ∨ link.peerLinkId = localLinkId := by
  rw [learnPeerLinkId]
  split
  next h => exact iff_of_true rfl (.inl h)
  next h => exact (or_iff_right h).symm

theorem honest_close (localLinkId peerLinkId : ℕ) (reason : PmpReasonCode) :
    Honest (fun _ => False) fun link : PeerLink α => link.close localLinkId peerLinkId reason := by
  intro link r h
  dsimp only [close] at h
  split at h
  · cases h
    exact reports_silent rfl
  · split at h
    · cases h
      exact reports_silent rfl
    · exact ((honest_stateMachine .clsAcpt (by decide) (by decide) reason) _ r h).of_state
        (learnPeerLinkId_state link localLinkId)

variable [DecidableEq α]

theorem setPeerMp_state {link' : PeerLink α} (h : link.setPeerMp peerMp = some link') :
    link'.state = link.state := by
  rw [setPeerMp] at h
  split at h
  · cases h
    rfl
  · split at h
    · cases h
      rfl
    · cases h

theorem setPeerMp_knows {link' : PeerLink α} (h : link.setPeerMp peerMp = some link') :
    PeerManager.Knows link peerMp := by
  rw [setPeerMp] at h
  split at h
  next hnone => exact .inl hnone
  next address haddress =>
    split at h
    next heq => exact .inr (haddress.trans (congrArg some heq))
    next => cases h

theorem exists_setPeerMp (h : PeerManager.Knows link peerMp) :
    ∃ link', link.setPeerMp peerMp = some link' ∧ link'.state = link.state ∧
      link'.peerMeshPointAddress ≠ none := by
  rcases h with hnone | hsome
  · refine ⟨{ link with peerMeshPointAddress := some peerMp }, ?_, rfl, fun h => by cases h⟩
    rw [setPeerMp, hnone]
  · refine ⟨link, ?_, rfl, fun h => ?_⟩
    · rw [setPeerMp, hsome]
      exact if_pos rfl
    · rw [hsome] at h
      cases h

theorem honest_openReject (localLinkId : ℕ) (peerMp : α) (reason : PmpReasonCode) :
    Honest (fun _ => False) fun link : PeerLink α => link.openReject localLinkId peerMp reason := by
  intro link r h
  obtain ⟨link', hlink', hr⟩ := Option.bind_eq_some_iff.mp h
  have hstate := (setPeerMp_state hlink').trans (learnPeerLinkId_state link localLinkId)
  exact ((honest_stateMachine .opnRjct (by decide) (by decide) reason) _ r hr).of_state hstate

/-- An open frame completes a link that was confirmed. -/
theorem honest_openAccept (localLinkId : ℕ) (peerMp : α) :
    Honest (fun link => link.state = .cnfRcvd ∧ PeerManager.Knows link peerMp)
      fun link : PeerLink α => link.openAccept localLinkId peerMp := by
  intro link r h
  obtain ⟨link', hlink', hr⟩ := Option.bind_eq_some_iff.mp h
  have hstate := setPeerMp_state hlink'
  change link'.state = link.state at hstate
  refine ((reports_stateMachine hr).mono fun hawaits => ?_).of_state hstate
  rcases hawaits with ⟨hcnf, -⟩ | ⟨-, hevent⟩
  · have hknows : PeerManager.Knows { link with peerLinkId := localLinkId } peerMp :=
      setPeerMp_knows hlink'
    exact ⟨hstate.symm.trans hcnf, hknows⟩
  · cases hevent

theorem exists_openAccept (localLinkId : ℕ) (hstate : link.state = .cnfRcvd)
    (hknows : PeerManager.Knows link peerMp) :
    ∃ r, link.openAccept localLinkId peerMp = some r ∧ r.link.state = .estab := by
  obtain ⟨link', hlink', hstate', hmp⟩ :=
    exists_setPeerMp
      (show PeerManager.Knows { link with peerLinkId := localLinkId } peerMp from hknows)
  refine ⟨link'.clearConfirmTimer.moveTo .estab [link'.peerLinkConfirm], ?_, rfl⟩
  rw [openAccept, hlink', Option.bind_some, stateMachine, hstate'.trans hstate]
  exact if_neg hmp

/-- A confirm frame completes a link that has received an open frame. -/
theorem honest_confirmAccept (localLinkId peerLinkId peerAid : ℕ) (peerMp : α) :
    Honest (fun link => link.state = .opnRcvd ∧ link.localLinkId = peerLinkId ∧
        (link.peerLinkId = 0 ∨ link.peerLinkId = localLinkId) ∧ PeerManager.Knows link peerMp)
      fun link : PeerLink α => link.confirmAccept localLinkId peerLinkId peerAid peerMp := by
  intro link r h
  dsimp only [confirmAccept] at h
  split at h
  · cases h
    exact reports_silent rfl
  next hlocal =>
    split at h
    · cases h
      exact reports_silent rfl
    next hpeer =>
      obtain ⟨link', hlink', hr⟩ := Option.bind_eq_some_iff.mp h
      have hstate := (setPeerMp_state hlink').trans (learnPeerLinkId_state link localLinkId)
      refine ((reports_stateMachine hr).mono fun hawaits => ?_).of_state hstate
      rcases hawaits with ⟨-, hevent⟩ | ⟨hopn, -⟩
      · cases hevent
      · refine ⟨hstate.symm.trans hopn, not_not.mp hlocal,
          (learnPeerLinkId_eq_iff link localLinkId).mp (not_not.mp hpeer), ?_⟩
        have hknows := setPeerMp_knows hlink'
        rw [learnPeerLinkId] at hknows
        split at hknows <;> exact hknows

theorem exists_confirmAccept {localLinkId peerLinkId : ℕ} (peerAid : ℕ)
    (hstate : link.state = .opnRcvd) (hlocal : link.localLinkId = peerLinkId)
    (hpeer : link.peerLinkId = 0 ∨ link.peerLinkId = localLinkId)
    (hknows : PeerManager.Knows link peerMp) :
    ∃ r, link.confirmAccept localLinkId peerLinkId peerAid peerMp = some r ∧
      r.link.state = .estab := by
  have hknows' : PeerManager.Knows { link.learnPeerLinkId localLinkId with peerAssocId := peerAid }
      peerMp := by
    rw [learnPeerLinkId]
    split <;> exact hknows
  obtain ⟨link', hlink', hstate', hmp⟩ := exists_setPeerMp hknows'
  have hstate'' := (hstate'.trans (learnPeerLinkId_state link localLinkId)).trans hstate
  refine ⟨link'.clearRetryTimer.moveTo .estab [], ?_, rfl⟩
  rw [confirmAccept, if_neg (not_not_intro hlocal)]
  dsimp only
  rw [if_neg (not_not_intro ((learnPeerLinkId_eq_iff link localLinkId).mpr hpeer)), hlink',
    Option.bind_some, stateMachine, hstate'']
  exact if_neg hmp

end PeerLink

/-! ## Lists of links -/

namespace PeerManager
variable {α : Type} {links : List (PeerEntry α)} {interface : ℕ} {peerAddress : α}
  {link link' : PeerLink α}

/-- How much a link counts for -/
def weight (link : PeerLink α) : ℕ := if link.state = .estab then 1 else 0

theorem established_cons (e : PeerEntry α) (rest : List (PeerEntry α)) :
    established (e :: rest) = established rest + weight e.link := by
  rw [established, established, List.countP_cons, weight]
  simp only [decide_eq_true_eq]

/-- What holds while an event is handled: the attributes of a state, and the number of established
links. -/
structure Inv (s₀ : PeerManager α) (n : ℕ) (s : PeerManager α) : Prop where
  limit : s.maxNumberOfPeerLinks = s₀.maxNumberOfPeerLinks
  plugins : s.plugins = s₀.plugins
  linksTotal : s.linksTotal = n
  count : established s.peerLinks = n
  unique : (s.peerLinks.map PeerEntry.key).Nodup
  installed : ∀ e ∈ s.peerLinks, s.hasPlugin e.interface = true

variable {s₀ s s' : PeerManager α} {n : ℕ}

/-- What becomes of an event, where `completes` says whether it establishes a link. -/
structure Follows (s₀ : PeerManager α) (n : ℕ) (completes : Prop)
    (outcome : Outcome (PeerManager α)) : Prop where
  safe : outcome ≠ .nullPointer
  kept : ∀ s', outcome = .done s' → ∃ m, Inv s₀ m s' ∧ (completes ∨ m ≤ n)
  completed : completes → ∃ s', outcome = .done s' ∧ Inv s₀ (n + 1) s'

theorem Follows.of_iff {completes completes' : Prop} {outcome : Outcome (PeerManager α)}
    (h : Follows s₀ n completes outcome) (hiff : completes ↔ completes') :
    Follows s₀ n completes' outcome := by
  rwa [← propext hiff]

theorem follows_done (h : Inv s₀ n s) : Follows s₀ n False (.done s) :=
  ⟨fun h => (by cases h), fun s' hs => (by cases hs; exact ⟨n, h, .inr le_rfl⟩), fun h => h.elim⟩

theorem follows_failed : Follows s₀ n False (.failed : Outcome (PeerManager α)) :=
  ⟨fun h => (by cases h), fun s' hs => (by cases hs), fun h => h.elim⟩

theorem Inv.sound (h : Inv s₀ n s) (hn : n ≤ s₀.maxNumberOfPeerLinks) : Sound s :=
  ⟨by rw [h.count, h.limit]; exact hn, h.linksTotal.trans h.count.symm, h.unique⟩

theorem inv_create (maxNumberOfPeerLinks maxRetries maxPacketFail : ℕ) (plugins : List (ℕ × α)) :
    Inv (create maxNumberOfPeerLinks maxRetries maxPacketFail plugins) 0
      (create maxNumberOfPeerLinks maxRetries maxPacketFail plugins) :=
  ⟨rfl, rfl, rfl, rfl, List.nodup_nil, fun _ hmem => absurd hmem List.not_mem_nil⟩

variable [DecidableEq α]

theorem lookup_eq_none_iff :
    lookup interface peerAddress links = none ↔
      (interface, peerAddress) ∉ links.map PeerEntry.key := by
  induction links with
  | nil => simp [lookup]
  | cons e rest ih =>
    rw [lookup, List.map_cons, List.mem_cons, not_or]
    split
    next h => exact iff_of_false (fun h => by cases h) fun hn => hn.1 (by rw [PeerEntry.key, h.1, h.2])
    next h =>
      rw [ih]
      refine (and_iff_right fun heq => h ?_).symm
      obtain ⟨hinterface, haddress⟩ := Prod.mk.inj heq
      exact ⟨hinterface.symm, haddress.symm⟩

theorem exists_of_lookup (h : lookup interface peerAddress links = some link) :
    ∃ e ∈ links, e.interface = interface ∧ e.link = link := by
  induction links with
  | nil => cases h
  | cons e rest ih =>
    rw [lookup] at h
    split at h
    next hkey => exact ⟨e, List.mem_cons_self, hkey.1, Option.some.inj h⟩
    next =>
      obtain ⟨e', hmem, hspec⟩ := ih h
      exact ⟨e', List.mem_cons_of_mem _ hmem, hspec⟩

theorem keys_put (link : PeerLink α) :
    (put interface peerAddress link links).map PeerEntry.key = links.map PeerEntry.key := by
  induction links with
  | nil => rfl
  | cons e rest ih =>
    rw [put]
    split
    · rfl
    · rw [List.map_cons, List.map_cons, ih]

theorem lookup_put (h : lookup interface peerAddress links = some link) (link' : PeerLink α) :
    lookup interface peerAddress (put interface peerAddress link' links) = some link' := by
  induction links with
  | nil => cases h
  | cons e rest ih =>
    rw [lookup] at h
    rw [put]
    split at h
    next hkey => rw [if_pos hkey, lookup, if_pos hkey]
    next hkey => rw [if_neg hkey, lookup, if_neg hkey, ih h]

theorem erase_sublist : (erase interface peerAddress links).Sublist links := by
  induction links with
  | nil => exact List.Sublist.refl _
  | cons e rest ih =>
    rw [erase]
    split
    · exact List.sublist_cons_self e rest
    · exact ih.cons_cons e

/-- One link goes, and there is no other one. -/
theorem lookup_erase (h : (links.map PeerEntry.key).Nodup) :
    lookup interface peerAddress (erase interface peerAddress links) = none := by
  induction links with
  | nil => rfl
  | cons e rest ih =>
    rw [List.map_cons, List.nodup_cons] at h
    rw [erase]
    split
    next hkey =>
      rw [lookup_eq_none_iff, ← hkey.1, ← hkey.2]
      exact h.1
    next hkey => rw [lookup, if_neg hkey, ih h.2]

theorem established_put (h : lookup interface peerAddress links = some link) (link' : PeerLink α) :
    established (put interface peerAddress link' links) + weight link =
      established links + weight link' := by
  induction links with
  | nil => cases h
  | cons e rest ih =>
    rw [lookup] at h
    rw [put]
    split at h
    next hkey =>
      obtain rfl := Option.some.inj h
      rw [if_pos hkey, established_cons, established_cons]
      dsimp only
      omega
    next hkey =>
      have hrest := ih h
      rw [if_neg hkey, established_cons, established_cons]
      omega

theorem established_erase (h : lookup interface peerAddress links = some link)
    (hidle : link.state = .idle) :
    established (erase interface peerAddress links) = established links := by
  induction links with
  | nil => cases h
  | cons e rest ih =>
    rw [lookup] at h
    rw [erase]
    split at h
    next hkey =>
      obtain rfl := Option.some.inj h
      rw [if_pos hkey, established_cons, weight, if_neg (by rw [hidle]; decide), Nat.add_zero]
    next hkey => rw [if_neg hkey, established_cons, established_cons, ih h]

/-! ## Steps -/

theorem Inv.erase (h : Inv s₀ n s) (hfind : lookup interface peerAddress s.peerLinks = some link)
    (hidle : link.state = .idle) :
    Inv s₀ n { s with peerLinks := erase interface peerAddress s.peerLinks } where
  limit := h.limit
  plugins := h.plugins
  linksTotal := h.linksTotal
  count := (established_erase hfind hidle).trans h.count
  unique := h.unique.sublist (erase_sublist.map _)
  installed e hmem := h.installed e (erase_sublist.subset hmem)

/-- The two results of `FindPeerLink` -/
theorem Inv.findPeerLink (h : Inv s₀ n s) (interface : ℕ) (peerAddress : α) :
    (∃ link, s.findPeerLink interface peerAddress = (some link, s) ∧
        lookup interface peerAddress s.peerLinks = some link ∧ link.state ≠ .idle) ∨
      ∃ s', s.findPeerLink interface peerAddress = (none, s') ∧ Inv s₀ n s' ∧
        lookup interface peerAddress s'.peerLinks = none ∧
          ∀ link, lookup interface peerAddress s.peerLinks = some link → link.state = .idle := by
  rw [PeerManager.findPeerLink]
  cases hfind : lookup interface peerAddress s.peerLinks with
  | none => exact .inr ⟨s, rfl, h, hfind, fun link hlink => by cases hlink⟩
  | some link =>
    by_cases hidle : link.state = .idle
    · refine .inr ⟨_, if_pos hidle, h.erase hfind hidle, lookup_erase h.unique, ?_⟩
      intro link' hlink'
      rwa [← Option.some.inj hlink']
    · exact .inl ⟨link, if_neg hidle, rfl, hidle⟩

theorem Inv.hasPlugin (h : Inv s₀ n s)
    (hfind : lookup interface peerAddress s.peerLinks = some link) :
    s.hasPlugin interface = true := by
  obtain ⟨e, hmem, rfl, -⟩ := exists_of_lookup hfind
  exact h.installed e hmem

theorem interface_mem_put {e : PeerEntry α}
    (hmem : e ∈ put interface peerAddress link links) :
    ∃ e' ∈ links, e'.interface = e.interface := by
  have hkey : e.key ∈ links.map PeerEntry.key := by
    have hkeys : (put interface peerAddress link links).map PeerEntry.key =
        links.map PeerEntry.key := keys_put link
    rw [← hkeys]
    exact List.mem_map_of_mem hmem
  obtain ⟨e', hmem', heq⟩ := List.mem_map.mp hkey
  exact ⟨e', hmem', congrArg Prod.fst heq⟩

/-- The move is counted. -/
theorem Inv.put (h : Inv s₀ n s) (hfind : lookup interface peerAddress s.peerLinks = some link)
    (hn : n + 1 < 65536) (link' : PeerLink α) :
    Inv s₀ (n + weight link' - weight link) { s with
      peerLinks := put interface peerAddress link' s.peerLinks
      linksTotal := (s.countMove link.state link'.state).linksTotal } := by
  have hput := established_put hfind link'
  have hcount := h.count
  have htotal := h.linksTotal
  refine ⟨h.limit, h.plugins, ?_, ?_, ?_, fun e hmem => ?_⟩
  · change (s.countMove link.state link'.state).linksTotal = _
    rw [countMove]
    dsimp only
    rw [weight, weight] at hput ⊢
    by_cases hold : link.state = .estab
    · by_cases hnew : link'.state = .estab
      · rw [if_neg fun hand => hand.2 hold, if_neg fun hand => hand.2 hnew, if_pos hold, if_pos hnew]
        omega
      · rw [if_pos hold, if_neg hnew] at hput
        rw [if_neg fun hand => hnew hand.1, if_pos ⟨hold, hnew⟩, if_pos hold, if_neg hnew]
        omega
    · by_cases hnew : link'.state = .estab
      · rw [if_pos ⟨hnew, hold⟩, if_neg hold, if_pos hnew]
        omega
      · rw [if_neg fun hand => hnew hand.1, if_neg fun hand => hold hand.1, if_neg hold,
          if_neg hnew]
        omega
  · change established (PeerManager.put interface peerAddress link' s.peerLinks) = _
    omega
  · rw [keys_put]
    exact h.unique
  · obtain ⟨e', hmem', heq⟩ := interface_mem_put hmem
    exact heq ▸ h.installed e' hmem'

theorem findPeerLink_idle (hfind : lookup interface peerAddress s.peerLinks = some link)
    (hidle : link.state = .idle) : s.findPeerLink interface peerAddress =
      (none, { s with peerLinks := erase interface peerAddress s.peerLinks }) := by
  rw [findPeerLink, hfind]
  exact if_pos hidle

theorem Inv.apply (h : Inv s₀ n s) (hfind : lookup interface peerAddress s.peerLinks = some link)
    (hn : n + 1 < 65536) {r : Reaction α} {completes : Prop}
    (hr : PeerLink.Reports completes link r) :
    ∃ s', s.apply interface peerAddress r = .done s' ∧
      Inv s₀ (n + weight r.link - weight link) s' := by
  have hput := h.put hfind hn r.link
  have hplugin : PeerManager.hasPlugin
      { s with peerLinks := PeerManager.put interface peerAddress r.link s.peerLinks } interface =
      true := h.hasPlugin hfind
  rw [PeerManager.apply]
  cases hstatus : r.status with
  | none =>
    have hsame : (s.countMove link.state r.link.state).linksTotal = s.linksTotal := by
      rw [hr.silent hstatus, countMove]
      dsimp only
      rw [if_neg fun hand => hand.2 hand.1, if_neg fun hand => hand.2 hand.1]
    rw [hsame] at hput
    exact ⟨_, rfl, hput⟩
  | some status =>
    obtain ⟨ostate, nstate⟩ := status
    obtain ⟨rfl, rfl⟩ := hr.moved ostate nstate hstatus
    dsimp only
    rw [peerLinkStatus, if_pos hplugin]
    by_cases hidle : r.link.state = .idle
    · have hlookup := lookup_put hfind r.link
      have herase := hput.erase hlookup hidle
      have hfound := findPeerLink_idle (s := PeerManager.countMove
        { s with peerLinks := PeerManager.put interface peerAddress r.link s.peerLinks }
        link.state r.link.state) hlookup hidle
      rw [if_pos hidle, hfound]
      exact ⟨_, rfl, herase⟩
    · rw [if_neg hidle]
      exact ⟨_, rfl, hput⟩

theorem Inv.withLink (h : Inv s₀ n s) (hn : n + 1 < 65536) {completes : PeerLink α → Prop}
    {f : PeerLink α → Option (Reaction α)} (hf : PeerLink.Honest completes f)
    (hcompletes : ∀ link, completes link → link.state ≠ .estab ∧
      ∃ r, f link = some r ∧ r.link.state = .estab) :
    Follows s₀ n (∃ link, lookup interface peerAddress s.peerLinks = some link ∧ completes link)
      (s.withLink interface peerAddress f) := by
  rw [PeerManager.withLink]
  cases hfind : lookup interface peerAddress s.peerLinks with
  | none =>
    refine (follows_done h).of_iff ⟨fun h => h.elim, fun hlink => ?_⟩
    obtain ⟨link, hlink, -⟩ := hlink
    cases hlink
  | some link =>
    dsimp only
    have hiff : completes link ↔ ∃ link', some link = some link' ∧ completes link' :=
      ⟨fun hc => ⟨link, rfl, hc⟩, fun hlink => by
        obtain ⟨link', hlink', hc⟩ := hlink
        cases hlink'
        exact hc⟩
    refine Follows.of_iff ?_ hiff
    cases hreaction : f link with
    | none =>
      refine follows_failed.of_iff ⟨fun h => h.elim, fun hc => ?_⟩
      obtain ⟨-, r, hr, -⟩ := hcompletes link hc
      rw [hreaction] at hr
      cases hr
    | some r =>
      have hreports := hf link r hreaction
      obtain ⟨s', hs', hinv⟩ := h.apply hfind hn hreports
      rw [Outcome.ofOption, Outcome.bind, hs']
      refine ⟨fun h => (by cases h), fun s'' hs'' => ?_, fun hc => ?_⟩
      · cases hs''
        refine ⟨_, hinv, ?_⟩
        by_cases hnew : r.link.state = .estab
        · rcases hreports.estab hnew with hold | hc
          · right
            rw [weight, weight, if_pos hnew, if_pos hold]
            omega
          · exact .inl hc
        · right
          rw [weight, if_neg hnew]
          omega
      · obtain ⟨hold, r', hr', hnew⟩ := hcompletes link hc
        rw [hreaction] at hr'
        cases hr'
        rw [weight, weight, if_pos hnew, if_neg hold] at hinv
        exact ⟨s', rfl, hinv⟩

/-- What no link can complete -/
theorem Inv.withLink_false (h : Inv s₀ n s) (hn : n + 1 < 65536)
    {f : PeerLink α → Option (Reaction α)} (hf : PeerLink.Honest (fun _ => False) f) :
    Follows s₀ n False (s.withLink interface peerAddress f) :=
  (h.withLink hn hf fun _ hc => hc.elim).of_iff ⟨fun hlink => hlink.elim fun _ hc => hc.2,
    fun h => h.elim⟩

theorem Inv.withFound (h : Inv s₀ n s) (hn : n + 1 < 65536) {completes : PeerLink α → Prop}
    {f : PeerLink α → Option (Reaction α)} (hf : PeerLink.Honest completes f)
    (hcompletes : ∀ link, completes link → link.state ≠ .idle ∧ link.state ≠ .estab ∧
      ∃ r, f link = some r ∧ r.link.state = .estab) :
    Follows s₀ n (∃ link, lookup interface peerAddress s.peerLinks = some link ∧ completes link)
      (s.withFound interface peerAddress f) := by
  rw [PeerManager.withFound]
  rcases h.findPeerLink interface peerAddress with ⟨link, hfound, -, -⟩ | ⟨s', hfound, hinv, -, hidle⟩
  · rw [hfound]
    exact h.withLink hn hf fun link hc => (hcompletes link hc).2
  · rw [hfound]
    refine (follows_done hinv).of_iff ⟨fun h => h.elim, fun hlink => ?_⟩
    obtain ⟨link, hlink, hc⟩ := hlink
    exact (hcompletes link hc).1 (hidle link hlink)

theorem Inv.withFound_false (h : Inv s₀ n s) (hn : n + 1 < 65536)
    {f : PeerLink α → Option (Reaction α)} (hf : PeerLink.Honest (fun _ => False) f) :
    Follows s₀ n False (s.withFound interface peerAddress f) :=
  (h.withFound hn hf fun _ hc => hc.elim).of_iff ⟨fun hlink => hlink.elim fun _ hc => hc.2,
    fun h => h.elim⟩

theorem lookup_append_new (h : lookup interface peerAddress links = none) (link : PeerLink α) :
    lookup interface peerAddress (links ++ [⟨interface, peerAddress, link⟩]) = some link := by
  induction links with
  | nil => exact if_pos ⟨rfl, rfl⟩
  | cons e rest ih =>
    rw [lookup] at h
    split at h
    · cases h
    next hkey =>
      rw [List.cons_append, lookup, if_neg hkey]
      exact ih h

/-- The new link is idle. -/
theorem Inv.initiateLink (h : Inv s₀ n s) (hfind : lookup interface peerAddress s.peerLinks = none)
    (peerMeshPointAddress : Option α) :
    s.initiateLink interface peerAddress peerMeshPointAddress = .failed ∨
      ∃ s', s.initiateLink interface peerAddress peerMeshPointAddress = .done s' ∧ Inv s₀ n s' ∧
        ∃ link, lookup interface peerAddress s'.peerLinks = some link ∧ link.state = .idle := by
  have hfound : s.findPeerLink interface peerAddress = (none, s) := by
    rw [PeerManager.findPeerLink, hfind]
  rw [PeerManager.initiateLink, hfound]
  dsimp only
  by_cases hplugin : s.hasPlugin interface = true
  · right
    rw [if_pos hplugin]
    refine ⟨_, rfl, ⟨h.limit, h.plugins, h.linksTotal, ?_, ?_, fun e hmem => ?_⟩, _,
      lookup_append_new hfind _, rfl⟩
    · rw [established, List.countP_append, ← established, h.count]
      rfl
    · change (List.map PeerEntry.key (_ ++ _)).Nodup
      rw [List.map_append, List.map_singleton, List.nodup_append]
      refine ⟨h.unique, List.nodup_singleton _, fun key hkey key' hkey' heq => ?_⟩
      rw [heq, List.mem_singleton.mp hkey'] at hkey
      exact lookup_eq_none_iff.mp hfind hkey
    · rcases List.mem_append.mp hmem with hmem | hmem
      · exact h.installed e hmem
      · rw [List.mem_singleton.mp hmem]
        exact hplugin
  · exact .inl (if_neg hplugin)

theorem Inv.setBeaconInformation (h : Inv s₀ n s) (hn : n + 1 < 65536)
    (hfind : lookup interface peerAddress s.peerLinks = some link) :
    Inv s₀ n { s with
      peerLinks := PeerManager.put interface peerAddress (setBeaconInformation link)
        s.peerLinks } := by
  have hput := h.put hfind hn (PeerManager.setBeaconInformation link)
  have hsame : (s.countMove link.state (PeerManager.setBeaconInformation link).state).linksTotal =
      s.linksTotal := by
    rw [countMove]
    exact (if_neg fun hand => hand.2 hand.1).trans (if_neg fun hand => hand.2 hand.1)
  rw [hsame] at hput
  change Inv s₀ (n + weight link - weight link) _ at hput
  rwa [Nat.add_sub_cancel] at hput

theorem Inv.receiveBeacon (h : Inv s₀ n s) (hn : n + 1 < 65536)
    (hanswers : s.Answers (.beacon interface peerAddress)) :
    Follows s₀ n False (s.receiveBeacon interface peerAddress) := by
  rw [PeerManager.receiveBeacon]
  by_cases hown : s.plugins.any (·.2 = peerAddress) = true
  · rw [if_pos hown]
    exact follows_done h
  · rw [if_neg hown]
    rcases h.findPeerLink interface peerAddress with
      ⟨link, hfound, hfind, -⟩ | ⟨s', hfound, hinv, hnone, -⟩
    · rw [hfound]
      exact follows_done (h.setBeaconInformation hn hfind)
    · have hsend : s'.shouldSendOpen = true := by
        rw [Answers, hfound] at hanswers
        have hsend := (hanswers.resolve_left hown).resolve_left (not_not_intro rfl)
        rw [shouldSendOpen, h.linksTotal, h.limit] at hsend
        rwa [shouldSendOpen, hinv.linksTotal, hinv.limit]
      rw [hfound]
      dsimp only
      rw [if_pos hsend]
      rcases hinv.initiateLink hnone none with hfailed | ⟨s'', hdone, hinv', -⟩
      · rw [hfailed]
        exact follows_failed
      · rw [hdone]
        refine hinv'.withLink_false hn fun link r hr => ?_
        obtain ⟨r', hr', rfl⟩ := Option.map_eq_some_iff.mp hr
        obtain ⟨hsilent, hmoved, hestab⟩ :=
          PeerLink.honest_stateMachine .actopn (by decide) (by decide) _ link r' hr'
        exact ⟨hsilent, hmoved, hestab⟩

/-- A beacon that is not answered uses the null pointer. -/
theorem Inv.receiveBeacon_null (h : Inv s₀ n s)
    (hanswers : ¬s.Answers (.beacon interface peerAddress)) :
    s.receiveBeacon interface peerAddress = .nullPointer := by
  obtain ⟨hown, hrest⟩ := not_or.mp hanswers
  obtain ⟨hnone, hsend⟩ := not_or.mp hrest
  rw [PeerManager.receiveBeacon, if_neg hown]
  rcases h.findPeerLink interface peerAddress with
    ⟨link, hfound, -, -⟩ | ⟨s', hfound, hinv, -, -⟩
  · rw [hfound] at hnone
    exact absurd (fun h => by cases h) hnone
  · rw [hfound]
    dsimp only
    refine if_neg fun hsend' => hsend ?_
    rw [shouldSendOpen, hinv.linksTotal, hinv.limit] at hsend'
    rwa [shouldSendOpen, h.linksTotal, h.limit]

theorem Inv.peerOpen (h : Inv s₀ n s) (hn : n + 1 < 65536) (peerMp : α) (localLinkId : ℕ) :
    Follows s₀ n (s.Completes (.frame interface peerAddress peerMp (.peerOpen localLinkId)))
      (s.receivePeerLinkFrame interface peerAddress peerMp (.peerOpen localLinkId)) := by
  rw [receivePeerLinkFrame]
  -- The admission is decided before a link is made.
  have hhonest (accept : Bool) : PeerLink.Honest
      (fun link => accept = true ∧ link.state = .cnfRcvd ∧ Knows link peerMp)
      fun link => if accept then link.openAccept localLinkId peerMp
        else link.openReject localLinkId peerMp .meshMaxPeers := by
    intro link r hr
    dsimp only at hr
    split at hr
    next haccept =>
      exact (PeerLink.honest_openAccept localLinkId peerMp link r hr).mono fun hc => ⟨haccept, hc⟩
    next => exact (PeerLink.honest_openReject localLinkId peerMp _ link r hr).mono fun hc => hc.elim
  have hcompletes (accept : Bool) (link : PeerLink α)
      (hc : accept = true ∧ link.state = .cnfRcvd ∧ Knows link peerMp) :
      link.state ≠ .estab ∧ ∃ r, (if accept then link.openAccept localLinkId peerMp
        else link.openReject localLinkId peerMp .meshMaxPeers) = some r ∧
          r.link.state = .estab := by
    obtain ⟨haccept, hstate, hknows⟩ := hc
    rw [if_pos haccept]
    exact ⟨by rw [hstate]; decide, PeerLink.exists_openAccept localLinkId hstate hknows⟩
  rcases h.findPeerLink interface peerAddress with
    ⟨link, hfound, -, -⟩ | ⟨s', hfound, hinv, hnone, hidle⟩
  · rw [hfound]
    refine (h.withLink hn (hhonest s.shouldAcceptOpen) (hcompletes s.shouldAcceptOpen)).of_iff ?_
    constructor
    · rintro ⟨link, hlink, haccept, hspec⟩
      exact ⟨haccept, link, hlink, hspec⟩
    · rintro ⟨haccept, link, hlink, hspec⟩
      exact ⟨link, hlink, haccept, hspec⟩
  · have hfalse : False ↔ s.Completes (.frame interface peerAddress peerMp
        (.peerOpen localLinkId)) := by
      refine ⟨fun h => h.elim, ?_⟩
      rintro ⟨-, link, hlink, hstate, -⟩
      rw [hidle link hlink] at hstate
      cases hstate
    rw [hfound]
    refine Follows.of_iff ?_ hfalse
    rcases hinv.initiateLink hnone (some peerMp) with hfailed | ⟨s'', hdone, hinv', link, hlink, hnew⟩
    · dsimp only [Option.isNone]
      rw [if_pos rfl, hfailed]
      exact follows_failed
    · dsimp only [Option.isNone]
      rw [if_pos rfl, hdone]
      refine (hinv'.withLink hn (hhonest s'.shouldAcceptOpen)
        (hcompletes s'.shouldAcceptOpen)).of_iff ⟨?_, fun h => h.elim⟩
      rintro ⟨link', hlink', -, hstate, -⟩
      rw [hlink] at hlink'
      cases hlink'
      rw [hnew] at hstate
      cases hstate

theorem Inv.peerConfirm (h : Inv s₀ n s) (hn : n + 1 < 65536) (peerMp : α)
    (aid localLinkId peerLinkId : ℕ) :
    Follows s₀ n
      (s.Completes (.frame interface peerAddress peerMp (.peerConfirm aid localLinkId peerLinkId)))
      (s.receivePeerLinkFrame interface peerAddress peerMp
        (.peerConfirm aid localLinkId peerLinkId)) := by
  refine h.withFound hn (PeerLink.honest_confirmAccept localLinkId peerLinkId aid peerMp) ?_
  rintro link ⟨hstate, hlocal, hpeer, hknows⟩
  exact ⟨by rw [hstate]; decide, by rw [hstate]; decide,
    PeerLink.exists_confirmAccept aid hstate hlocal hpeer hknows⟩

/-- One event, where a beacon is answered -/
theorem Inv.react (h : Inv s₀ n s) (hn : n + 1 < 65536) (input : PeerInput α)
    (hanswers : s.Answers input) : Follows s₀ n (s.Completes input) (s.react input) := by
  cases input with
  | beacon interface peerAddress => exact h.receiveBeacon hn hanswers
  | frame interface peerAddress peerMp frame =>
    cases frame with
    | peerOpen localLinkId => exact h.peerOpen hn peerMp localLinkId
    | peerConfirm aid localLinkId peerLinkId =>
      exact h.peerConfirm hn peerMp aid localLinkId peerLinkId
    | peerClose localLinkId peerLinkId reason =>
      exact h.withFound_false hn (PeerLink.honest_close localLinkId peerLinkId reason)
  | retryTimeout interface peerAddress => exact h.withLink_false hn PeerLink.honest_retryTimeout
  | confirmTimeout interface peerAddress => exact h.withLink_false hn PeerLink.honest_confirmTimeout
  | holdingTimeout interface peerAddress => exact h.withLink_false hn PeerLink.honest_holdingTimeout
  | beaconLoss interface peerAddress => exact h.withLink_false hn PeerLink.honest_beaconLoss
  | erasedTimeout interface peerAddress =>
    change Follows s₀ n False (s.erasedTimeout interface peerAddress)
    rw [erasedTimeout]
    rcases h.findPeerLink interface peerAddress with
      ⟨link, hfound, -, -⟩ | ⟨s', hfound, hinv, -, -⟩
    · rw [hfound]
      exact follows_failed
    · rw [hfound]
      exact follows_done hinv
  | transmissionFailure interface peerAddress =>
    exact h.withFound_false hn PeerLink.honest_transmissionFailure
  | transmissionSuccess interface peerAddress =>
    exact h.withFound_false hn (PeerLink.honest_stay _ fun _ => rfl)
  | configurationMismatch interface peerAddress =>
    exact h.withFound_false hn (PeerLink.honest_stateMachine .cncl (by decide) (by decide) _)
  | isActiveLink interface peerAddress =>
    change Follows s₀ n False (.done (s.findPeerLink interface peerAddress).2)
    rcases h.findPeerLink interface peerAddress with
      ⟨link, hfound, -, -⟩ | ⟨s', hfound, hinv, -, -⟩
    · rw [hfound]
      exact follows_done h
    · rw [hfound]
      exact follows_done hinv

/-! ## Runs -/

theorem Serves.sound {inputs : List (PeerInput α)} (h : s.Serves inputs) : Sound s := by
  cases inputs with
  | nil => exact h
  | cons => exact h.1

theorem Inv.serves_iff {inputs : List (PeerInput α)} (h : Inv s₀ n s)
    (hn : n ≤ s₀.maxNumberOfPeerLinks) (hmax : s₀.maxNumberOfPeerLinks < 256) :
    s.Serves inputs ↔ s.AlwaysMeets inputs := by
  induction inputs generalizing s n with
  | nil => exact iff_of_true (h.sound hn) trivial
  | cons input inputs ih =>
    have hword : n + 1 < 65536 := by omega
    constructor
    · rintro ⟨-, hsafe, hserves⟩
      have hanswers : s.Answers input := by
        by_contra hnot
        cases input with
        | beacon interface peerAddress => exact hsafe (h.receiveBeacon_null hnot)
        | _ => exact hnot trivial
      have hfollows := h.react hword input hanswers
      have hroom : s.Completes input → n < s₀.maxNumberOfPeerLinks := by
        intro hcompletes
        obtain ⟨s', hs', hinv⟩ := hfollows.completed hcompletes
        have hlimit := (hserves s' hs').sound.limit
        rw [hinv.count, hinv.limit] at hlimit
        omega
      refine ⟨⟨fun hc => by rw [h.count, h.limit]; exact hroom hc, hanswers⟩, fun s' hs' => ?_⟩
      obtain ⟨m, hinv, hm⟩ := hfollows.kept s' hs'
      have hlimit := (hserves s' hs').sound.limit
      rw [hinv.count, hinv.limit] at hlimit
      exact (ih hinv hlimit).mp (hserves s' hs')
    · rintro ⟨⟨hroom, hanswers⟩, hmeets⟩
      have hfollows := h.react hword input hanswers
      refine ⟨h.sound hn, hfollows.safe, fun s' hs' => ?_⟩
      by_cases hcompletes : s.Completes input
      · obtain ⟨s'', hs'', hinv⟩ := hfollows.completed hcompletes
        rw [hs'] at hs''
        cases hs''
        have hless := hroom hcompletes
        rw [h.count, h.limit] at hless
        exact (ih hinv hless).mpr (hmeets s' hs')
      · obtain ⟨m, hinv, hm⟩ := hfollows.kept s' hs'
        exact (ih hinv ((hm.resolve_left hcompletes).trans hn)).mpr (hmeets s' hs')

/-- The guarantee holds in every state of a run exactly where no frame completes a link while the
limit is reached, and no beacon of a new neighbour comes while more links than that are open. -/
theorem serves_iff_alwaysMeets {maxNumberOfPeerLinks : ℕ} (hmax : maxNumberOfPeerLinks < 256)
    (maxRetries maxPacketFail : ℕ) (plugins : List (ℕ × α)) (inputs : List (PeerInput α)) :
    (create maxNumberOfPeerLinks maxRetries maxPacketFail plugins).Serves inputs ↔
      (create maxNumberOfPeerLinks maxRetries maxPacketFail plugins).AlwaysMeets inputs :=
  (inv_create maxNumberOfPeerLinks maxRetries maxPacketFail plugins).serves_iff (Nat.zero_le _) hmax

end PeerManager

/-! ## Examples of runs -/

instance decidableDone {σ : Type} (P : σ → Prop) [∀ s, Decidable (P s)] :
    ∀ outcome : Outcome σ, Decidable (∀ s, outcome = .done s → P s)
  | .done s => decidable_of_iff (P s) ⟨fun h s' hs => (by cases hs; exact h), fun h => h s rfl⟩
  | .failed => isTrue fun s hs => (by cases hs)
  | .nullPointer => isTrue fun s hs => (by cases hs)

instance decidableFound {σ : Type} (P : σ → Prop) [∀ s, Decidable (P s)] :
    ∀ o : Option σ, Decidable (∃ s, o = some s ∧ P s)
  | none => isFalse fun h => (by obtain ⟨s, hs, -⟩ := h; cases hs)
  | some s => decidable_of_iff (P s) ⟨fun h => ⟨s, rfl, h⟩, fun h => by
      obtain ⟨s', hs, hP⟩ := h
      cases hs
      exact hP⟩

namespace PeerManager
variable {α : Type} [DecidableEq α]

instance (s : PeerManager α) (input : PeerInput α) : Decidable (s.Completes input) :=
  match input with
  | .frame interface peerAddress peerMp (.peerOpen _) =>
    inferInstanceAs (Decidable (s.shouldAcceptOpen = true ∧
      ∃ link, lookup interface peerAddress s.peerLinks = some link ∧ link.state = .cnfRcvd ∧
        Knows link peerMp))
  | .frame interface peerAddress peerMp (.peerConfirm _ localLinkId peerLinkId) =>
    inferInstanceAs (Decidable (∃ link, lookup interface peerAddress s.peerLinks = some link ∧
      link.state = .opnRcvd ∧ link.localLinkId = peerLinkId ∧
        (link.peerLinkId = 0 ∨ link.peerLinkId = localLinkId) ∧ Knows link peerMp))
  | .frame _ _ _ (.peerClose ..) | .beacon .. | .retryTimeout .. | .confirmTimeout ..
  | .holdingTimeout .. | .beaconLoss .. | .erasedTimeout .. | .transmissionFailure ..
  | .transmissionSuccess .. | .configurationMismatch .. | .isActiveLink .. =>
    inferInstanceAs (Decidable False)

instance (s : PeerManager α) (input : PeerInput α) : Decidable (s.Answers input) :=
  match input with
  | .beacon interface peerAddress =>
    inferInstanceAs (Decidable (s.plugins.any (·.2 = peerAddress) = true ∨
      (s.findPeerLink interface peerAddress).1 ≠ none ∨ s.shouldSendOpen = true))
  | .frame .. | .retryTimeout .. | .confirmTimeout .. | .holdingTimeout .. | .beaconLoss ..
  | .erasedTimeout .. | .transmissionFailure .. | .transmissionSuccess ..
  | .configurationMismatch .. | .isActiveLink .. => inferInstanceAs (Decidable True)

instance (s : PeerManager α) (input : PeerInput α) : Decidable (s.Meets input) :=
  decidable_of_iff ((s.Completes input → established s.peerLinks < s.maxNumberOfPeerLinks) ∧
    s.Answers input) ⟨fun h => ⟨h.1, h.2⟩, fun h => ⟨h.room, h.answers⟩⟩

instance decidableAlwaysMeets :
    ∀ (s : PeerManager α) (inputs : List (PeerInput α)), Decidable (s.AlwaysMeets inputs)
  | _, [] => isTrue trivial
  | s, input :: inputs =>
    have : ∀ s' : PeerManager α, Decidable (s'.AlwaysMeets inputs) := fun s' =>
      decidableAlwaysMeets s' inputs
    inferInstanceAs (Decidable (s.Meets input ∧
      ∀ s', s.react input = .done s' → s'.AlwaysMeets inputs))

/-- Beacons of two neighbours, whose links are completed afterwards -/
def twoNeighbours : List (PeerInput ℕ) :=
  [.beacon 0 7, .beacon 0 8, .frame 0 7 7 (.peerOpen 5), .frame 0 8 8 (.peerOpen 6),
    .frame 0 7 7 (.peerConfirm 1 5 1), .frame 0 8 8 (.peerConfirm 1 6 2), .beacon 0 9]

theorem serves_twoNeighbours : (create 2 4 2 [(0, 1)]).Serves twoNeighbours :=
  (serves_iff_alwaysMeets (by decide) 4 2 [(0, 1)] twoNeighbours).mpr (by decide)

/-- Both links were admitted before either was established. -/
theorem not_serves_twoNeighbours : ¬∀ (maxNumberOfPeerLinks : ℕ), maxNumberOfPeerLinks < 256 →
    ∀ (maxRetries maxPacketFail : ℕ) (plugins : List (ℕ × ℕ)) (inputs : List (PeerInput ℕ)),
      (create maxNumberOfPeerLinks maxRetries maxPacketFail plugins).Serves inputs := by
  intro hall
  have hserves := hall 1 (by decide) 4 2 [(0, 1)] twoNeighbours
  rw [(inv_create 1 4 2 [(0, 1)]).serves_iff (Nat.zero_le _) (by decide)] at hserves
  exact absurd hserves (by decide)

end PeerManager

end Ns3Noc.MeshPeering
