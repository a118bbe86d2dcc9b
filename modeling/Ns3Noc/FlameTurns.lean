import Ns3Noc.FlameEntries

/-!
# The steps of a mesh

A legal step always succeeds: time passes, copies come and go, a node sends its own packets, or it
accepts a frame. What all states of a run satisfy follows from these four kinds of turns.
-/
namespace Ns3Noc.Flame

open Wifi (Mac48Address)
open FlameProtocol FlameRtable

variable {mesh : Mesh} {net net' : Network} {m : Mac48Address} {origin : Sighting}
  {s : FlameProtocol} {events : List Event} {inFlight frames : List Frame}

/-- The network after the events of a node, with the copies that they put on the air -/
def Network.after (net : Network) (m : Mac48Address) (origin : Sighting) (s : FlameProtocol)
    (events : List Event) (inFlight frames : List Frame) : Network where
  now := net.now
  node := Function.update net.node m s
  inFlight := inFlight ++ frames
  sent := Function.update net.sent m (net.sent m + events.countP (·.isFrom m))
  log := net.log ++ entries m origin (net.sent m) events

/-- The frames are copies of what the events send. -/
def Network.Copies (net : Network) (device : Device) (m : Mac48Address) (origin : Sighting)
    (events : List Event) (frames : List Frame) : Prop :=
  ∀ f ∈ frames, ∃ entry ∈ entries m origin (net.sent m) events,
    ¬entry.Silent ∧ f.CopyOf device entry

/-- What a step may be -/
inductive Turn (mesh : Mesh) (net : Network) : Network → Prop
  | wait (now : ℕ) : Turn mesh net { net with now := now }
  | air (inFlight : List Frame) (hsub : inFlight ⊆ net.inFlight) :
    Turn mesh net { net with inFlight := inFlight }
  | quiet {m : Mac48Address} {origin : Sighting} {s : FlameProtocol} {events : List Event}
      {inFlight frames : List Frame} (hm : m ∈ mesh.nodes) (hsub : inFlight ⊆ net.inFlight)
      (horig : Originates (mesh.device m) m (net.node m).myLastSeqno events s.myLastSeqno)
      (htrim : Trimmed net.now (net.node m).routes s.routes)
      (hcopies : net.Copies (mesh.device m) m origin events frames) :
    Turn mesh net (net.after m origin s events inFlight frames)
  | accept {m : Mac48Address} {f : Frame} {hdr : FlameHeader} {route : Route} {s : FlameProtocol}
      {events : List Event} {inFlight frames : List Frame} (hm : m ∈ mesh.nodes)
      (hsub : inFlight ⊆ net.inFlight) (hf : f ∈ net.inFlight)
      (hheader : f.packet.header = some hdr) (hseqnum : route.seqnum = hdr.seqno)
      (hroute : route.retransmitter ≠ broadcast ∧ (mesh.device m).HasOut route.interface)
      (hacc : Accepted (mesh.device m) m net.now (net.node m) s f.source hdr route events)
      (hcopies : net.Copies (mesh.device m) m f.sighting events frames) :
    Turn mesh net (net.after m f.sighting s events inFlight frames)

/-- What holds in all states of a run -/
structure Sane (mesh : Mesh) (net : Network) : Prop where
  sound : ∀ n ∈ mesh.nodes, (mesh.device n).Sound (net.node n).routes
  myLastSeqno_eq : ∀ n, (net.node n).myLastSeqno = seqnoOf (net.sent n)
  frames : ∀ f ∈ net.inFlight, f.packet.tag = none ∧ f.protocol = flameProtocol ∧
    f.addr2 ≠ broadcast ∧ f.Numbered mesh net.sent
  own_frames : ∀ n, net.stored n n = [] ∧ net.passedUp n n = []
  hops_le : ∀ n ∈ mesh.nodes, ∀ src, ∀ x ∈ net.stored n src ++ net.passedUp n src,
    x.hops ≤ (mesh.device n).maxCost.toNat
  forwarded_hops_le : ∀ n ∈ mesh.nodes, ∀ src, ∀ x ∈ net.forwarded n src,
    x.hops ≤ (mesh.device n).maxCost.toNat + 1

theorem Sane.create (mesh : Mesh) : Sane mesh .create where
  sound _ _ _ _ hroute := nomatch hroute
  myLastSeqno_eq _ := rfl
  frames _ hf := absurd hf List.not_mem_nil
  own_frames _ := ⟨rfl, rfl⟩
  hops_le _ _ _ _ hx := absurd hx List.not_mem_nil
  forwarded_hops_le _ _ _ _ hx := absurd hx List.not_mem_nil

/-! ## Legal steps are turns -/

theorem react_ok {m : Mac48Address} {origin : Sighting} {s : FlameProtocol} {events : List Event}
    (hentries : ∀ entry ∈ entries m origin (net.sent m) events, entry.Silent ∨
      ∃ packet hdr src, entry.Sends (mesh.device m) packet hdr src) (inFlight : List Frame) :
    ∃ frames, mesh.react { net with inFlight := inFlight } m origin s events =
        .ok (net.after m origin s events inFlight frames) ∧
      net.Copies (mesh.device m) m origin events frames := by
  obtain ⟨frames, hframes, hcopies⟩ := Device.transmitAll_ok hentries
  refine ⟨frames, ?_, hcopies⟩
  rw [Mesh.react]
  simp only [bind, Except.bind, hframes]
  rfl

theorem Sane.turn_of_quiet (h : Sane mesh net) {m : Mac48Address} (hm : m ∈ mesh.nodes)
    (origin : Sighting) {s : FlameProtocol} {events : List Event} {inFlight : List Frame}
    (hsub : inFlight ⊆ net.inFlight)
    (horig : Originates (mesh.device m) m (net.node m).myLastSeqno events s.myLastSeqno)
    (htrim : Trimmed net.now (net.node m).routes s.routes) :
    ∃ net', mesh.react { net with inFlight := inFlight } m origin s events = .ok net' ∧
      Turn mesh net net' := by
  have hnumbered := (horig.numbered origin (net.sent m) (h.myLastSeqno_eq m)).2
  have hentries : ∀ entry ∈ entries m origin (net.sent m) events, entry.Silent ∨
      ∃ packet hdr src, entry.Sends (mesh.device m) packet hdr src := by
    intro entry hentry
    obtain ⟨packet, hdr, hsends, -⟩ := hnumbered entry hentry
    exact .inr ⟨packet, hdr, m, hsends⟩
  obtain ⟨frames, hreact, hcopies⟩ := react_ok (s := s) hentries inFlight
  exact ⟨_, hreact, .quiet hm hsub horig htrim hcopies⟩

theorem Sane.turn_of_deliver (h : Sane mesh net) {m : Mac48Address} (hm : m ∈ mesh.nodes)
    {f : Frame} (hf : f ∈ net.inFlight) {inFlight : List Frame} (hsub : inFlight ⊆ net.inFlight)
    {incomingPort : ℕ} (hport : incomingPort ∈ (mesh.device m).interfaces.map Prod.fst)
    (replies : List Sending) :
    ∃ net', mesh.deliver { net with inFlight := inFlight } f m incomingPort replies = .ok net' ∧
      Turn mesh net net' := by
  obtain ⟨htag, hprotocol, haddr2, hdr, hheader, -⟩ := h.frames f hf
  have hheader' : ({ f.packet with tag := some ⟨f.addr1, f.addr2⟩ } : Packet).header = some hdr :=
    hheader
  have htransmitter : (⟨f.addr1, f.addr2⟩ : FlameTag).transmitter ≠ broadcast := haddr2
  obtain ⟨s, events, hreceive, hcases⟩ := receiveFromDevice_cases (h.sound m hm) m net.now f.source
    f.destination htransmitter hport hheader' rfl replies
  have hdeliver : mesh.deliver { net with inFlight := inFlight } f m incomingPort replies =
      mesh.react { net with inFlight := inFlight } m f.sighting s events := by
    have hpacket : f.receive = .ok { f.packet with tag := some ⟨f.addr1, f.addr2⟩ } := by
      rw [Frame.receive, htag]
      rfl
    rw [Mesh.deliver]
    simp only [bind, Except.bind, hpacket, hprotocol, hreceive]
  rw [hdeliver]
  cases hcases with
  | inl hrejected =>
    have horig : Originates (mesh.device m) m (net.node m).myLastSeqno events s.myLastSeqno := by
      rw [hrejected.events_eq, hrejected.myLastSeqno_eq]
      exact .nil _
    exact h.turn_of_quiet hm f.sighting hsub horig hrejected.trimmed
  | inr hacc =>
    have hnumbered := (hacc.numbered f.sighting (net.sent m) (h.myLastSeqno_eq m)).2
    have hentries : ∀ entry ∈ entries m f.sighting (net.sent m) events, entry.Silent ∨
        ∃ packet hdr src, entry.Sends (mesh.device m) packet hdr src := by
      intro entry hentry
      obtain hsilent | ⟨packet, hdr, hsends, -⟩ | ⟨packet, hsends, -⟩ := hnumbered entry hentry
      · exact .inl hsilent
      · exact .inr ⟨packet, hdr, m, hsends⟩
      · exact .inr ⟨packet, _, f.source, hsends⟩
    obtain ⟨frames, hreact, hcopies⟩ := react_ok (s := s) hentries inFlight
    exact ⟨_, hreact, .accept hm hsub hf hheader rfl ⟨haddr2, .inr hport⟩ hacc hcopies⟩

/-- No fatal error is met and no assertion fails. -/
theorem Sane.turn (h : Sane mesh net) {l : Label} (hlegal : mesh.Legal net l) :
    ∃ net', mesh.step net l = some net' ∧ Turn mesh net net' := by
  cases l with
  | advance delay => exact ⟨_, rfl, .wait _⟩
  | send n sending =>
    obtain ⟨s, events, hsend, horig, htrim⟩ := send_ok (h.sound n hlegal) n net.now sending
    obtain ⟨net', hreact, hturn⟩ := h.turn_of_quiet hlegal ⟨0, 0⟩
      (List.Subset.refl net.inFlight) horig htrim
    refine ⟨net', ?_, hturn⟩
    rw [Mesh.step]
    simp only [bind, Except.bind, hsend]
    rw [hreact]
    rfl
  | deliver i n incomingPort replies =>
    obtain ⟨hi, hn, hport⟩ := hlegal
    obtain ⟨net', hdeliver, hturn⟩ := h.turn_of_deliver hn (List.getElem_mem hi)
      (List.eraseIdx_subset ..) hport replies
    refine ⟨net', ?_, hturn⟩
    rw [Mesh.step, List.getElem?_eq_getElem hi, Option.bind_some, hdeliver]
    rfl
  | duplicate i =>
    refine ⟨_, by rw [Mesh.step, List.getElem?_eq_getElem hlegal]; rfl, .air _ ?_⟩
    exact List.append_subset.mpr
      ⟨List.Subset.refl _, fun _ hf => List.mem_singleton.mp hf ▸ List.getElem_mem hlegal⟩
  | lose i => exact ⟨_, rfl, .air _ (List.eraseIdx_subset ..)⟩

/-! ## Frames keep their numbers -/

theorem Frame.Numbered.mono {sent sent' : Mac48Address → ℕ} {f : Frame}
    (h : f.Numbered mesh sent) (hsent : ∀ n, sent n ≤ sent' n) : f.Numbered mesh sent' := by
  obtain ⟨hdr, hheader, hseqno, hcost, hindex, hhops⟩ := h
  exact ⟨hdr, hheader, hseqno, hcost, hindex.trans_le (hsent f.source), hhops⟩

theorem FlameHeader.toNat_cost_addCost_one {hdr : FlameHeader} (h : hdr.cost < 255) :
    (hdr.addCost 1).cost.toNat = hdr.cost.toNat + 1 := by
  have hlt : hdr.cost.toNat < 255 := UInt8.lt_iff_toNat_lt.mp h
  have hsum : ¬(1 : UInt8).toUInt16 + hdr.cost.toUInt16 > 255 := by
    rw [gt_iff_lt, UInt16.lt_iff_toNat_lt, UInt16.toNat_add, UInt8.toNat_toUInt16,
      UInt8.toNat_toUInt16]
    simp
    omega
  rw [FlameHeader.addCost, if_neg hsum, UInt8.toNat_add]
  simp
  omega

namespace Entry

variable {device : Device} {m source : Mac48Address} {entry : Entry} {f : Frame}

theorem Own.copy {k l : ℕ} (h : entry.Own device m k l) (hcopy : f.CopyOf device entry) :
    f.source = m ∧ k ≤ f.sighting.index := by
  obtain ⟨packet, hdr, hsends, -, -, -, hle, -⟩ := h
  exact ⟨(hcopy.header_eq packet hdr m hsends).2, hcopy.sighting_eq ▸ hle⟩

/-- The copies that the node itself sends -/
theorem Own.numbered {k l : ℕ} (h : entry.Own device m k l) (hcopy : f.CopyOf device entry)
    (mesh : Mesh) {sent : Mac48Address → ℕ} (hl : l ≤ sent m) : f.Numbered mesh sent := by
  obtain ⟨packet, hdr, hsends, hseqno, hcost, hhops, hle, hlt⟩ := h
  obtain ⟨hheader, hsource⟩ := hcopy.header_eq packet hdr m hsends
  refine ⟨hdr, hheader, ?_⟩
  rw [hcopy.sighting_eq, hsource, hcost, hhops]
  exact ⟨hseqno, rfl, hlt.trans_le hl, .inl rfl⟩

theorem Forwards.copy {hdr : FlameHeader} {origin : Sighting}
    (h : entry.Forwards device source hdr origin) (hcopy : f.CopyOf device entry) :
    f.source = source ∧ f.sighting.index = origin.index := by
  obtain ⟨packet, hsends, hsighting⟩ := h
  refine ⟨(hcopy.header_eq packet _ _ hsends).2, ?_⟩
  rw [hcopy.sighting_eq, hsighting]

/-- The copies of a frame that is sent on -/
theorem Forwards.numbered (hm : m ∈ mesh.nodes) {f₀ : Frame} {hdr : FlameHeader}
    {sent : Mac48Address → ℕ} (h : entry.Forwards (mesh.device m) f₀.source hdr f₀.sighting)
    (hcopy : f.CopyOf (mesh.device m) entry) (hheader₀ : f₀.packet.header = some hdr)
    (hf₀ : f₀.Numbered mesh sent) (hcost : hdr.cost ≤ (mesh.device m).maxCost)
    (hmax : (mesh.device m).maxCost < 255) : f.Numbered mesh sent := by
  obtain ⟨packet, hsends, hsighting⟩ := h
  obtain ⟨hheader, hsource⟩ := hcopy.header_eq packet _ _ hsends
  obtain ⟨hdr', hheader', hseqno, hmin, hindex, -⟩ := hf₀
  obtain rfl := Option.some.inj (hheader₀.symm.trans hheader')
  have hlt : hdr.cost < 255 := UInt8.lt_of_le_of_lt hcost hmax
  have hle : hdr.cost.toNat ≤ (mesh.device m).maxCost.toNat := UInt8.le_iff_toNat_le.mp hcost
  have hnat : hdr.cost.toNat < 255 := UInt8.lt_iff_toNat_lt.mp hlt
  rw [Frame.Numbered, hcopy.sighting_eq, hsighting, hsource]
  refine ⟨_, hheader, hseqno, ?_, hindex, .inr ⟨m, hm, ?_⟩⟩
  · rw [FlameHeader.toNat_cost_addCost_one hlt]
    dsimp only
    omega
  · dsimp only
    omega

end Entry

/-! ## What always holds -/

theorem Network.after_stored (n src : Mac48Address) :
    (net.after m origin s events inFlight frames).stored n src =
      net.stored n src ++ (entries m origin (net.sent m) events).filterMap (Entry.stored n src) :=
  List.filterMap_append

theorem Network.after_passedUp (n src : Mac48Address) :
    (net.after m origin s events inFlight frames).passedUp n src =
      net.passedUp n src ++
        (entries m origin (net.sent m) events).filterMap (Entry.passedUp n src) :=
  List.filterMap_append

theorem Network.after_forwarded (n src : Mac48Address) :
    (net.after m origin s events inFlight frames).forwarded n src =
      net.forwarded n src ++
        (entries m origin (net.sent m) events).filterMap (Entry.forwarded n src) :=
  List.filterMap_append

theorem Network.after_node_self :
    (net.after m origin s events inFlight frames).node m = s :=
  Function.update_self ..

theorem Network.after_node_of_ne {n : Mac48Address} (hn : n ≠ m) :
    (net.after m origin s events inFlight frames).node n = net.node n :=
  Function.update_of_ne hn ..

theorem Network.after_sent_self :
    (net.after m origin s events inFlight frames).sent m =
      net.sent m + events.countP (·.isFrom m) :=
  Function.update_self ..

theorem Network.after_sent_of_ne {n : Mac48Address} (hn : n ≠ m) :
    (net.after m origin s events inFlight frames).sent n = net.sent n :=
  Function.update_of_ne hn ..

theorem Network.sent_le_after (n : Mac48Address) :
    net.sent n ≤ (net.after m origin s events inFlight frames).sent n := by
  by_cases hn : n = m
  · subst hn
    rw [Network.after_sent_self]
    exact Nat.le_add_right ..
  · rw [Network.after_sent_of_ne hn]

/-- What a node adds to the log is sane. -/
structure SaneLog (mesh : Mesh) (log : List Entry) : Prop where
  own_frames : ∀ n, log.filterMap (Entry.stored n n) = [] ∧ log.filterMap (Entry.passedUp n n) = []
  hops_le : ∀ n ∈ mesh.nodes, ∀ src,
    ∀ x ∈ log.filterMap (Entry.stored n src) ++ log.filterMap (Entry.passedUp n src),
      x.hops ≤ (mesh.device n).maxCost.toNat
  forwarded_hops_le : ∀ n ∈ mesh.nodes, ∀ src, ∀ x ∈ log.filterMap (Entry.forwarded n src),
    x.hops ≤ (mesh.device n).maxCost.toNat + 1

theorem Sane.after (h : Sane mesh net) (hsub : inFlight ⊆ net.inFlight)
    (hsound : (mesh.device m).Sound s.routes)
    (hseqno : s.myLastSeqno = seqnoOf (net.sent m + events.countP (·.isFrom m)))
    (hframes : ∀ f ∈ frames, f.packet.tag = none ∧ f.protocol = flameProtocol ∧
      f.addr2 ≠ broadcast ∧
      f.Numbered mesh (net.after m origin s events inFlight frames).sent)
    (hlog : SaneLog mesh (entries m origin (net.sent m) events)) :
    Sane mesh (net.after m origin s events inFlight frames) where
  sound n hn := by
    by_cases hnm : n = m
    · subst hnm
      rw [Network.after_node_self]
      exact hsound
    · rw [Network.after_node_of_ne hnm]
      exact h.sound n hn
  myLastSeqno_eq n := by
    by_cases hnm : n = m
    · subst hnm
      rw [Network.after_sent_self, Network.after_node_self]
      exact hseqno
    · rw [Network.after_node_of_ne hnm, Network.after_sent_of_ne hnm]
      exact h.myLastSeqno_eq n
  frames f hf := by
    cases List.mem_append.mp hf with
    | inl hf =>
      obtain ⟨htag, hprotocol, haddr2, hnumbered⟩ := h.frames f (hsub hf)
      exact ⟨htag, hprotocol, haddr2, hnumbered.mono Network.sent_le_after⟩
    | inr hf => exact hframes f hf
  own_frames n := by
    rw [Network.after_stored, Network.after_passedUp, (h.own_frames n).1, (h.own_frames n).2]
    exact hlog.own_frames n
  hops_le n hn src x hx := by
    rw [Network.after_stored, Network.after_passedUp] at hx
    have hold := h.hops_le n hn src x
    have hnew := hlog.hops_le n hn src x
    simp only [List.mem_append] at hx hold hnew
    tauto
  forwarded_hops_le n hn src x hx := by
    rw [Network.after_forwarded] at hx
    cases List.mem_append.mp hx with
    | inl hx => exact h.forwarded_hops_le n hn src x hx
    | inr hx => exact hlog.forwarded_hops_le n hn src x hx

/-- A frame that is accepted has not been forwarded too often. -/
theorem hops_le_of_cost_le {f : Frame} {hdr : FlameHeader} {sent : Mac48Address → ℕ}
    {maxCost : UInt8} (hf : f.Numbered mesh sent) (hheader : f.packet.header = some hdr)
    (hcost : hdr.cost ≤ maxCost) (hmax : maxCost < 255) : f.sighting.hops ≤ maxCost.toNat := by
  obtain ⟨hdr', hheader', -, hmin, -⟩ := hf
  obtain rfl := Option.some.inj (hheader.symm.trans hheader')
  have hle := UInt8.le_iff_toNat_le.mp hcost
  have hlt : maxCost.toNat < 255 := UInt8.lt_iff_toNat_lt.mp hmax
  omega

theorem FlameProtocol.Accepted.saneLog {f : Frame} {hdr : FlameHeader} {route : Route} {now k : ℕ}
    {s₀ : FlameProtocol}
    (hacc : Accepted (mesh.device m) m now s₀ s f.source hdr route events)
    (hhops : f.sighting.hops ≤ (mesh.device m).maxCost.toNat) :
    SaneLog mesh (entries m f.sighting k events) := by
  have hpair : ∀ n src x y, x ∈ ofPair m n f.source src y → x = y ∧ m = n ∧ f.source = src := by
    intro n src x y hx
    rw [ofPair] at hx
    split at hx
    · exact ⟨List.mem_singleton.mp hx, ‹_›⟩
    · exact absurd hx List.not_mem_nil
  have hnone : ∀ n y, ofPair m n f.source n y = [] := by
    intro n y
    refine if_neg ?_
    rintro ⟨rfl, heq⟩
    exact hacc.source_ne heq
  constructor
  · intro n
    obtain ⟨hstored, hpassed, -⟩ := hacc.filterMap_eq n n f.sighting k
    rw [hnone] at hstored hpassed
    exact ⟨hstored, List.sublist_nil.mp hpassed⟩
  · intro n hn src x hx
    obtain ⟨hstored, hpassed, -⟩ := hacc.filterMap_eq n src f.sighting k
    have hmem : x ∈ ofPair m n f.source src f.sighting := by
      cases List.mem_append.mp hx with
      | inl hx => exact hstored ▸ hx
      | inr hx => exact hpassed.subset hx
    obtain ⟨rfl, rfl, -⟩ := hpair _ _ _ _ hmem
    exact hhops
  · intro n hn src x hx
    obtain ⟨-, -, hforwarded⟩ := hacc.filterMap_eq n src f.sighting k
    obtain ⟨rfl, rfl, -⟩ := hpair _ _ _ _ (hforwarded.subset hx)
    exact Nat.succ_le_succ hhops

theorem Sane.of_turn (h : Sane mesh net) (hmax : ∀ n ∈ mesh.nodes, (mesh.device n).maxCost < 255)
    (hturn : Turn mesh net net') : Sane mesh net' := by
  cases hturn with
  | wait now =>
    exact ⟨h.sound, h.myLastSeqno_eq, h.frames, h.own_frames, h.hops_le, h.forwarded_hops_le⟩
  | air inFlight hsub =>
    exact ⟨h.sound, h.myLastSeqno_eq, fun f hf => h.frames f (hsub hf), h.own_frames, h.hops_le,
      h.forwarded_hops_le⟩
  | @quiet m origin s events inFlight frames hm hsub horig htrim hcopies =>
    obtain ⟨hseqno, hentries⟩ := horig.numbered origin (net.sent m) (h.myLastSeqno_eq m)
    refine h.after hsub (htrim.sound (h.sound m hm)) hseqno (fun f hf => ?_) ?_
    · obtain ⟨entry, hentry, -, hcopy⟩ := hcopies f hf
      refine ⟨hcopy.tag_eq, hcopy.protocol_eq, hcopy.addr2_ne, ?_⟩
      exact (hentries entry hentry).numbered hcopy mesh (by rw [Network.after_sent_self])
    · have hnil := fun n src => horig.filterMap_eq n src origin (net.sent m)
      constructor
      · exact fun n => ⟨(hnil n n).1, (hnil n n).2.1⟩
      · intro n _ src x hx
        rw [(hnil n src).1, (hnil n src).2.1] at hx
        exact absurd hx List.not_mem_nil
      · intro n _ src x hx
        rw [(hnil n src).2.2] at hx
        exact absurd hx List.not_mem_nil
  | @accept m f₀ hdr route s events inFlight frames hm hsub hf hheader hseqnum hroute hacc hcopies =>
    obtain ⟨hseqno, hentries⟩ := hacc.numbered f₀.sighting (net.sent m) (h.myLastSeqno_eq m)
    obtain ⟨-, -, -, hf₀⟩ := h.frames f₀ hf
    have hhops := hops_le_of_cost_le hf₀ hheader hacc.cost_le (hmax m hm)
    refine h.after hsub (hacc.learned.sound hroute (h.sound m hm)) hseqno (fun f hf => ?_)
      (hacc.saneLog hhops)
    obtain ⟨entry, hentry, hloud, hcopy⟩ := hcopies f hf
    refine ⟨hcopy.tag_eq, hcopy.protocol_eq, hcopy.addr2_ne, ?_⟩
    obtain hsilent | hown | hforwards := hentries entry hentry
    · exact absurd hsilent hloud
    · exact hown.numbered hcopy mesh (by rw [Network.after_sent_self])
    · exact hforwards.numbered hm hcopy hheader (hf₀.mono Network.sent_le_after) hacc.cost_le
        (hmax m hm)

end Ns3Noc.Flame
