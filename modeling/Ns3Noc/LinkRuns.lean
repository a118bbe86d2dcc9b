import Ns3Noc.LinkSensing
import Ns3Noc.LinkSets
import Ns3Noc.PartialRuns

/-!
# Links and neighbours

In every run the link set and the neighbour set hold tuples of the same addresses, each once, until
a link tuple expires that is not the last one of its set: then the neighbour tuple of the next link
is erased.
-/
namespace Ns3Noc.Olsr
open PartialRuns

namespace LinkState
variable {state state' : LinkState} {msg : HelloMessage} {receiverIface senderIface : Ipv4Address}

/-- What is known of the sets between events. -/
structure Matched (state : LinkState) : Prop where
  noMid : state.ifaceAssocSet = []
  links : state.linkSet.addrs.Nodup
  neighbors : state.neighborSet.addrs.Nodup
  same : ∀ a, a ∈ state.linkSet.addrs ↔ a ∈ state.neighborSet.addrs

/-- The sets have the same addresses as those of `state`, with `a` added to the neighbours. -/
structure NotesNeighbor (state state' : LinkState) (a : Ipv4Address) : Prop where
  ifaceAssocSet : state'.ifaceAssocSet = state.ifaceAssocSet
  linkSet : state'.linkSet = state.linkSet
  neighbors : state'.neighborSet.addrs = addKey state.neighborSet.addrs a

theorem linkTupleAdded_notes (h : state.ifaceAssocSet = []) (tuple : LinkTuple)
    (willingness : UInt8) :
    NotesNeighbor state (state.linkTupleAdded tuple willingness) tuple.neighborIfaceAddr := by
  refine ⟨rfl, rfl, ?_⟩
  rw [linkTupleAdded, h]
  exact NeighborSet.addrs_insertNeighborTuple _ _

theorem linkTupleUpdated_notes (state : LinkState) (h : state.ifaceAssocSet = []) (tuple : LinkTuple)
    (willingness : UInt8) :
    NotesNeighbor state (state.linkTupleUpdated tuple willingness) tuple.neighborIfaceAddr := by
  have hadded := linkTupleAdded_notes h tuple willingness
  have hkeeps (st : NeighborStatus) (nb : NeighborTuple) :
      ({ nb with status := st } : NeighborTuple).neighborMainAddr = nb.neighborMainAddr := rfl
  rw [linkTupleUpdated, h, getMainAddress_nil]
  split
  · refine ⟨hadded.ifaceAssocSet, hadded.linkSet, ?_⟩
    exact (NeighborSet.addrs_modifyNeighborTuple (hkeeps _) _).trans hadded.neighbors
  · rename_i hfound
    refine ⟨rfl, rfl, ?_⟩
    rw [NeighborSet.findNeighborTuple_eq_none, not_not] at hfound
    rw [addKey_of_mem hfound]
    exact NeighborSet.addrs_modifyNeighborTuple (hkeeps _) _

theorem NotesNeighbor.twice {state'' : LinkState} {a : Ipv4Address}
    (h : NotesNeighbor state state' a) (h' : NotesNeighbor state' state'' a) :
    NotesNeighbor state state'' a :=
  ⟨h'.ifaceAssocSet.trans h.ifaceAssocSet, h'.linkSet.trans h.linkSet,
    by rw [h'.neighbors, h.neighbors, addKey_addKey]⟩

theorem senseLinkMessages_keeps {now vTime : Time} {linkMessages : List LinkMessage}
    {link link' : LinkTuple × Bool}
    (h : linkMessages.foldlM (senseLinkMessage now vTime receiverIface) link = some link') :
    link'.1.neighborIfaceAddr = link.1.neighborIfaceAddr ∧ (link.2 = true → link'.2 = true) := by
  induction linkMessages generalizing link with
  | nil =>
    cases h
    exact ⟨rfl, id⟩
  | cons linkMessage linkMessages ih =>
    rw [List.foldlM_cons, Option.bind_eq_bind] at h
    obtain ⟨next, hnext, h⟩ := Option.bind_eq_some_iff.mp h
    obtain ⟨haddr, hupdated⟩ := ih h
    rw [senseLinkMessage] at hnext
    dsimp only at hnext
    split at hnext
    · cases hnext
      exact ⟨haddr, hupdated⟩
    · split at hnext
      · split at hnext
        · cases hnext
          exact ⟨haddr, fun _ => hupdated rfl⟩
        · split at hnext
          · cases hnext
            exact ⟨haddr, fun _ => hupdated rfl⟩
          · cases hnext
      · cases hnext
        exact ⟨haddr, hupdated⟩

/-- A new link tuple is noted, updated before or not. -/
theorem linkTupleAdded_notes_updated (state : LinkState) (h : state.ifaceAssocSet = []) (tuple : LinkTuple)
    (willingness : UInt8) (updated : Bool) :
    NotesNeighbor state
      ((if updated = true then state.linkTupleUpdated tuple willingness else state).linkTupleAdded
        tuple willingness) tuple.neighborIfaceAddr := by
  split
  · have hfirst := linkTupleUpdated_notes state h tuple willingness
    exact hfirst.twice (linkTupleAdded_notes (hfirst.ifaceAssocSet.trans h) tuple willingness)
  · exact linkTupleAdded_notes h tuple willingness

/-- A HELLO message adds the address of its sender to both sets. -/
theorem linkSensing_addrs (h : state.ifaceAssocSet = [])
    (hs : state.linkSensing msg receiverIface senderIface = some state') :
    state'.ifaceAssocSet = [] ∧ state'.linkSet.addrs = addKey state.linkSet.addrs senderIface ∧
      state'.neighborSet.addrs = addKey state.neighborSet.addrs senderIface := by
  cases hfound : state.linkSet.findLinkTuple senderIface with
  | none =>
    have hnew := LinkSet.findLinkTuple_eq_none.mp hfound
    simp only [linkSensing, hfound, Option.getD_none, Option.bind_eq_bind, ↓reduceIte] at hs
    obtain ⟨-, -, hs⟩ := Option.bind_eq_some_iff.mp hs
    obtain ⟨⟨tuple, updated⟩, hfold, hs⟩ := Option.bind_eq_some_iff.mp hs
    obtain ⟨haddr, -⟩ := senseLinkMessages_keeps hfold
    replace haddr : tuple.neighborIfaceAddr = senderIface := haddr
    obtain ⟨hiface, hlinks, hneighbors⟩ := linkTupleAdded_notes_updated
      { state with
        linkSet := LinkSet.modifyLinkTuple
          (fun _ => { tuple with time := max tuple.time tuple.asymTime }) senderIface
          (state.linkSet ++ [⟨receiverIface, senderIface, state.now - seconds 1, 0,
            state.now + msg.vTime⟩]) } h { tuple with time := max tuple.time tuple.asymTime }
        msg.willingness updated
    cases hs
    refine ⟨hiface.trans h, ?_, ?_⟩
    · refine (congrArg LinkSet.addrs hlinks).trans ?_
      refine (LinkSet.addrs_modifyLinkTuple (f := fun _ => { tuple with
        time := max tuple.time tuple.asymTime }) (fun _ _ => haddr) _).trans ?_
      rw [addKey, if_neg hnew, LinkSet.addrs, LinkSet.addrs, List.map_append]
      rfl
    · refine hneighbors.trans ?_
      rw [← haddr]
  | some found =>
    have hold : senderIface ∈ state.linkSet.addrs := by
      by_contra hnone
      rw [LinkSet.findLinkTuple_eq_none.mpr hnone] at hfound
      cases hfound
    obtain ⟨before, after, heq, hsender, -⟩ := LinkSet.split_of_find hfound
    simp only [linkSensing, hfound, Option.getD_some, Option.bind_eq_bind, reduceCtorEq,
      ↓reduceIte] at hs
    obtain ⟨-, -, hs⟩ := Option.bind_eq_some_iff.mp hs
    obtain ⟨⟨tuple, updated⟩, hfold, hs⟩ := Option.bind_eq_some_iff.mp hs
    obtain ⟨haddr, hupdated⟩ := senseLinkMessages_keeps hfold
    replace haddr : tuple.neighborIfaceAddr = senderIface := haddr.trans hsender
    replace hupdated : updated = true := hupdated (by simp)
    subst hupdated
    obtain ⟨hiface, hlinks, hneighbors⟩ := linkTupleUpdated_notes
      { state with
        linkSet := LinkSet.modifyLinkTuple
          (fun _ => { tuple with time := max tuple.time tuple.asymTime }) senderIface
          state.linkSet } h { tuple with time := max tuple.time tuple.asymTime } msg.willingness
    cases hs
    refine ⟨hiface.trans h, ?_, ?_⟩
    · refine (congrArg LinkSet.addrs hlinks).trans ?_
      refine (LinkSet.addrs_modifyLinkTuple (f := fun _ => { tuple with
        time := max tuple.time tuple.asymTime }) (fun _ _ => haddr) _).trans ?_
      rw [addKey_of_mem hold]
    · refine hneighbors.trans ?_
      rw [← haddr]

theorem Matched.processHello (h : state.Matched)
    (hs : state.processHello msg receiverIface senderIface = some state') : state'.Matched := by
  rw [LinkState.processHello, Option.bind_eq_bind] at hs
  obtain ⟨sensed, hsensed, hs⟩ := Option.bind_eq_some_iff.mp hs
  obtain ⟨hiface, hlinks, hneighbors⟩ := linkSensing_addrs h.noMid hsensed
  cases hs
  have haddrs : (sensed.populateNeighborSet msg).neighborSet.addrs =
      addKey state.neighborSet.addrs senderIface :=
    (NeighborSet.addrs_modifyNeighborTuple (f := fun nb_tuple => { nb_tuple with
      willingness := msg.willingness }) (fun _ => rfl) _).trans hneighbors
  refine ⟨hiface, ?_, ?_, fun a => ?_⟩
  · exact hlinks ▸ nodup_addKey h.links
  · exact haddrs ▸ nodup_addKey h.neighbors
  · rw [haddrs, mem_addKey]
    show a ∈ sensed.linkSet.addrs ↔ _
    rw [hlinks, mem_addKey, h.same a]

/-- What is left of the state does not matter to the sets. -/
theorem Matched.of_sets (h : state.Matched) (hiface : state'.ifaceAssocSet = state.ifaceAssocSet)
    (hlinks : state'.linkSet.addrs = state.linkSet.addrs)
    (hneighbors : state'.neighborSet.addrs = state.neighborSet.addrs) : state'.Matched :=
  ⟨hiface.trans h.noMid, hlinks ▸ h.links, hneighbors ▸ h.neighbors,
    fun a => by rw [hlinks, hneighbors, h.same a]⟩

/-- The removal of a link tuple, with the tuples before and after it. -/
theorem Matched.removeLinkTuple_eq (h : state.Matched) {before after : LinkSet} {tuple : LinkTuple}
    (heq : state.linkSet = before ++ tuple :: after) :
    state.removeLinkTuple
        (state.linkSet.findIdx (fun it => it.neighborIfaceAddr = tuple.neighborIfaceAddr)) tuple =
      { state with
        linkSet := before ++ after
        neighborSet := state.neighborSet.eraseNeighborTuple
          (after.head?.getD tuple).neighborIfaceAddr } := by
  have hbefore : tuple.neighborIfaceAddr ∉ LinkSet.addrs before := by
    have hnodup := h.links
    rw [heq, LinkSet.addrs, List.map_append, List.map_cons, List.nodup_middle,
      List.nodup_cons] at hnodup
    exact fun hmem => hnodup.1 (List.mem_append_left _ hmem)
  have hthere : (before ++ after)[before.length]? = after.head? := by
    rw [List.getElem?_append_right le_rfl, Nat.sub_self, List.head?_eq_getElem?]
  rw [removeLinkTuple, heq, LinkSet.erase_split hbefore, LinkSet.findIdx_split hbefore rfl, h.noMid]
  simp only [getMainAddress_nil, hthere]

/-- A link tuple that expires at the end of its set takes its neighbour with it. -/
theorem Matched.removeLast (h : state.Matched) {before : LinkSet} {tuple : LinkTuple}
    (heq : state.linkSet = before ++ [tuple]) :
    Matched { state with
      linkSet := before
      neighborSet := state.neighborSet.eraseNeighborTuple tuple.neighborIfaceAddr } where
  noMid := h.noMid
  links := by
    have hnodup := h.links
    rw [heq, LinkSet.addrs, List.map_append, List.nodup_append] at hnodup
    exact hnodup.1
  neighbors := NeighborSet.nodup_erase h.neighbors
  same a := by
    have hnodup := h.links
    rw [heq, LinkSet.addrs, List.map_append, List.map_singleton, List.nodup_append] at hnodup
    rw [NeighborSet.mem_addrs_erase h.neighbors, ← h.same a, heq, LinkSet.addrs, LinkSet.addrs,
      List.map_append, List.map_singleton, List.mem_append, List.mem_singleton]
    constructor
    · exact fun ha => ⟨Or.inl ha, hnodup.2.2 a ha _ (List.mem_singleton_self _)⟩
    · exact fun h => h.1.resolve_right h.2

/-- Every link tuple has exactly one neighbour tuple, and every neighbour tuple has a link tuple. -/
def Consistent (state : LinkState) : Prop :=
  (∀ link ∈ state.linkSet, (state.neighborSet.filter (fun nb => nb.neighborMainAddr =
    getMainAddress state.ifaceAssocSet link.neighborIfaceAddr)).length = 1) ∧
  ∀ nb ∈ state.neighborSet, ∃ link ∈ state.linkSet,
    getMainAddress state.ifaceAssocSet link.neighborIfaceAddr = nb.neighborMainAddr

/-- A link tuple that expires takes itself and its neighbour tuple away, and nothing else. -/
def RemovesExactly (before after : LinkState) : LinkEvent → Prop
  | .linkTupleTimerExpire k => ∀ ev ∈ before.events[k]?,
    ∀ tuple ∈ before.linkSet.findLinkTuple ev.2, tuple.time < ev.1 →
      after.linkSet = before.linkSet.filter (fun link => link.neighborIfaceAddr ≠ ev.2) ∧
      after.neighborSet = before.neighborSet.filter (fun nb => nb.neighborMainAddr ≠
        getMainAddress before.ifaceAssocSet ev.2)
  | _ => True

instance (state : LinkState) : Decidable state.Consistent := by
  unfold Consistent
  infer_instance

instance (before after : LinkState) (e : LinkEvent) : Decidable (before.RemovesExactly after e) := by
  cases e <;> unfold RemovesExactly <;> infer_instance

theorem Matched.consistent (h : state.Matched) : state.Consistent := by
  refine ⟨fun link hlink => ?_, fun nb hnb => ?_⟩
  · rw [h.noMid, getMainAddress_nil]
    exact NeighborSet.length_filter_addr h.neighbors
      ((h.same _).mp (List.mem_map_of_mem hlink))
  · have hmem : nb.neighborMainAddr ∈ state.linkSet.addrs := (h.same _).mpr (List.mem_map_of_mem hnb)
    obtain ⟨link, hlink, heq⟩ := List.mem_map.mp hmem
    exact ⟨link, hlink, by rw [h.noMid, getMainAddress_nil, heq]⟩

/-- The link tuple that expires with event `k`, if one does, is the last one of its set. -/
def ExpiresLast (state : LinkState) : LinkEvent → Prop
  | .linkTupleTimerExpire k => ∀ ev ∈ state.events[k]?, state.Due ev.1 →
    ∀ tuple ∈ state.linkSet.findLinkTuple ev.2, tuple.time < ev.1 →
      state.linkSet.getLast? = some tuple
  | _ => True

instance (state : LinkState) (e : LinkEvent) : Decidable (state.ExpiresLast e) := by
  cases e <;> unfold ExpiresLast <;> infer_instance

/-- An expiry that removes nothing keeps the addresses. -/
theorem Matched.linkTupleTimerExpire (h : state.Matched) {a : Ipv4Address}
    (htime : ∀ tuple ∈ state.linkSet.findLinkTuple a, ¬tuple.time < state.now) :
    (state.linkTupleTimerExpire a).Matched := by
  rw [LinkState.linkTupleTimerExpire]
  split
  · exact h
  · rename_i tuple hfound
    rw [if_neg (htime tuple hfound)]
    split
    · dsimp only
      split
      · exact h.of_sets rfl rfl rfl
      · obtain ⟨before, after, heq, haddr, -⟩ := LinkSet.split_of_find hfound
        obtain ⟨hiface, hlinks, hneighbors⟩ :=
          linkTupleUpdated_notes _ h.noMid tuple OLSR_WILL_DEFAULT
        refine h.of_sets hiface (congrArg LinkSet.addrs hlinks) (hneighbors.trans ?_)
        refine addKey_of_mem ((h.same _).mp ?_)
        rw [heq, LinkSet.addrs]
        exact List.mem_map_of_mem (List.mem_append_right _ List.mem_cons_self)
    · exact h.of_sets rfl rfl rfl

end LinkState

/-- A run: the state, and the last event with the state before it. -/
structure LinkRun where
  state : LinkState
  last : Option (LinkState × LinkEvent)

namespace LinkRun
variable {r r' : LinkRun} {e : LinkEvent}

def start : LinkRun := ⟨LinkState.initial, none⟩

def step (r : LinkRun) (e : LinkEvent) : Option LinkRun :=
  (r.state.step e).map (fun state => ⟨state, some (r.state, e)⟩)

/-- The sets are consistent, and the last event removed no more and no less than it should. -/
def Good (r : LinkRun) : Prop :=
  r.state.Consistent ∧ ∀ last ∈ r.last, last.1.RemovesExactly r.state last.2

instance (r : LinkRun) : Decidable r.Good := by
  unfold Good
  infer_instance

/-- The expiry of an expired link tuple, with the tuples before and after it. -/
theorem step_expire (h : r.state.Matched) {k : ℕ} {ev : Time × Ipv4Address} {tuple : LinkTuple}
    (hev : r.state.events[k]? = some ev) (hdue : r.state.Due ev.1)
    {before after : LinkSet} (heq : r.state.linkSet = before ++ tuple :: after)
    (hfound : r.state.linkSet.findLinkTuple ev.2 = some tuple) (htime : tuple.time < ev.1) :
    ∃ state, r.step (.linkTupleTimerExpire k) =
        some ⟨state, some (r.state, .linkTupleTimerExpire k)⟩ ∧
      state.ifaceAssocSet = [] ∧ state.linkSet = before ++ after ∧
      state.neighborSet = r.state.neighborSet.eraseNeighborTuple
        (after.head?.getD tuple).neighborIfaceAddr := by
  obtain ⟨-, -, -, haddr, -⟩ := LinkSet.split_of_find hfound
  have hmatched : LinkState.Matched { r.state with
      now := ev.1, events := r.state.events.eraseIdx k } := h.of_sets rfl rfl rfl
  have hremove := hmatched.removeLinkTuple_eq heq
  rw [haddr] at hremove
  refine ⟨{ r.state with
    now := ev.1
    events := r.state.events.eraseIdx k
    linkSet := before ++ after
    neighborSet := r.state.neighborSet.eraseNeighborTuple
      (after.head?.getD tuple).neighborIfaceAddr }, ?_, h.noMid, rfl, rfl⟩
  rw [step, LinkState.step, hev, Option.bind_eq_bind, Option.bind_some, if_pos hdue, Option.map_some,
    LinkState.linkTupleTimerExpire]
  dsimp only
  rw [hfound]
  dsimp only
  rw [if_pos htime, hremove]

/-- What holds between events of a good run. -/
structure Holds (r : LinkRun) : Prop where
  matched : r.state.Matched
  removes : ∀ last ∈ r.last, last.1.RemovesExactly r.state last.2

theorem Holds.step (h : r.Holds) (hlast : r.state.ExpiresLast e) (hr : r.step e = some r') :
    r'.Holds := by
  obtain ⟨state, hstate, rfl⟩ := Option.map_eq_some_iff.mp hr
  cases e with
  | hello time msg receiverIface senderIface =>
    rw [LinkState.step] at hstate
    split at hstate
    · have hmatched : LinkState.Matched { r.state with now := time } :=
        h.matched.of_sets rfl rfl rfl
      exact ⟨hmatched.processHello hstate, fun last hl => by cases hl; exact True.intro⟩
    · cases hstate
  | linkTupleTimerExpire k =>
    rw [LinkState.step, Option.bind_eq_bind] at hstate
    obtain ⟨ev, hev, hexpire⟩ := Option.bind_eq_some_iff.mp hstate
    split at hexpire
    · rename_i hdue
      by_cases htime : ∀ tuple ∈ r.state.linkSet.findLinkTuple ev.2, ¬tuple.time < ev.1
      · have hmatched : LinkState.Matched { r.state with
            now := ev.1, events := r.state.events.eraseIdx k } := h.matched.of_sets rfl rfl rfl
        cases hexpire
        refine ⟨hmatched.linkTupleTimerExpire htime, fun last hl => ?_⟩
        cases hl
        intro ev' hev' tuple htuple hlt
        rw [hev] at hev'
        cases hev'
        exact absurd hlt (htime tuple htuple)
      · rw [not_forall] at htime
        obtain ⟨tuple, htime⟩ := htime
        rw [Classical.not_imp, not_not] at htime
        obtain ⟨hfound, hlt⟩ := htime
        obtain ⟨before, heq⟩ := List.getLast?_eq_some_iff.mp (hlast ev hev hdue tuple hfound hlt)
        obtain ⟨state', hstep, hiface, hlinks, hneighbors⟩ :=
          step_expire h.matched hev hdue heq hfound hlt
        obtain rfl : state = state' := by
          have hsame := Option.some.inj (hr.symm.trans hstep)
          exact (LinkRun.mk.inj hsame).1
        obtain ⟨-, -, -, haddr, -⟩ := LinkSet.split_of_find hfound
        refine ⟨(h.matched.removeLast heq).of_sets (hiface.trans h.matched.noMid.symm)
          (by rw [hlinks, List.append_nil]) (by rw [hneighbors]; rfl), fun last hl => ?_⟩
        cases hl
        intro ev' hev' tuple' htuple' _
        obtain rfl := Option.some.inj (hev.symm.trans hev')
        constructor
        · have hnodup := h.matched.links
          rw [heq] at hnodup
          rw [hlinks, heq, ← haddr, LinkSet.filter_split hnodup]
        · rw [hneighbors, NeighborSet.eraseNeighborTuple_eq h.matched.neighbors, h.matched.noMid,
            getMainAddress_nil, ← haddr]
          rfl
    · cases hexpire

/-- A link tuple that expires before the end of its set leaves the next one without neighbour. -/
theorem Holds.step_broken (h : r.Holds) (hlast : ¬r.state.ExpiresLast e) :
    ∃ r', r.step e = some r' ∧ ¬r'.Good := by
  cases e with
  | hello time msg receiverIface senderIface => exact absurd True.intro hlast
  | linkTupleTimerExpire k =>
    rw [LinkState.ExpiresLast] at hlast
    push Not at hlast
    obtain ⟨ev, hev, hdue, tuple, hfound, htime, hne⟩ := hlast
    obtain ⟨before, after, heq, -, -⟩ := LinkSet.split_of_find hfound
    obtain ⟨state, hstep, hiface, hlinks, hneighbors⟩ :=
      step_expire h.matched hev hdue heq hfound htime
    refine ⟨_, hstep, fun hgood => ?_⟩
    cases after with
    | nil => exact hne (by rw [heq, List.getLast?_concat])
    | cons next rest =>
      have hone := hgood.1.1 next (hlinks ▸ List.mem_append_right _ List.mem_cons_self)
      have hnone : state.neighborSet.filter
          (fun nb => nb.neighborMainAddr = next.neighborIfaceAddr) = [] := by
        rw [hneighbors, NeighborSet.eraseNeighborTuple_eq h.matched.neighbors, List.filter_eq_nil_iff]
        intro nb hnb heq
        exact of_decide_eq_true (List.mem_filter.mp hnb).2 (of_decide_eq_true heq)
      rw [hiface, getMainAddress_nil, hnone] at hone
      exact absurd hone Nat.zero_ne_one

theorem start_holds : start.Holds :=
  ⟨⟨rfl, List.nodup_nil, List.nodup_nil, fun _ => Iff.rfl⟩, fun _ hlast => by cases hlast⟩

/-- The runs in which the sets are always consistent are exactly those in which every link tuple
that expires is the last one of its set. -/
theorem good_iff_expiresLast (events : List LinkEvent) :
    Always step Good start events ↔
      Allowed step (fun r e => r.state.ExpiresLast e) start events :=
  always_iff_allowed (fun _ h => ⟨h.matched.consistent, h.removes⟩)
    (fun _ _ _ h hlast hr => h.step hlast hr) (fun _ _ h hlast => h.step_broken hlast)
    start_holds events

/-- The link tuple of the first of two neighbours expires: the neighbour tuple of the second one is
erased. -/
theorem next_neighbor_erased : ¬∀ events : List LinkEvent, Always step Good start events := by
  intro h
  have hlost : ¬Always step Good start
      [.hello 0 ⟨seconds 6, 1, OLSR_WILL_DEFAULT, []⟩ 10 1, .linkTupleTimerExpire 0,
        .hello (seconds 1) ⟨seconds 6, 2, OLSR_WILL_DEFAULT, []⟩ 10 2, .linkTupleTimerExpire 1,
        .linkTupleTimerExpire 0] := by
    decide +kernel
  exact hlost (h _)

end LinkRun

end Ns3Noc.Olsr
