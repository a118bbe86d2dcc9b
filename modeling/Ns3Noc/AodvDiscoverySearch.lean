import Ns3Noc.AodvDiscovery

/-!
# The search for one destination

A destination rests, or it is searched for: then the routing table counts the requests, and either
the timer runs or one request is put off. Only the events of the destination itself change this.
-/
namespace Ns3Noc.Aodv.Discovery
open KeyedTables

/-- An entry that can only be invalidated and erased, and that stays during a search. -/
structure Fades (e e' : Option RoutingTableEntry) : Prop where
  inSearch : ∀ rt : RoutingTableEntry, rt.flag = .inSearch → (e' = some rt ↔ e = some rt)
  none : e = none → e' = none

namespace Fades
variable {e e' e'' : Option RoutingTableEntry} {now : Time}

theorem refl (e : Option RoutingTableEntry) : Fades e e := ⟨fun _ _ => Iff.rfl, id⟩

theorem trans (h : Fades e e') (h' : Fades e' e'') : Fades e e'' :=
  ⟨fun rt hrt => (h'.inSearch rt hrt).trans (h.inSearch rt hrt), fun he => h'.none (h.none he)⟩

theorem purge_inSearch {rt : RoutingTableEntry} (h : rt.flag = .inSearch) :
    rt.purge now = some rt := by
  simp [RoutingTableEntry.purge, h]

theorem purge (e : Option RoutingTableEntry) (now : Time) :
    Fades e (e.bind fun rt => rt.purge now) := by
  refine ⟨fun rt hrt => ⟨fun h => ?_, fun h => ?_⟩, fun h => by rw [h]; rfl⟩
  · obtain ⟨rt', he, hpurge⟩ := Option.bind_eq_some_iff.mp h
    rw [RoutingTableEntry.purge] at hpurge
    split at hpurge
    · split at hpurge
      · cases hpurge
      · obtain rfl := Option.some.inj hpurge
        rw [RoutingTableEntry.invalidate] at hrt
        split at hrt
        · next hinvalid =>
          rw [hinvalid] at hrt
          cases hrt
        · cases hrt
      · rw [he, hpurge]
    · rw [he, hpurge]
  · rw [h]
    exact purge_inSearch hrt

theorem find_purge (t : RoutingTable) (now : Time) (d : Ipv4Address) :
    Fades (find t.rows d) (find (t.purge now).rows d) := by
  rw [RoutingTable.find_purge]
  exact purge _ now

end Fades

/-- The requests for a destination since its search was last given up. -/
def requests (d : Ipv4Address) : List Action → ℕ
  | [] => 0
  | .requested dst :: history => if dst = d then requests d history + 1 else requests d history
  | .gaveUp dst :: history => if dst = d then 0 else requests d history

namespace RoutingProtocol

variable {c : Attributes} {node node' node'' : RoutingProtocol} {d dst : Ipv4Address}

/-- The entry of a destination -/
def entry (node : RoutingProtocol) (d : Ipv4Address) : Option RoutingTableEntry :=
  find node.routingTable.rows d

/-- How many requests for a destination are put off. -/
def waits (node : RoutingProtocol) (d : Ipv4Address) : ℕ := (node.postponed.map Prod.snd).count d

/-- Nothing happens to the search for a destination. -/
structure Frame (d : Ipv4Address) (node node' : RoutingProtocol) : Prop where
  entry : Fades (node.entry d) (node'.entry d)
  timer : find node'.addressReqTimer d = find node.addressReqTimer d
  waits : node'.waits d = node.waits d
  requests : requests d node'.history = requests d node.history

theorem Frame.trans (h : Frame d node node') (h' : Frame d node' node'') : Frame d node node'' :=
  ⟨h.entry.trans h'.entry, h'.timer.trans h.timer, h'.waits.trans h.waits,
    h'.requests.trans h.requests⟩

theorem frame_refl (d : Ipv4Address) (node : RoutingProtocol) : Frame d node node :=
  ⟨.refl _, rfl, rfl, rfl⟩

theorem frame_purge (d : Ipv4Address) (node : RoutingProtocol) (now : Time) :
    Frame d node { node with routingTable := node.routingTable.purge now } :=
  ⟨.find_purge _ _ _, rfl, rfl, rfl⟩

/-- The entry that a request adds is there for the count. -/
theorem exists_find_addRoute (t : RoutingTable) (now : Time) (dst : Ipv4Address)
    (rt : RoutingTableEntry) (h : rt.flag = .inSearch) :
    ∃ e, find ((t.addRoute now dst rt).purge now).rows dst = some e ∧
      (find (t.purge now).rows dst = none → e = rt) ∧
      ∀ e', find (t.purge now).rows dst = some e' → e = e' := by
  rw [RoutingTable.find_purge]
  cases hfind : find (t.purge now).rows dst with
  | none =>
    refine ⟨rt, ?_, fun _ => rfl, fun e' he' => by cases he'⟩
    rw [RoutingTable.find_addRoute_of_none hfind h]
    exact Fades.purge_inSearch h
  | some e =>
    refine ⟨e, ?_, (fun hnone => by cases hnone), fun e' he' => Option.some.inj he'⟩
    rw [RoutingTable.find_addRoute_of_some hfind]
    exact RoutingTable.purged_purge t now (dst, e) (mem_of_find hfind)

/-- A request that is not put off. -/
structure Sends (c : Attributes) (dst : Ipv4Address) (node node' : RoutingProtocol) : Prop where
  others : ∀ d, d ≠ dst → Frame d node node'
  timer : ∃ due, find node'.addressReqTimer dst = some due
  waits : node'.waits dst = node.waits dst
  history : node'.history = .requested dst :: node.history
  counted : ∀ rt, rt.flag = .inSearch →
    (node.entry dst).getD { RoutingTableEntry.create node.now with flag := .inSearch } = rt →
    node'.entry dst = some { rt with reqCount := rt.reqCount + 1 }

theorem sends_sendRequest (hlimit : node.rreqCount ≠ c.rreqRateLimit) (dst : Ipv4Address) :
    Sends c dst node (node.sendRequest c dst) := by
  obtain ⟨e, he, hnone, hsome⟩ := exists_find_addRoute (node.routingTable.purge node.now)
    node.now dst { (find (node.routingTable.purge node.now).rows dst).getD (.create node.now) with
      flag := .inSearch } rfl
  have hsend : node.sendRequest c dst = { node with
      rreqCount := node.rreqCount + 1
      routingTable := ((((node.routingTable.purge node.now).addRoute node.now dst
        { (find (node.routingTable.purge node.now).rows dst).getD (.create node.now) with
          flag := .inSearch }).purge node.now).update dst { e with reqCount := e.reqCount + 1 })
      addressReqTimer := (dst, node.now + (e.reqCount + 1).toNat * c.netTraversalTime) ::
        remove node.addressReqTimer dst
      seqNo := node.seqNo + 1
      requestId := node.requestId + 1
      sent := node.sent ++ node.socketAddresses.map fun iface => (iface.destination,
        { node.rreqHeader c dst (find (node.routingTable.purge node.now).rows dst) with
          origin := iface.localAddress })
      history := .requested dst :: node.history } := by
    rw [sendRequest, if_neg hlimit]
    simp only [RoutingTable.lookupRoute, scheduleRreqRetry, he, Option.isSome_some, if_true,
      Option.getD_some]
  have htwice : (node.routingTable.purge node.now).purge node.now =
      node.routingTable.purge node.now :=
    RoutingTable.purge_eq_self (RoutingTable.purged_purge _ _)
  rw [htwice] at hnone hsome
  rw [hsend]
  refine ⟨fun d hd => ⟨?_, find_cons_of_ne hd |>.trans (find_remove_of_ne hd), rfl, ?_⟩,
    ⟨_, find_cons_self _ _ _⟩, rfl, rfl, fun rt hflag hrt => ?_⟩
  · rw [entry, entry, RoutingTable.find_update_of_ne hd]
    refine Fades.trans ?_ (.find_purge _ _ _)
    rw [RoutingTable.find_addRoute_of_ne hd, htwice]
    exact .find_purge _ _ _
  · rw [requests, if_neg (Ne.symm hd)]
  · have hers : e = rt := by
      cases hentry : node.entry dst with
      | none =>
        have hpurged := (Fades.find_purge node.routingTable node.now dst).none hentry
        rw [hentry] at hrt
        rw [hnone hpurged, hpurged]
        exact hrt
      | some rt' =>
        rw [hentry] at hrt
        have hrt : rt' = rt := hrt
        rw [hrt] at hentry
        exact hsome rt (((Fades.find_purge node.routingTable node.now dst).inSearch rt hflag).mpr
          hentry)
    rw [entry]
    rw [← hers] at hflag ⊢
    exact RoutingTable.find_update_self he hflag

theorem frame_sendRequest (h : d ≠ dst) : Frame d node (node.sendRequest c dst) := by
  by_cases hlimit : node.rreqCount = c.rreqRateLimit
  · rw [sendRequest, if_pos hlimit]
    refine ⟨.refl _, rfl, ?_, rfl⟩
    simp [waits, h.symm]
  · exact (sends_sendRequest hlimit dst).others d h

theorem frame_giveUp (h : d ≠ dst) : Frame d node (node.giveUp dst) := by
  refine ⟨?_, find_remove_of_ne h, rfl, ?_⟩
  · rw [entry, entry, giveUp, RoutingTable.find_deleteRoute_of_ne h]
    exact .find_purge _ _ _
  · rw [giveUp, requests, if_neg (Ne.symm h)]

theorem frame_sendPackets (d dst : Ipv4Address) (node : RoutingProtocol) (route : Ipv4Route) :
    Frame d node (node.sendPackets dst route) := by
  rw [sendPackets]
  split
  · exact ⟨.refl _, rfl, rfl, rfl⟩
  · exact frame_refl d node

theorem frame_routeRequestTimerExpire (h : d ≠ dst) :
    Frame d node (node.routeRequestTimerExpire c dst) := by
  have hpurge := frame_purge d node node.now
  rw [routeRequestTimerExpire]
  dsimp only [RoutingTable.lookupRoute]
  split
  · exact hpurge.trans (frame_sendPackets _ _ _ _)
  · split
    · exact hpurge.trans (frame_giveUp h)
    · split
      · exact hpurge.trans (frame_sendRequest h)
      · exact hpurge.trans (frame_giveUp h)

theorem frame_deferredRouteOutput {entry : QueueEntry} (h : d ≠ entry.header.destination) :
    Frame d node (node.deferredRouteOutput c entry) := by
  have hqueue : Frame d node { node with queue := (node.queue.enqueue node.now entry).1 } :=
    ⟨.refl _, rfl, rfl, rfl⟩
  rw [deferredRouteOutput]
  dsimp only [RoutingTable.lookupRoute]
  split
  · have hpurge := hqueue.trans (frame_purge d _ node.now)
    split
    · exact hpurge.trans (frame_sendRequest h)
    · exact hpurge
  · exact hqueue

theorem frame_learnRoute (h : d ≠ dst) (rt : Option RoutingTableEntry) (answer : Bool) :
    Frame d node (node.learnRoute c dst rt answer) := by
  have hremove : find (remove node.routingTable.rows dst) d = find node.routingTable.rows d :=
    find_remove_of_ne h
  cases rt with
  | none =>
    refine ⟨?_, rfl, rfl, rfl⟩
    rw [entry, entry, learnRoute, hremove]
    exact .refl _
  | some rt =>
    have hlearn : ∀ nodup, Frame d node { node with
        routingTable := ⟨(dst, rt) :: remove node.routingTable.rows dst, nodup⟩ } := by
      intro nodup
      refine ⟨?_, rfl, rfl, rfl⟩
      rw [entry, entry, find_cons_of_ne h, hremove]
      exact .refl _
    rw [learnRoute]
    split
    · refine Frame.trans ?_ (frame_sendPackets _ _ _ _)
      exact (hlearn _).trans ⟨.refl _, find_remove_of_ne h, rfl, rfl⟩
    · exact hlearn _

theorem count_erase {postponed : List (Time × Ipv4Address)} {request : Time × Ipv4Address}
    (h : request ∈ postponed) (d : Ipv4Address) :
    (postponed.map Prod.snd).count d = ((postponed.erase request).map Prod.snd).count d +
      if request.2 = d then 1 else 0 := by
  rw [((List.perm_cons_erase h).map Prod.snd).count_eq d, List.map_cons, List.count_cons]
  simp

/-- What a step does before its event is handled. -/
theorem step_eq_some {label : Time × Event} (h : node.step c label = some node') :
    node.now ≤ label.1 ∧ (∀ timer ∈ node.addressReqTimer, label.1 ≤ timer.2) ∧
      { node with now := label.1 }.handle c label.2 = some node' := by
  obtain ⟨⟨hnow, -, htimers, -⟩, h⟩ := Option.ite_none_right_eq_some.mp h
  exact ⟨hnow, htimers, h⟩

theorem frame_step {label : Time × Event} (h : node.step c label = some node')
    (hd : label.2.destination ≠ some d) : Frame d node node' := by
  obtain ⟨time, event⟩ := label
  obtain ⟨-, -, hhandle⟩ := step_eq_some h
  have hnow : Frame d node { node with now := time } := ⟨.refl _, rfl, rfl, rfl⟩
  cases event with
  | deferredRouteOutput entry =>
    obtain rfl := Option.some.inj hhandle
    exact hnow.trans (frame_deferredRouteOutput fun heq => hd (congrArg some heq.symm))
  | rreqRateLimitTimerExpire =>
    obtain ⟨-, hhandle⟩ := Option.ite_none_right_eq_some.mp hhandle
    obtain rfl := Option.some.inj hhandle
    exact ⟨.refl _, rfl, rfl, rfl⟩
  | routeRequestTimerExpire dst =>
    have hdst : d ≠ dst := fun heq => hd (congrArg some heq.symm)
    obtain ⟨-, hhandle⟩ := Option.ite_none_right_eq_some.mp hhandle
    obtain rfl := Option.some.inj hhandle
    have hremove : Frame d node { node with
        now := time
        addressReqTimer := remove node.addressReqTimer dst } :=
      ⟨.refl _, find_remove_of_ne hdst, rfl, rfl⟩
    exact hremove.trans (frame_routeRequestTimerExpire hdst)
  | sendRequest dst =>
    have hdst : d ≠ dst := fun heq => hd (congrArg some heq.symm)
    obtain ⟨hmem, hhandle⟩ := Option.ite_none_right_eq_some.mp hhandle
    obtain rfl := Option.some.inj hhandle
    have hcount := count_erase hmem d
    rw [if_neg (Ne.symm hdst)] at hcount
    have herase : Frame d node { node with
        now := time
        postponed := node.postponed.erase (time, dst) } :=
      ⟨.refl _, rfl, hcount.symm, rfl⟩
    exact herase.trans (frame_sendRequest hdst)
  | learnRoute dst rt answer =>
    obtain rfl := Option.some.inj hhandle
    exact hnow.trans (frame_learnRoute (fun heq => hd (congrArg some heq.symm)) rt answer)

/-! ## Phases of a search -/

/-- There is no search. A first request may be put off. -/
structure Resting (d : Ipv4Address) (node : RoutingProtocol) : Prop where
  entry : ∀ rt, node.entry d = some rt → rt.flag ≠ .inSearch
  timer : find node.addressReqTimer d = none
  waits : node.waits d = 0 ∨ node.entry d = none ∧ node.waits d = 1
  requests : requests d node.history = 0

/-- The routing table counts the requests of the search. -/
structure Searching (d : Ipv4Address) (n : ℕ) (node : RoutingProtocol) : Prop where
  entry : ∃ rt, node.entry d = some rt ∧ rt.flag = .inSearch ∧ rt.reqCount.toNat = n
  requests : requests d node.history = n

/-- The search waits for an answer. -/
structure Timed (d : Ipv4Address) (n : ℕ) (due : Time) (node : RoutingProtocol) : Prop
    extends Searching d n node where
  timer : find node.addressReqTimer d = some due
  waits : node.waits d = 0

/-- The next request of the search is put off. -/
structure PutOff (d : Ipv4Address) (n : ℕ) (node : RoutingProtocol) : Prop
    extends Searching d n node where
  timer : find node.addressReqTimer d = none
  waits : node.waits d = 1

/-- The search has ended without an answer. -/
structure GaveUp (d : Ipv4Address) (node : RoutingProtocol) : Prop where
  history : node.history.head? = some (.gaveUp d)
  entry : node.entry d = none
  timer : find node.addressReqTimer d = none
  queue : ∀ e ∈ node.queue.queue, e.header.destination ≠ d

theorem Resting.frame (h : Resting d node) (hframe : Frame d node node') : Resting d node' where
  entry rt hrt hflag := h.entry rt ((hframe.entry.inSearch rt hflag).mp hrt) hflag
  timer := hframe.timer.trans h.timer
  waits := by
    rw [hframe.waits]
    exact h.waits.imp_right (And.imp_left hframe.entry.none)
  requests := hframe.requests.trans h.requests

theorem Searching.frame {n : ℕ} (h : Searching d n node) (hframe : Frame d node node') :
    Searching d n node' := by
  obtain ⟨rt, hrt, hflag, hcount⟩ := h.entry
  exact ⟨⟨rt, (hframe.entry.inSearch rt hflag).mpr hrt, hflag, hcount⟩,
    hframe.requests.trans h.requests⟩

theorem Timed.frame {n : ℕ} {due : Time} (h : Timed d n due node) (hframe : Frame d node node') :
    Timed d n due node' :=
  ⟨h.toSearching.frame hframe, hframe.timer.trans h.timer, hframe.waits.trans h.waits⟩

theorem PutOff.frame {n : ℕ} (h : PutOff d n node) (hframe : Frame d node node') :
    PutOff d n node' :=
  ⟨h.toSearching.frame hframe, hframe.timer.trans h.timer, hframe.waits.trans h.waits⟩

/-! ## Requests -/

/-- A request can be sent: it is the first, or the routing table has counted those before. -/
structure Counted (d : Ipv4Address) (n : ℕ) (node : RoutingProtocol) : Prop where
  entry : n = 0 ∧ node.entry d = none ∨
    0 < n ∧ ∃ rt, node.entry d = some rt ∧ rt.flag = .inSearch ∧ rt.reqCount.toNat = n
  requests : requests d node.history = n
  timer : find node.addressReqTimer d = none
  waits : node.waits d = 0

theorem Counted.sent {n : ℕ} (h : Counted d n node) (hn : n < 255)
    (hlimit : node.rreqCount ≠ c.rreqRateLimit) :
    ∃ due, Timed d (n + 1) due (node.sendRequest c d) := by
  have hsends := sends_sendRequest hlimit d
  obtain ⟨due, hdue⟩ := hsends.timer
  obtain ⟨rt, hflag, hrt, hcount⟩ : ∃ rt : RoutingTableEntry, rt.flag = .inSearch ∧
      (node.entry d).getD { RoutingTableEntry.create node.now with flag := .inSearch } = rt ∧
      rt.reqCount.toNat = n := by
    rcases h.entry with ⟨rfl, hnone⟩ | ⟨-, rt, hrt, hflag, hcount⟩
    · rw [hnone]
      exact ⟨_, rfl, rfl, rfl⟩
    · rw [hrt]
      exact ⟨rt, hflag, rfl, hcount⟩
  refine ⟨due, ⟨⟨_, hsends.counted rt hflag hrt, hflag, ?_⟩, ?_⟩, hdue, hsends.waits.trans h.waits⟩
  · rw [UInt8.toNat_add, hcount]
    exact Nat.mod_eq_of_lt (Nat.succ_lt_succ hn)
  · rw [hsends.history, Discovery.requests, if_pos rfl, h.requests]

theorem Counted.putOff {n : ℕ} (h : Counted d n node) (hlimit : node.rreqCount = c.rreqRateLimit) :
    (n = 0 → Resting d (node.sendRequest c d)) ∧ (0 < n → PutOff d n (node.sendRequest c d)) := by
  have hwaits : (node.sendRequest c d).waits d = 1 := by
    have hzero := h.waits
    rw [RoutingProtocol.waits] at hzero ⊢
    rw [sendRequest, if_pos hlimit, List.map_append, List.count_append, hzero]
    simp
  have hentry : (node.sendRequest c d).entry d = node.entry d := by
    rw [sendRequest, if_pos hlimit]
    rfl
  have htimer : find (node.sendRequest c d).addressReqTimer d = none := by
    rw [sendRequest, if_pos hlimit]
    exact h.timer
  have hrequests : Discovery.requests d (node.sendRequest c d).history = n := by
    rw [sendRequest, if_pos hlimit]
    exact h.requests
  rcases h.entry with ⟨rfl, hnone⟩ | ⟨hpos, hsearch⟩
  · rw [hnone] at hentry
    refine ⟨fun _ => ⟨fun rt hrt => ?_, htimer, .inr ⟨hentry, hwaits⟩, hrequests⟩,
      fun hpos => absurd hpos (lt_irrefl 0)⟩
    rw [hentry] at hrt
    cases hrt
  · rw [← hentry] at hsearch
    exact ⟨fun hzero => absurd hzero hpos.ne', fun _ => ⟨⟨hsearch, hrequests⟩, htimer, hwaits⟩⟩

end RoutingProtocol

end Ns3Noc.Aodv.Discovery
