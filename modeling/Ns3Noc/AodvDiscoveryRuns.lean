import Ns3Noc.AodvDiscoverySearch
import Ns3Noc.PartialRuns

/-!
# Bounded route discovery

A search that starts once, and from no stale entry, sends a bounded number of requests and ends by
dropping its packets.
-/
namespace Ns3Noc.Aodv.Discovery
open KeyedTables

/-- No message gives a route to the destination. -/
def Unanswered (d : Ipv4Address) : Event → Prop
  | .learnRoute dst _ _ => dst ≠ d
  | _ => True

namespace RoutingProtocol

/-- A packet is queued for the destination when it is searched for already, or when there is no
entry for it and no request is put off. -/
def Meets (d : Ipv4Address) (node : RoutingProtocol) (time : Time) : Event → Prop
  | .deferredRouteOutput entry =>
    entry.header.destination = d → (node.queue.enqueue time entry).2.isSome →
      match find (node.routingTable.purge time).rows d with
      | some rt => rt.flag = .inSearch
      | none => node.waits d = 0
  | _ => True

variable {c : Attributes} {node node' : RoutingProtocol} {d : Ipv4Address} {label : Time × Event}
  {n : ℕ} {due : Time}

/-- A packet for a destination that is searched for waits in the queue. -/
theorem Searching.deferred {entry : QueueEntry} {time : Time}
    (h : Searching entry.header.destination n node)
    (hhandle : { node with now := time }.handle c (.deferredRouteOutput entry) = some node') :
    Frame entry.header.destination node node' := by
  obtain ⟨rt, hentry, hflag, -⟩ := h.entry
  obtain rfl := Option.some.inj hhandle
  have hqueue : Frame entry.header.destination node { node with
      now := time
      queue := (node.queue.enqueue time entry).1 } :=
    ⟨.refl _, rfl, rfl, rfl⟩
  have hfind := ((Fades.find_purge node.routingTable time entry.header.destination).inSearch
    rt hflag).mpr hentry
  rw [deferredRouteOutput]
  dsimp only [RoutingTable.lookupRoute]
  split
  · rw [hfind, if_neg (by simp [hflag])]
    exact hqueue.trans (frame_purge _ _ time)
  · exact hqueue

theorem gaveUp_giveUp (node : RoutingProtocol) (d : Ipv4Address) : GaveUp d (node.giveUp d) where
  history := rfl
  entry := RoutingTable.find_deleteRoute_self _ _ _
  timer := find_remove_self _ _
  queue e he := by
    have hother := (List.mem_filter.mp he).2
    simpa [QueueEntry.isTo] using hother

theorem resting_giveUp (h : node.waits d = 0) : Resting d (node.giveUp d) where
  entry rt hrt := by
    rw [(gaveUp_giveUp node d).entry] at hrt
    cases hrt
  timer := (gaveUp_giveUp node d).timer
  waits := .inl h
  requests := if_pos rfl

theorem Counted.step_sent (h : Counted d 0 node) :
    Resting d (node.sendRequest c d) ∨ ∃ due, Timed d 1 due (node.sendRequest c d) := by
  by_cases hlimit : node.rreqCount = c.rreqRateLimit
  · exact .inl ((h.putOff hlimit).1 rfl)
  · exact .inr (h.sent (by decide) hlimit)

theorem Resting.step (h : Resting d node) (hunanswered : Unanswered d label.2)
    (hmeets : node.Meets d label.1 label.2) (hstep : node.step c label = some node') :
    Resting d node' ∨ ∃ due, Timed d 1 due node' := by
  by_cases hd : label.2.destination = some d
  · obtain ⟨time, event⟩ := label
    obtain ⟨-, -, hhandle⟩ := step_eq_some hstep
    cases event with
    | deferredRouteOutput entry =>
      obtain rfl := Option.some.inj hd
      obtain rfl := Option.some.inj hhandle
      rw [deferredRouteOutput]
      dsimp only [RoutingTable.lookupRoute]
      split
      · next haccepted =>
        have hmeets := hmeets rfl haccepted
        cases hfind : find (node.routingTable.purge time).rows entry.header.destination with
        | some rt =>
          rw [hfind] at hmeets
          have hentry := ((Fades.find_purge node.routingTable time
            entry.header.destination).inSearch rt hmeets).mp hfind
          exact absurd hmeets (h.entry rt hentry)
        | none =>
          rw [hfind] at hmeets
          simp only [Option.all_none, if_true]
          exact Counted.step_sent ⟨.inl ⟨rfl, hfind⟩, h.requests, h.timer, hmeets⟩
      · exact .inl (h.frame ⟨.refl _, rfl, rfl, rfl⟩)
    | rreqRateLimitTimerExpire => cases hd
    | routeRequestTimerExpire dst =>
      obtain rfl := Option.some.inj hd
      obtain ⟨htimer, -⟩ := Option.ite_none_right_eq_some.mp hhandle
      rw [h.timer] at htimer
      cases htimer
    | sendRequest dst =>
      obtain rfl := Option.some.inj hd
      obtain ⟨hmem, hhandle⟩ := Option.ite_none_right_eq_some.mp hhandle
      obtain rfl := Option.some.inj hhandle
      have hcount := count_erase hmem dst
      rw [if_pos rfl] at hcount
      have hwaits := h.waits
      rw [RoutingProtocol.waits, hcount] at hwaits
      obtain ⟨hentry, hone⟩ := hwaits.resolve_left (Nat.succ_ne_zero _)
      exact Counted.step_sent ⟨.inl ⟨rfl, hentry⟩, h.requests, h.timer, Nat.succ.inj hone⟩
    | learnRoute dst rt answer => exact absurd (Option.some.inj hd) hunanswered
  · exact .inl (h.frame (frame_step hstep hd))

/-- The timer of a search ends it after the last request, and asks for another one before. -/
theorem Timed.step (h : Timed d n due node) (hn : 0 < n) (hle : n ≤ c.rreqRetries.toNat)
    (hretries : c.rreqRetries.toNat ≤ 255) (hunanswered : Unanswered d label.2)
    (hstep : node.step c label = some node') :
    label.2 = .routeRequestTimerExpire d ∧
      (n = c.rreqRetries.toNat ∧ GaveUp d node' ∧ Resting d node' ∨
        n < c.rreqRetries.toNat ∧ ((∃ due, Timed d (n + 1) due node') ∨ PutOff d n node')) ∨
    Timed d n due node' := by
  by_cases hd : label.2.destination = some d
  · obtain ⟨time, event⟩ := label
    obtain ⟨-, -, hhandle⟩ := step_eq_some hstep
    cases event with
    | deferredRouteOutput entry =>
      obtain rfl := Option.some.inj hd
      exact .inr (h.frame (h.deferred hhandle))
    | rreqRateLimitTimerExpire => cases hd
    | routeRequestTimerExpire dst =>
      obtain rfl := Option.some.inj hd
      obtain ⟨-, hhandle⟩ := Option.ite_none_right_eq_some.mp hhandle
      obtain rfl := Option.some.inj hhandle
      refine .inl ⟨rfl, ?_⟩
      obtain ⟨rt, hentry, hflag, hcount⟩ := h.entry
      have hfind := ((Fades.find_purge node.routingTable time dst).inSearch rt hflag).mpr hentry
      have htimer : find (remove node.addressReqTimer dst) dst = none := find_remove_self _ _
      rw [routeRequestTimerExpire]
      dsimp only [RoutingTable.lookupRoute]
      rw [hfind, Option.getD_some, if_neg (by simp [hflag]), hcount]
      split
      · next hlast => exact .inl ⟨hlast, gaveUp_giveUp _ _, resting_giveUp h.waits⟩
      · next hmore =>
        refine .inr ⟨lt_of_le_of_ne hle hmore, ?_⟩
        have hcounted : Counted dst n { node with
            now := time
            addressReqTimer := remove node.addressReqTimer dst
            routingTable := node.routingTable.purge time } :=
          ⟨.inr ⟨hn, rt, hfind, hflag, hcount⟩, h.requests, htimer, h.waits⟩
        by_cases hlimit : node.rreqCount = c.rreqRateLimit
        · exact .inr ((hcounted.putOff hlimit).2 hn)
        · exact .inl (hcounted.sent (by omega) hlimit)
    | sendRequest dst =>
      obtain rfl := Option.some.inj hd
      obtain ⟨hmem, -⟩ := Option.ite_none_right_eq_some.mp hhandle
      have hcount := count_erase hmem dst
      rw [if_pos rfl] at hcount
      have hwaits := h.waits
      rw [RoutingProtocol.waits, hcount] at hwaits
      cases hwaits
    | learnRoute dst rt answer => exact absurd (Option.some.inj hd) hunanswered
  · exact .inr (h.frame (frame_step hstep hd))

/-- The rate limiter lets a request for the destination through. -/
def Passes (c : Attributes) (d : Ipv4Address) (node : RoutingProtocol) (label : Time × Event) :
    Prop :=
  label.2 = .sendRequest d ∧ node.rreqCount ≠ c.rreqRateLimit

theorem PutOff.step (h : PutOff d n node) (hn : 0 < n) (hlt : n < 255)
    (hunanswered : Unanswered d label.2) (hstep : node.step c label = some node') :
    (Passes c d node label ∧ ∃ due, Timed d (n + 1) due node') ∨
      (¬Passes c d node label ∧ PutOff d n node') := by
  by_cases hd : label.2.destination = some d
  · obtain ⟨time, event⟩ := label
    obtain ⟨-, -, hhandle⟩ := step_eq_some hstep
    cases event with
    | deferredRouteOutput entry =>
      obtain rfl := Option.some.inj hd
      exact .inr ⟨(fun hpasses => by cases hpasses.1), h.frame (h.deferred hhandle)⟩
    | rreqRateLimitTimerExpire => cases hd
    | routeRequestTimerExpire dst =>
      obtain rfl := Option.some.inj hd
      obtain ⟨htimer, -⟩ := Option.ite_none_right_eq_some.mp hhandle
      rw [h.timer] at htimer
      cases htimer
    | sendRequest dst =>
      obtain rfl := Option.some.inj hd
      obtain ⟨hmem, hhandle⟩ := Option.ite_none_right_eq_some.mp hhandle
      obtain rfl := Option.some.inj hhandle
      have hcount := count_erase hmem dst
      rw [if_pos rfl] at hcount
      have hwaits := h.waits
      rw [RoutingProtocol.waits, hcount] at hwaits
      have hcounted : Counted dst n { node with
          now := time
          postponed := node.postponed.erase (time, dst) } :=
        ⟨.inr ⟨hn, h.entry⟩, h.requests, h.timer, Nat.succ.inj hwaits⟩
      by_cases hlimit : node.rreqCount = c.rreqRateLimit
      · exact .inr ⟨fun hpasses => hpasses.2 hlimit, (hcounted.putOff hlimit).2 hn⟩
      · exact .inl ⟨⟨rfl, hlimit⟩, hcounted.sent hlt hlimit⟩
    | learnRoute dst rt answer => exact absurd (Option.some.inj hd) hunanswered
  · refine .inr ⟨fun hpasses => hd ?_, h.frame (frame_step hstep hd)⟩
    rw [hpasses.1]
    rfl

/-! ## Runs -/

/-- No search, or one with a bounded number of requests that goes on. -/
def Sound (c : Attributes) (d : Ipv4Address) (node : RoutingProtocol) : Prop :=
  Resting d node ∨ ∃ n, 0 < n ∧ n ≤ c.rreqRetries.toNat ∧
    ((∃ due, Timed d n due node) ∨ n < c.rreqRetries.toNat ∧ PutOff d n node)

theorem Sound.requests_le (h : Sound c d node) :
    Discovery.requests d node.history ≤ c.rreqRetries.toNat := by
  rcases h with h | ⟨n, -, hle, ⟨due, h⟩ | ⟨-, h⟩⟩
  · rw [h.requests]
    exact Nat.zero_le _
  · exact h.requests.trans_le hle
  · exact h.requests.trans_le hle

/-- The event answers nothing and meets the condition. -/
def Keeps (d : Ipv4Address) (node : RoutingProtocol) (label : Time × Event) : Prop :=
  Unanswered d label.2 ∧ node.Meets d label.1 label.2

section Runs

variable (hpos : 1 ≤ c.rreqRetries.toNat) (hretries : c.rreqRetries.toNat ≤ 255)
include hpos hretries

theorem Sound.step (h : Sound c d node) (hkeeps : Keeps d node label)
    (hstep : node.step c label = some node') : Sound c d node' := by
  rcases h with h | ⟨n, hn, hle, ⟨due, h⟩ | ⟨hlt, h⟩⟩
  · rcases h.step hkeeps.1 hkeeps.2 hstep with h' | h'
    · exact .inl h'
    · exact .inr ⟨1, Nat.one_pos, hpos, .inl h'⟩
  · rcases h.step hn hle hretries hkeeps.1 hstep with ⟨-, ⟨-, -, h'⟩ | ⟨hlt, h' | h'⟩⟩ | h'
    · exact .inl h'
    · exact .inr ⟨n + 1, Nat.succ_pos n, hlt, .inl h'⟩
    · exact .inr ⟨n, hn, hle, .inr ⟨hlt, h'⟩⟩
    · exact .inr ⟨n, hn, hle, .inl ⟨due, h'⟩⟩
  · rcases h.step hn (by omega) hkeeps.1 hstep with ⟨-, h'⟩ | ⟨-, h'⟩
    · exact .inr ⟨n + 1, Nat.succ_pos n, hlt, .inl h'⟩
    · exact .inr ⟨n, hn, hle, .inr ⟨hlt, h'⟩⟩

theorem sound_of_run (h : Resting d node) {labels : List (Time × Event)}
    (hkeeps : PartialRuns.Allowed (RoutingProtocol.step c) (Keeps d) node labels)
    (hrun : PartialRuns.run (RoutingProtocol.step c) node labels = some node') : Sound c d node' :=
  PartialRuns.invariant_of_allowed
    (fun _ _ _ hsound hkeep hstep => hsound.step hpos hretries hkeep hstep) (.inl h) hkeeps hrun

end Runs

section InfiniteRuns

variable {x : InfiniteRuns.InfiniteRun (RoutingProtocol.step c) (Keeps d)} {i : ℕ}

/-- Time goes on, and the rate limiter does not put off requests for the destination forever. -/
structure Fair (x : InfiniteRuns.InfiniteRun (RoutingProtocol.step c) (Keeps d)) : Prop where
  unbounded : ∀ t, ∃ m, t < (x.states m).now
  passes : ∀ n, 0 < (x.states n).waits d → ∃ m, n ≤ m ∧ Passes c d (x.states m) (x.labels m)

theorem now_step (hstep : node.step c label = some node') : node.now ≤ node'.now := by
  obtain ⟨hnow, -, hhandle⟩ := step_eq_some hstep
  rw [now_handle hhandle]
  exact hnow

/-- The timer of a search expires. -/
theorem Timed.expires (hfair : Fair x) (h : Timed d n due (x.states i)) (hn : 0 < n)
    (hle : n ≤ c.rreqRetries.toNat) (hretries : c.rreqRetries.toNat ≤ 255) :
    ∃ m, i ≤ m ∧ (GaveUp d (x.states (m + 1)) ∨ n < c.rreqRetries.toNat ∧
      ((∃ due, Timed d (n + 1) due (x.states (m + 1))) ∨ PutOff d n (x.states (m + 1)))) := by
  have hkeep : ∀ node label node', Timed d n due node → Keeps d node label →
      node.step c label = some node' →
      (∃ node', node.step c label = some node' ∧ (GaveUp d node' ∨ n < c.rreqRetries.toNat ∧
        ((∃ due, Timed d (n + 1) due node') ∨ PutOff d n node'))) ∨ Timed d n due node' := by
    intro node label node' h hkeeps hstep
    rcases h.step hn hle hretries hkeeps.1 hstep with ⟨-, ⟨-, h', -⟩ | h'⟩ | h'
    · exact .inl ⟨node', hstep, .inl h'⟩
    · exact .inl ⟨node', hstep, .inr h'⟩
    · exact .inr h'
  have hdue : ∀ node label node', Timed d n due node →
      RoutingProtocol.step c node label = some node' → node.now ≤ due := by
    intro node label node' h hstep
    obtain ⟨hnow, htimers, -⟩ := step_eq_some hstep
    exact hnow.trans (htimers _ (mem_of_find h.timer))
  obtain ⟨m, him, -, node', hstep, hnode'⟩ :=
    InfiniteRuns.InfiniteRun.until_due (fun _ _ _ => now_step) hfair.unbounded hkeep hdue h
  rw [x.steps m] at hstep
  obtain rfl := Option.some.inj hstep
  exact ⟨m, him, hnode'⟩

/-- A request that is put off is sent. -/
theorem PutOff.passes (hfair : Fair x) (h : PutOff d n (x.states i)) (hn : 0 < n) (hlt : n < 255) :
    ∃ m, i ≤ m ∧ ∃ due, Timed d (n + 1) due (x.states (m + 1)) := by
  have hwaits : 0 < (x.states i).waits d := by
    rw [h.waits]
    exact Nat.one_pos
  obtain ⟨m, him, hm, hpasses⟩ := InfiniteRuns.InfiniteRun.until_step (P := PutOff d n)
    (fun node label node' h hkeeps hstep =>
      (h.step hn hlt hkeeps.1 hstep).imp And.left And.right) h (hfair.passes i hwaits)
  rcases hm.step hn hlt (x.allowed m).1 (x.steps m) with ⟨-, h'⟩ | ⟨hnot, -⟩
  · exact ⟨m, him, h'⟩
  · exact absurd hpasses hnot

/-- Every request brings the search nearer to its end. -/
theorem Timed.gaveUp (hfair : Fair x) (hretries : c.rreqRetries.toNat ≤ 255) (hn : 0 < n)
    (hle : n ≤ c.rreqRetries.toNat) (h : Timed d n due (x.states i)) :
    ∃ m, i ≤ m ∧ GaveUp d (x.states (m + 1)) := by
  induction hk : c.rreqRetries.toNat - n generalizing n due i with
  | zero =>
    obtain ⟨m, him, h' | ⟨hlt, -⟩⟩ := h.expires hfair hn hle hretries
    · exact ⟨m, him, h'⟩
    · omega
  | succ k ih =>
    obtain ⟨m, him, h' | ⟨hlt, ⟨due', h'⟩ | h'⟩⟩ := h.expires hfair hn hle hretries
    · exact ⟨m, him, h'⟩
    · obtain ⟨m', hle', hm'⟩ := ih (Nat.succ_pos n) hlt h' (by omega)
      exact ⟨m', by omega, hm'⟩
    · obtain ⟨m₁, hle₁, due', h₁⟩ := h'.passes hfair hn (by omega)
      obtain ⟨m', hle', hm'⟩ := ih (Nat.succ_pos n) hlt h₁ (by omega)
      exact ⟨m', by omega, hm'⟩

end InfiniteRuns

/-- At most as many requests as retries are sent for a destination before its search is given up,
and every search is given up: its entry is deleted and its packets are dropped. -/
theorem requests_le_gaveUp (hpos : 1 ≤ c.rreqRetries.toNat) (hretries : c.rreqRetries.toNat ≤ 255)
    (start : RoutingProtocol) (hstart : Resting d start) :
    (∀ labels node, PartialRuns.Allowed (RoutingProtocol.step c) (Keeps d) start labels →
      PartialRuns.run (RoutingProtocol.step c) start labels = some node →
      Discovery.requests d node.history ≤ c.rreqRetries.toNat) ∧
    ∀ x : InfiniteRuns.InfiniteRun (RoutingProtocol.step c) (Keeps d), x.states 0 = start → Fair x →
      ∀ i, 0 < Discovery.requests d (x.states i).history →
        ∃ m, i ≤ m ∧ GaveUp d (x.states (m + 1)) := by
  refine ⟨fun labels node hkeeps hrun => ?_, fun x hx hfair i hi => ?_⟩
  · exact (sound_of_run hpos hretries hstart hkeeps hrun).requests_le
  · have hsound : Sound c d (x.states i) := x.invariant
      (fun _ _ _ hsound hkeeps hstep => hsound.step hpos hretries hkeeps hstep)
      (.inl (by rw [hx]; exact hstart)) i
    rcases hsound with h | ⟨n, hn, hle, ⟨due, h⟩ | ⟨hlt, h⟩⟩
    · rw [h.requests] at hi
      exact absurd hi (lt_irrefl 0)
    · exact h.gaveUp hfair hretries hn hle
    · obtain ⟨m, him, due, h'⟩ := h.passes hfair hn (by omega)
      obtain ⟨m', hle', hm'⟩ := h'.gaveUp hfair hretries (Nat.succ_pos n) hlt
      exact ⟨m', by omega, hm'⟩

/-! ## Two runs -/

def attributes (rreqRetries : UInt32) (rreqRateLimit : UInt16) (netTraversalTime : Time) :
    Attributes :=
  ⟨rreqRetries, rreqRateLimit, netTraversalTime, true, false, fun rt => ⟨1, rt.nextHop, 1⟩⟩

def started : RoutingProtocol := create [⟨1, 0xffffff00, 255⟩] 64 30000000000

theorem resting_started (d : Ipv4Address) : Resting d started :=
  ⟨(fun rt hrt => by cases hrt), rfl, .inl rfl, rfl⟩

def packetTo (uid : ℕ) (dst : Ipv4Address) : Event :=
  .deferredRouteOutput ⟨⟨uid, some (-1)⟩, ⟨1, dst, 64⟩, 0⟩

/-- The node after a packet for 7 -/
def requested : RoutingProtocol :=
  (started.step (attributes 1 10 500000000) (0, packetTo 0 7)).getD started

/-- The node after the timer of the request -/
def givenUp : RoutingProtocol :=
  (requested.step (attributes 1 10 500000000) (500000000, .routeRequestTimerExpire 7)).getD started

/-- The node when the rate limit has been lifted so many times. -/
def lifted (n : ℕ) : RoutingProtocol :=
  { givenUp with
    now := n * 1000000000
    rreqCount := 0
    rreqRateLimitTimer := (n + 1) * 1000000000 }

theorem step_lifted (n : ℕ) :
    (lifted n).step (attributes 1 10 500000000) ((n + 1) * 1000000000, .rreqRateLimitTimerExpire) =
      some (lifted (n + 1)) := by
  have htimers : (lifted n).addressReqTimer = [] := by
    show givenUp.addressReqTimer = []
    decide
  have hpostponed : (lifted n).postponed = [] := by
    show givenUp.postponed = []
    decide
  have hnow : (lifted n).now ≤ ((n : ℤ) + 1) * 1000000000 := by
    show (n : ℤ) * 1000000000 ≤ _
    omega
  rw [step, if_pos ⟨hnow, le_refl _, by simp [htimers], by simp [hpostponed]⟩]
  simp only [handle, lifted, if_true, rreqRateLimitTimerExpire, Nat.cast_succ, add_mul, one_mul]

/-- A packet comes at the start, nobody answers, and then the rate limit is lifted every second. -/
def onePacket :
    InfiniteRuns.InfiniteRun (RoutingProtocol.step (attributes 1 10 500000000)) (Keeps 7) where
  states
    | 0 => started
    | 1 => requested
    | 2 => givenUp
    | n + 3 => lifted (n + 1)
  labels
    | 0 => (0, packetTo 0 7)
    | 1 => (500000000, .routeRequestTimerExpire 7)
    | n + 2 => ((n + 1) * 1000000000, .rreqRateLimitTimerExpire)
  steps
    | 0 => rfl
    | 1 => rfl
    | 2 => rfl
    | n + 3 => step_lifted (n + 1)
  allowed
    | 0 => ⟨trivial, fun _ _ => rfl⟩
    | 1 => ⟨trivial, trivial⟩
    | _ + 2 => ⟨trivial, trivial⟩

theorem fair_onePacket : Fair onePacket where
  unbounded t := by
    refine ⟨t.toNat + 3, ?_⟩
    show t < ((t.toNat + 1 : ℕ) : ℤ) * 1000000000
    have hle : t ≤ (t.toNat : ℤ) := Int.self_le_toNat t
    have hnonneg : (0 : ℤ) ≤ (t.toNat : ℤ) := Int.natCast_nonneg _
    push_cast
    linarith
  passes n hn := by
    have hwaits : (onePacket.states n).waits 7 = 0 := by
      rcases n with _ | _ | _ | n <;> rfl
    rw [hwaits] at hn
    exact absurd hn (lt_irrefl 0)

theorem gaveUp_onePacket :
    (∃ node, PartialRuns.run (RoutingProtocol.step (attributes 1 10 500000000)) started
      [(0, packetTo 0 7)] = some node ∧ 0 < Discovery.requests 7 node.history ∧
      Discovery.requests 7 node.history ≤ 1) ∧
    ∃ m, 1 ≤ m ∧ GaveUp 7 (onePacket.states (m + 1)) := by
  obtain ⟨hbounded, hends⟩ := requests_le_gaveUp (c := attributes 1 10 500000000)
    (by decide) (by decide) started (resting_started 7)
  refine ⟨⟨requested, rfl, by decide, ?_⟩, ?_⟩
  · exact hbounded [(0, packetTo 0 7)] requested ⟨onePacket.allowed 0, fun _ _ => trivial⟩ rfl
  · exact hends onePacket rfl fair_onePacket 1 (by decide)

/-- The limit is used up by other destinations, and both requests for 7 are put off. -/
def overLimit : List (Time × Event) :=
  [(0, packetTo 0 2), (0, packetTo 1 3), (0, packetTo 2 7), (0, packetTo 3 7),
    (1000000000, .rreqRateLimitTimerExpire), (1000100000, .sendRequest 7),
    (1000100000, .sendRequest 7)]

theorem not_requests_le_overLimit : ¬∀ (c : Attributes) (d : Ipv4Address) (start : RoutingProtocol)
    (labels : List (Time × Event)) (node : RoutingProtocol), 1 ≤ c.rreqRetries.toNat →
    1 ≤ c.rreqRateLimit.toNat → Resting d start → (∀ label ∈ labels, Unanswered d label.2) →
    PartialRuns.run (RoutingProtocol.step c) start labels = some node →
    Discovery.requests d node.history ≤ c.rreqRetries.toNat := by
  intro h
  have hrun : ∃ node, PartialRuns.run (RoutingProtocol.step (attributes 1 2 2800000000)) started
      overLimit = some node ∧ Discovery.requests 7 node.history = 2 :=
    ⟨_, rfl, by decide⟩
  obtain ⟨node, hrun, hrequests⟩ := hrun
  have hle := h (attributes 1 2 2800000000) 7 started overLimit node (by decide) (by decide)
    (resting_started 7) (by simp [overLimit, packetTo, Unanswered]) hrun
  rw [hrequests] at hle
  exact absurd hle (by decide)

end RoutingProtocol

end Ns3Noc.Aodv.Discovery
