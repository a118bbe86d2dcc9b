import Ns3Noc.HwmpPaths
import Ns3Noc.HwmpReception

/-!
# The packets that wait for a path

A packet waits while its destination has no path and a retry for the destination is pending. What an
action in progress leaves open is named: the packets whose path was just added, the retry that is
being handled and the request that is being routed.
-/
namespace Ns3Noc.Hwmp

open KeyedTables PartialActs

/-! ## Packets taken out of the queue -/

theorem dequeueAll_byDst (d : Address) {n : ℕ} {queue : List QueuedPacket} (h : queue.length ≤ n) :
    dequeueAll (dequeueFirstPacketByDst d) n queue =
      (queue.filter (·.dst = d), queue.filter (·.dst ≠ d)) := by
  induction n generalizing queue with
  | zero =>
    obtain rfl := List.eq_nil_of_length_eq_zero (Nat.le_zero.mp h)
    rfl
  | succ n ih =>
    rw [dequeueAll, dequeueFirstPacketByDst]
    cases hfind : queue.find? (·.dst = d) with
    | none =>
      have hnone : ∀ p ∈ queue, ¬ p.dst = d := by simpa using hfind
      have hall : ∀ p ∈ queue, p.dst ≠ d := hnone
      have htaken : queue.filter (·.dst = d) = [] := by simpa using hnone
      have hleft : queue.filter (·.dst ≠ d) = queue := by simpa using hall
      rw [htaken, hleft]
      rfl
    | some packet =>
      obtain ⟨hdst, before, after, rfl, hbefore⟩ := List.find?_eq_some_iff_append.mp hfind
      have hne : ∀ p ∈ before, ¬ p.dst = d := by simpa using hbefore
      have hpacket : packet.dst = d := of_decide_eq_true hdst
      have herase : (before ++ packet :: after).eraseP (·.dst = d) = before ++ after := by
        rw [List.eraseP_append_right _ (by simpa using hne), List.eraseP_cons_of_pos (by exact hdst)]
      have hlength : (before ++ after).length ≤ n := by
        simp only [List.length_append, List.length_cons] at h ⊢
        omega
      have htaken : before.filter (·.dst = d) = [] := by simpa using hne
      rw [Option.map_some, herase]
      simp only [ih hlength]
      simp [List.filter_append, htaken, hpacket]

theorem dequeueAll_first {n : ℕ} {queue : List QueuedPacket} (h : queue.length ≤ n) :
    dequeueAll dequeueFirstPacket n queue = (queue, []) := by
  induction n generalizing queue with
  | zero =>
    obtain rfl := List.eq_nil_of_length_eq_zero (Nat.le_zero.mp h)
    rfl
  | succ n ih =>
    cases queue with
    | nil => rfl
    | cons packet rest =>
      rw [List.length_cons] at h
      simp only [dequeueAll, dequeueFirstPacket, ih (Nat.le_of_succ_le_succ h)]

/-! ## Times of the retries -/

/-- The time of the retry after a number of requests, counted from the first one -/
def retryTime (traversal : ℕ) : ℕ → ℕ
  | 0 => 0
  | 1 => traversal * 2
  | n + 2 => retryTime traversal (n + 1) + 2 * (n + 3) * traversal

theorem retryTime_succ (traversal n : ℕ) (h : 0 < n) :
    retryTime traversal (n + 1) = retryTime traversal n + 2 * (n + 2) * traversal := by
  cases n with
  | zero => exact absurd h (lt_irrefl 0)
  | succ n => rfl

theorem retryTime_mono (traversal : ℕ) : Monotone (retryTime traversal) := by
  apply monotone_nat_of_le_succ
  intro n
  cases n with
  | zero => exact Nat.zero_le _
  | succ n => exact Nat.le_add_right _ _

namespace HwmpProtocol

/-! ## What is kept -/

def isReplyTo (reply : ℕ) : Call → Bool
  | .routeReply r _ _ _ _ _ _ => r = reply
  | _ => false

/-- How often a request was replied to -/
def replies (s : HwmpProtocol) (reply : ℕ) : ℕ := s.calls.countP (isReplyTo reply)

/-- How many packets of the queue wait for the reply -/
def waiting (s : HwmpProtocol) (reply : ℕ) : ℕ := s.rqueue.countP (·.reply = reply)

/-- The retry of a discovery is pending. -/
structure Discovery (attributes : Attributes) (now : ℕ) (events : List RetryEvent) (d : Address)
    (entry : PreqEvent) (event : RetryEvent) : Prop where
  pending : event ∈ events
  id : event.id = entry.preqTimeout
  dst : event.dst = d
  future : now ≤ event.time
  time : event.time ≤
    entry.whenScheduled + retryTime attributes.netDiameterTraversalTime entry.sent
  number : event.numOfRetry = entry.sent % 256

/-- What an action leaves open while it is in progress -/
structure Work where
  resolved : QueuedPacket → Prop
  retried : Option (Address × PreqEvent)
  request : Option ℕ

def Work.none : Work := ⟨fun _ => False, .none, .none⟩

structure Inv (w : Work) (s : HwmpProtocol) : Prop where
  capacity : s.rqueue.length ≤ s.attributes.maxQueueSize
  tagged : ∀ p ∈ s.rqueue, p.pkt.tag.isSome
  unresolved : ∀ p ∈ s.rqueue, w.resolved p ∨ s.rtable.Unresolved s.now p.dst
  discovered : ∀ p ∈ s.rqueue, ∃ entry, s.preqTimeouts p.dst = some entry ∧
    ∀ q time, .queued q time ∈ s.calls → q.reply = p.reply → entry.whenScheduled ≤ time
  sent : ∀ d entry, s.preqTimeouts d = some entry →
    0 < entry.sent ∧ entry.sent ≤ s.attributes.maxPreqRetries + 1 ∧ entry.whenScheduled ≤ s.now
  scheduled : ∀ d entry, s.preqTimeouts d = some entry → w.retried.map Prod.fst ≠ some d →
    ∃ event, Discovery s.attributes s.now s.events d entry event
  entered : ∀ event ∈ s.events, event.id < s.nextEvent ∧ w.retried.map Prod.fst ≠ some event.dst ∧
    ∃ entry, s.preqTimeouts event.dst = some entry ∧ entry.preqTimeout = event.id
  one : ∀ event ∈ s.events, ∀ event' ∈ s.events, event.id = event'.id → event = event'
  retried : ∀ d entry, w.retried = some (d, entry) → s.preqTimeouts d = some entry ∧
    s.now ≤ entry.whenScheduled + retryTime s.attributes.netDiameterTraversalTime entry.sent
  requested : ∀ reply, w.request = some reply → reply < s.requests
  fresh : ∀ reply, s.requests ≤ reply ∨ w.request = some reply →
    s.replies reply = 0 ∧ s.waiting reply = 0
  known : ∀ p time, .queued p time ∈ s.calls →
    p.reply < s.requests ∧ w.request ≠ some p.reply ∧ s.replies p.reply + s.waiting p.reply = 1

/-! ## Steps that change no packet, retry or path -/

def quiet : Call → Bool
  | .routeReply .. => false
  | .queued .. => false
  | _ => true

theorem countP_quiet {calls : List Call} (h : ∀ c ∈ calls, quiet c) (reply : ℕ) :
    calls.countP (isReplyTo reply) = 0 := by
  rw [List.countP_eq_zero]
  intro c hc
  have hquiet := h c hc
  cases c with
  | routeReply => exact nomatch hquiet
  | _ => simp [isReplyTo]

theorem mem_quiet {calls quietCalls : List Call} (h : ∀ c ∈ quietCalls, quiet c) {p : QueuedPacket}
    {time : ℕ} (hmem : .queued p time ∈ calls ++ quietCalls) : .queued p time ∈ calls := by
  obtain hmem | hmem := List.mem_append.mp hmem
  · exact hmem
  · exact nomatch h _ hmem

theorem Inv.calls {w : Work} {s : HwmpProtocol} (h : Inv w s) {quietCalls : List Call}
    (hquiet : ∀ c ∈ quietCalls, quiet c) : Inv w { s with calls := s.calls ++ quietCalls } := by
  have hreplies : ∀ reply,
      replies { s with calls := s.calls ++ quietCalls } reply = s.replies reply := by
    intro reply
    rw [replies, replies, List.countP_append, countP_quiet hquiet, Nat.add_zero]
  refine ⟨h.capacity, h.tagged, h.unresolved, fun p hp => ?_, h.sent, h.scheduled, h.entered,
    h.one, h.retried, h.requested, fun reply hr => ?_, fun p time hmem => ?_⟩
  · obtain ⟨entry, he, htime⟩ := h.discovered p hp
    exact ⟨entry, he, fun q time hmem => htime q time (mem_quiet hquiet hmem)⟩
  · rw [hreplies]
    exact h.fresh reply hr
  · rw [hreplies]
    exact h.known p time (mem_quiet hquiet hmem)

theorem Inv.table {w : Work} {s : HwmpProtocol} (h : Inv w s) {t : HwmpRtable}
    (ht : HwmpRtable.Offers s.rtable t s.now) : Inv w { s with rtable := t } :=
  ⟨h.capacity, h.tagged, fun p hp => (h.unresolved p hp).imp_right ht.unresolved, h.discovered,
    h.sent, h.scheduled, h.entered, h.one, h.retried, h.requested, h.fresh, h.known⟩

/-! ## Replies -/

theorem countP_answer {answer : QueuedPacket → Call}
    (hanswer : ∀ p reply, isReplyTo reply (answer p) = decide (p.reply = reply))
    (queue : List QueuedPacket) (reply : ℕ) :
    (queue.map answer).countP (isReplyTo reply) = queue.countP (·.reply = reply) := by
  rw [List.countP_map]
  apply List.countP_congr
  intro p _
  rw [Function.comp_apply, hanswer]

theorem not_queued_answer {answer : QueuedPacket → Call}
    (hanswer : ∀ p reply, isReplyTo reply (answer p) = decide (p.reply = reply))
    {queue : List QueuedPacket} {p : QueuedPacket} {time : ℕ} :
    .queued p time ∉ queue.map answer := by
  intro hmem
  obtain ⟨q, -, hq⟩ := List.mem_map.mp hmem
  have hreply := hanswer q q.reply
  rw [hq] at hreply
  simp [isReplyTo] at hreply

/-- The packets that leave the queue are replied to. -/
theorem Inv.flush {w : Work} {s : HwmpProtocol} (h : Inv w s) (keep : QueuedPacket → Bool)
    {answer : QueuedPacket → Call}
    (hanswer : ∀ p reply, isReplyTo reply (answer p) = decide (p.reply = reply)) :
    Inv { w with resolved := fun p => w.resolved p ∧ keep p }
      { s with
        rqueue := s.rqueue.filter keep
        calls := s.calls ++ (s.rqueue.filter fun p => !keep p).map answer } := by
  let s' := { s with
    rqueue := s.rqueue.filter keep
    calls := s.calls ++ (s.rqueue.filter fun p => !keep p).map answer }
  have hsum : ∀ reply,
      s'.replies reply + s'.waiting reply = s.replies reply + s.waiting reply := by
    intro reply
    have hsplit := List.countP_eq_countP_filter_add s.rqueue (·.reply = reply) keep
    simp only [s', replies, waiting, List.countP_append, countP_answer hanswer]
    omega
  have hqueued : ∀ p time, .queued p time ∈ s'.calls → .queued p time ∈ s.calls := by
    intro p time hmem
    exact (List.mem_append.mp hmem).resolve_right (not_queued_answer hanswer)
  refine ⟨(List.length_filter_le _ _).trans h.capacity,
    fun p hp => h.tagged p (List.mem_of_mem_filter hp), fun p hp => ?_, fun p hp => ?_, h.sent,
    h.scheduled, h.entered, h.one, h.retried, h.requested, fun reply hr => ?_, fun p time hmem => ?_⟩
  · obtain ⟨hmem, hkeep⟩ := List.mem_filter.mp hp
    exact (h.unresolved p hmem).imp_left fun hresolved => ⟨hresolved, hkeep⟩
  · obtain ⟨entry, he, htime⟩ := h.discovered p (List.mem_of_mem_filter hp)
    exact ⟨entry, he, fun q time hmem => htime q time (hqueued q time hmem)⟩
  · have hold := h.fresh reply hr
    have hnew := hsum reply
    rw [hold.1, hold.2] at hnew
    exact Nat.add_eq_zero_iff.mp hnew
  · obtain ⟨hlt, hne, hone⟩ := h.known p time (hqueued p time hmem)
    exact ⟨hlt, hne, (hsum p.reply).trans hone⟩

/-! ## Retries -/

theorem update_eq_some {f : Address → Option PreqEvent} {d d' : Address} {entry entry' : PreqEvent}
    (h : Function.update f d (some entry) d' = some entry') :
    d' = d ∧ entry = entry' ∨ d' ≠ d ∧ f d' = some entry' := by
  by_cases hd : d' = d
  · subst hd
    rw [Function.update_self] at h
    exact .inl ⟨rfl, Option.some.inj h⟩
  · rw [Function.update_of_ne hd] at h
    exact .inr ⟨hd, h⟩

/-- A retry is scheduled for a destination that has none. -/
theorem Inv.schedule {w : Work} {s : HwmpProtocol} (h : Inv w s) {d : Address}
    (hretried : ∀ d' entry, w.retried = some (d', entry) → d' = d)
    (hnone : ∀ event ∈ s.events, event.dst ≠ d) {delay n whenScheduled sent : ℕ}
    (hqueued : ∀ p ∈ s.rqueue, p.dst = d → ∀ q time, .queued q time ∈ s.calls →
      q.reply = p.reply → whenScheduled ≤ time)
    (hnow : whenScheduled ≤ s.now) (hpos : 0 < sent) (hsent : sent ≤ s.attributes.maxPreqRetries + 1)
    (hn : n = sent % 256)
    (htime : s.now + delay ≤
      whenScheduled + retryTime s.attributes.netDiameterTraversalTime sent) :
    Inv { w with retried := none }
      { s with
        events := s.events ++ [⟨s.nextEvent, s.now + delay, d, n⟩]
        preqTimeouts :=
          Function.update s.preqTimeouts d (some ⟨s.nextEvent, whenScheduled, sent⟩)
        nextEvent := s.nextEvent + 1 } := by
  have hid : ∀ event ∈ s.events, event.id ≠ s.nextEvent := fun event hmem =>
    Nat.ne_of_lt (h.entered event hmem).1
  refine ⟨h.capacity, h.tagged, h.unresolved, fun p hp => ?_, fun d' entry he => ?_,
    fun d' entry he _ => ?_, fun event hmem => ?_, fun event hmem event' hmem' heq => ?_,
    nofun, h.requested, h.fresh, h.known⟩
  · by_cases hd : p.dst = d
    · refine ⟨⟨s.nextEvent, whenScheduled, sent⟩, ?_, hqueued p hp hd⟩
      rw [hd]
      exact Function.update_self ..
    · obtain ⟨entry, he, htime⟩ := h.discovered p hp
      exact ⟨entry, (Function.update_of_ne hd _ _).trans he, htime⟩
  · obtain ⟨-, rfl⟩ | ⟨-, he⟩ := update_eq_some he
    · exact ⟨hpos, hsent, hnow⟩
    · exact h.sent d' entry he
  · obtain ⟨rfl, rfl⟩ | ⟨hd, he⟩ := update_eq_some he
    · exact ⟨_, List.mem_append_right _ List.mem_cons_self, rfl, rfl, Nat.le_add_right _ _, htime,
        hn⟩
    · have hw : w.retried.map Prod.fst ≠ some d' := by
        intro hsome
        obtain ⟨⟨i, entry'⟩, hw, rfl⟩ := Option.map_eq_some_iff.mp hsome
        exact hd (hretried i entry' hw)
      obtain ⟨event, hdisc⟩ := h.scheduled d' entry he hw
      exact ⟨event, List.mem_append_left _ hdisc.pending, hdisc.id, hdisc.dst, hdisc.future,
        hdisc.time, hdisc.number⟩
  · obtain hmem | hmem := List.mem_append.mp hmem
    · obtain ⟨hlt, -, entry, he, hentry⟩ := h.entered event hmem
      refine ⟨Nat.lt_succ_of_lt hlt, nofun, entry, ?_, hentry⟩
      exact (Function.update_of_ne (hnone event hmem) _ _).trans he
    · obtain rfl := List.mem_singleton.mp hmem
      exact ⟨Nat.lt_succ_self _, nofun, _, Function.update_self .., rfl⟩
  · obtain hmem | hmem := List.mem_append.mp hmem
    · obtain hmem' | hmem' := List.mem_append.mp hmem'
      · exact h.one event hmem event' hmem' heq
      · obtain rfl := List.mem_singleton.mp hmem'
        exact absurd heq (hid event hmem)
    · obtain rfl := List.mem_singleton.mp hmem
      obtain hmem' | hmem' := List.mem_append.mp hmem'
      · exact absurd heq.symm (hid event' hmem')
      · exact (List.mem_singleton.mp hmem').symm

/-- The discovery is over where no packet waits for it any more. -/
theorem Inv.eraseTimeout {w : Work} {s : HwmpProtocol} (h : Inv w s) {d : Address}
    {entry : PreqEvent} (hretried : w.retried = some (d, entry))
    (hqueue : ∀ p ∈ s.rqueue, p.dst ≠ d) :
    Inv { w with retried := none }
      { s with preqTimeouts := Function.update s.preqTimeouts d none } := by
  have hold : ∀ d' entry', Function.update s.preqTimeouts d none d' = some entry' →
      d' ≠ d ∧ s.preqTimeouts d' = some entry' := by
    intro d' entry' he
    have hd : d' ≠ d := by
      rintro rfl
      exact nomatch (Function.update_self ..).symm.trans he
    exact ⟨hd, (Function.update_of_ne hd _ _).symm.trans he⟩
  refine ⟨h.capacity, h.tagged, h.unresolved, fun p hp => ?_, fun d' entry' he => ?_,
    fun d' entry' he _ => ?_, fun event hmem => ?_, h.one, nofun, h.requested, h.fresh, h.known⟩
  · obtain ⟨entry', he, htime⟩ := h.discovered p hp
    exact ⟨entry', (Function.update_of_ne (hqueue p hp) _ _).trans he, htime⟩
  · exact h.sent d' entry' (hold d' entry' he).2
  · obtain ⟨hd, he⟩ := hold d' entry' he
    refine h.scheduled d' entry' he ?_
    rw [hretried]
    exact fun heq => hd (Option.some.inj heq).symm
  · obtain ⟨hlt, hw, entry', he, hid⟩ := h.entered event hmem
    have hd : event.dst ≠ d := by
      rintro rfl
      exact hw (by rw [hretried]; rfl)
    exact ⟨hlt, nofun, entry', (Function.update_of_ne hd _ _).trans he, hid⟩

/-- The retry that fires is taken out. -/
theorem Inv.fire {s : HwmpProtocol} (h : Inv .none s) {event : RetryEvent}
    (hmem : event ∈ s.events) (hnow : event.time = s.now) :
    ∃ entry, s.preqTimeouts event.dst = some entry ∧ event.numOfRetry = entry.sent % 256 ∧
      Inv { Work.none with retried := some (event.dst, entry) }
        { s with events := s.events.filter (·.id ≠ event.id) } := by
  obtain ⟨-, -, entry, hentry, hid⟩ := h.entered event hmem
  obtain ⟨event', hdisc⟩ := h.scheduled event.dst entry hentry nofun
  obtain rfl := h.one event' hdisc.pending event hmem (hdisc.id.trans hid)
  refine ⟨entry, hentry, hdisc.number, h.capacity, h.tagged, h.unresolved, h.discovered, h.sent,
    fun d entry' he hw => ?_, fun event hevent => ?_, fun e he e' he' => ?_, ?_, h.requested,
    h.fresh, h.known⟩
  · obtain ⟨other, hother⟩ := h.scheduled d entry' he nofun
    refine ⟨other, List.mem_filter.mpr ⟨hother.pending, ?_⟩, hother.id, hother.dst, hother.future,
      hother.time, hother.number⟩
    rw [decide_eq_true_eq]
    intro heq
    obtain rfl := h.one other hother.pending event' hmem heq
    exact hw (congrArg some hother.dst)
  · obtain ⟨hold, hne⟩ := List.mem_filter.mp hevent
    obtain ⟨hlt, -, entry', he, hid'⟩ := h.entered event hold
    refine ⟨hlt, fun heq => of_decide_eq_true hne ?_, entry', he, hid'⟩
    have hdst : event'.dst = event.dst := Option.some.inj heq
    rw [← hdst, hentry] at he
    obtain rfl := Option.some.inj he
    exact hid'.symm.trans hid
  · exact h.one e (List.mem_of_mem_filter he) e' (List.mem_of_mem_filter he')
  · rintro d entry' heq
    obtain ⟨rfl, rfl⟩ := Prod.mk.inj (Option.some.inj heq)
    exact ⟨hentry, hnow ▸ hdisc.time⟩

/-- Time does not pass a pending retry. -/
theorem Inv.tick {s : HwmpProtocol} (h : Inv .none s) {duration : ℕ}
    (hevents : ∀ event ∈ s.events, s.now + duration ≤ event.time) :
    Inv .none { s with now := s.now + duration } := by
  refine ⟨h.capacity, h.tagged, fun p hp => ?_, h.discovered, fun d entry he => ?_,
    fun d entry he hw => ?_, h.entered, h.one, nofun, h.requested, h.fresh, h.known⟩
  · exact (h.unresolved p hp).imp_right fun hun => hun.mono (Nat.le_add_right _ _)
  · obtain ⟨hpos, hsent, hle⟩ := h.sent d entry he
    exact ⟨hpos, hsent, hle.trans (Nat.le_add_right _ _)⟩
  · obtain ⟨event, hdisc⟩ := h.scheduled d entry he hw
    exact ⟨event, hdisc.pending, hdisc.id, hdisc.dst, hevents event hdisc.pending, hdisc.time,
      hdisc.number⟩

end HwmpProtocol

end Ns3Noc.Hwmp
