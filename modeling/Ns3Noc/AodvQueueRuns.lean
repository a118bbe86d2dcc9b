import Ns3Noc.AodvQueue

/-!
# Runs of the AODV request queue

What holds of the queue after any operations, and when `SendPacketFromQueue` leaves no packet behind.
-/
namespace Ns3Noc.Aodv
open WhileLoops

/-- The queue, with the entries that were accepted and those that `Dequeue` has returned, oldest
first. -/
structure QueueRun where
  now : Time
  queue : RequestQueue
  accepted : List QueueEntry
  returned : List QueueEntry
  deriving DecidableEq, Repr

namespace QueueRun

inductive Label where
  | enqueue (entry : QueueEntry)
  | dequeue (dst : Ipv4Address)
  | dropPacketWithDst (dst : Ipv4Address)
  | purge
  | advance (duration : ℕ)
  deriving DecidableEq, Repr

def step (s : QueueRun) : Label → QueueRun
  | .enqueue entry =>
    let (queue, accepted) := s.queue.enqueue s.now entry
    { s with queue := queue, accepted := s.accepted ++ accepted.toList }
  | .dequeue dst =>
    let (queue, returned) := s.queue.dequeue s.now dst
    { s with queue := queue, returned := s.returned ++ returned.toList }
  | .dropPacketWithDst dst => { s with queue := s.queue.dropPacketWithDst s.now dst }
  | .purge => { s with queue := s.queue.purge s.now }
  | .advance duration => { s with now := s.now + duration }

def initial (maxLen : ℕ) (queueTimeout : Time) : QueueRun :=
  ⟨0, ⟨maxLen, queueTimeout, [], []⟩, [], []⟩

def run (maxLen : ℕ) (queueTimeout : Time) (labels : List Label) : QueueRun :=
  labels.foldl step (initial maxLen queueTimeout)

/-- Two entries with the same packet and destination -/
def Same (a b : QueueEntry) : Prop :=
  a.packet.uid = b.packet.uid ∧ a.header.destination = b.header.destination

structure Sound (maxLen : ℕ) (s : QueueRun) : Prop where
  limit : s.queue.maxLen = maxLen
  bounded : s.queue.queue.length ≤ maxLen
  distinct : s.queue.queue.Pairwise fun a b => ¬Same a b
  /-- Those returned for a destination, and then those in the queue, are in the order in which they
  were accepted. -/
  inOrder : ∀ dst, ((s.returned ++ s.queue.queue).filter (QueueEntry.isTo dst)).Sublist
    (s.accepted.filter (QueueEntry.isTo dst))
  /-- Whatever was accepted is in the queue or has left it once. -/
  accounted : s.accepted.Perm (s.returned ++ s.queue.drops ++ s.queue.queue)

variable {maxLen : ℕ} {s : QueueRun} {queue : RequestQueue}

theorem Sound.drops (h : Sound maxLen s) (hdrops : s.queue.Drops queue) :
    Sound maxLen { s with queue := queue } := by
  obtain ⟨dropped, hlog, hperm⟩ := hdrops.drops
  constructor
  · exact hdrops.maxLen.trans h.limit
  · exact hdrops.sublist.length_le.trans h.bounded
  · exact h.distinct.sublist hdrops.sublist
  · intro dst
    exact ((hdrops.sublist.append_left s.returned).filter _).trans (h.inOrder dst)
  · show s.accepted.Perm (s.returned ++ queue.drops ++ queue.queue)
    rw [hlog, ← List.append_assoc, List.append_assoc (s.returned ++ s.queue.drops)]
    exact h.accounted.trans (hperm.append_left _)

theorem Sound.dropPacketWithDst (h : Sound maxLen s) (dst : Ipv4Address) :
    Sound maxLen { s with queue := s.queue.dropPacketWithDst s.now dst } :=
  h.drops (s.queue.drops_dropPacketWithDst s.now dst)

/-- An entry is added at the end. -/
theorem Sound.push (h : Sound maxLen s) {entry : QueueEntry}
    (hnew : ∀ e ∈ s.queue.queue, ¬Same e entry) (hroom : s.queue.queue.length + 1 ≤ maxLen) :
    Sound maxLen { s with
      queue := { s.queue with queue := s.queue.queue ++ [entry] }
      accepted := s.accepted ++ [entry] } := by
  constructor
  · exact h.limit
  · show (s.queue.queue ++ [entry]).length ≤ maxLen
    rw [List.length_append]
    exact hroom
  · refine List.pairwise_append.mpr ⟨h.distinct, List.pairwise_singleton _ _, fun a ha b hb => ?_⟩
    obtain rfl := List.mem_singleton.mp hb
    exact hnew a ha
  · intro dst
    show ((s.returned ++ (s.queue.queue ++ [entry])).filter _).Sublist
      ((s.accepted ++ [entry]).filter _)
    rw [← List.append_assoc, List.filter_append, List.filter_append (s.accepted)]
    exact (h.inOrder dst).append_right _
  · show (s.accepted ++ [entry]).Perm (s.returned ++ s.queue.drops ++ (s.queue.queue ++ [entry]))
    rw [← List.append_assoc]
    exact h.accounted.append_right _

theorem Sound.enqueue (h : Sound maxLen s) (hmaxLen : 1 ≤ maxLen) (entry : QueueEntry) :
    Sound maxLen (s.step (.enqueue entry)) := by
  have hpurged := h.drops (s.queue.drops_purge s.now)
  rw [step, RequestQueue.enqueue]
  dsimp only
  by_cases hholds : (s.queue.purge s.now).holds entry
  · rw [if_pos hholds, Option.toList_none, List.append_nil]
    exact hpurged
  · rw [if_neg hholds]
    have hmade := hpurged.drops (s.queue.purge s.now).drops_makeRoom
    have hroom := RequestQueue.length_makeRoom (hpurged.bounded.trans_eq hpurged.limit.symm)
      (hmaxLen.trans_eq hpurged.limit.symm)
    refine hmade.push (fun e he hsame => hholds ?_) (hroom.trans_eq hpurged.limit)
    have hmem := (s.queue.purge s.now).drops_makeRoom.sublist.subset he
    exact List.any_eq_true.mpr ⟨e, hmem, decide_eq_true hsame⟩

theorem Sound.dequeue (h : Sound maxLen s) (dst : Ipv4Address) :
    Sound maxLen (s.step (.dequeue dst)) := by
  have hpurged := h.drops (s.queue.drops_purge s.now)
  rw [step]
  cases hdequeue : s.queue.dequeue s.now dst with
  | mk queue returned =>
    cases returned with
    | none =>
      obtain ⟨rfl, -⟩ := RequestQueue.dequeue_eq_none hdequeue
      dsimp only
      rw [Option.toList_none, List.append_nil]
      exact hpurged
    | some entry =>
      obtain ⟨before, after, hsplit, hto, hbefore, rfl⟩ := RequestQueue.dequeue_eq_some hdequeue
      have hsublist : (before ++ after).Sublist (s.queue.purge s.now).queue := by
        rw [hsplit]
        exact (List.sublist_cons_self entry after).append_left before
      constructor
      · exact hpurged.limit
      · exact hsublist.length_le.trans hpurged.bounded
      · exact hpurged.distinct.sublist hsublist
      · intro d
        refine List.Sublist.trans ?_ (hpurged.inOrder d)
        show ((s.returned ++ [entry] ++ (before ++ after)).filter _).Sublist
          ((s.returned ++ (s.queue.purge s.now).queue).filter _)
        rw [hsplit]
        simp only [List.filter_append, List.filter_cons, List.append_assoc, List.filter_nil]
        refine List.Sublist.append_left ?_ _
        by_cases hd : entry.isTo d
        · -- No entry before this one is for the destination.
          obtain rfl : dst = d := (of_decide_eq_true hto).symm.trans (of_decide_eq_true hd)
          rw [List.filter_eq_nil_iff.mpr hbefore]
          simp only [if_pos hd]
          exact List.Sublist.refl _
        · simp only [if_neg hd]
          exact List.Sublist.refl _
      · show s.accepted.Perm (s.returned ++ [entry] ++ (s.queue.purge s.now).drops ++
          (before ++ after))
        refine hpurged.accounted.trans ?_
        show (s.returned ++ (s.queue.purge s.now).drops ++ (s.queue.purge s.now).queue).Perm _
        rw [hsplit]
        simp only [List.append_assoc]
        refine List.Perm.append_left _ ?_
        rw [← List.append_assoc, List.singleton_append, ← List.append_assoc]
        exact List.perm_middle

theorem Sound.step (h : Sound maxLen s) (hmaxLen : 1 ≤ maxLen) (l : Label) :
    Sound maxLen (s.step l) := by
  cases l with
  | enqueue entry => exact h.enqueue hmaxLen entry
  | dequeue dst => exact h.dequeue dst
  | dropPacketWithDst dst => exact h.dropPacketWithDst dst
  | purge => exact h.drops (s.queue.drops_purge s.now)
  | advance duration => exact ⟨h.limit, h.bounded, h.distinct, h.inOrder, h.accounted⟩

theorem sound_initial (maxLen : ℕ) (queueTimeout : Time) :
    Sound maxLen (initial maxLen queueTimeout) :=
  ⟨rfl, Nat.zero_le _, .nil, fun _ => List.Sublist.refl _, .refl _⟩

theorem sound_run (hmaxLen : 1 ≤ maxLen) (queueTimeout : Time) (labels : List Label) :
    Sound maxLen (run maxLen queueTimeout labels) :=
  List.foldlRecOn labels QueueRun.step (sound_initial maxLen queueTimeout)
    fun _ h l _ => h.step hmaxLen l

end QueueRun

/-! ## Sending all packets for a destination -/

section Send
variable {now : Time} {dst : Ipv4Address} {route : Ipv4Route} {q : RequestQueue}

theorem RequestQueue.purge_of_fresh (h : ∀ e ∈ q.queue, ¬e.isExpired now) : q.purge now = q := by
  have hall : q.queue.filter (fun e => !e.isExpired now) = q.queue :=
    List.filter_eq_self.mpr fun e he => by simpa using h e he
  rw [purge, hall, List.filter_eq_nil_iff.mpr h, List.append_nil]

theorem RequestQueue.fresh_purge (q : RequestQueue) (now : Time) :
    ∀ e ∈ (q.purge now).queue, ¬e.isExpired now := by
  intro e he
  simpa using (List.mem_filter.mp he).2

theorem RequestQueue.dequeue_purge (q : RequestQueue) (now : Time) (dst : Ipv4Address) :
    (q.purge now).dequeue now dst = q.dequeue now dst := by
  rw [dequeue, purge_of_fresh (q.fresh_purge now), dequeue]

/-- `SendPacketFromQueue` ends; each packet for the destination has been forwarded over the route
or dropped, once, and none is left. -/
def SendsAll (now : Time) (dst : Ipv4Address) (route : Ipv4Route) (q : RequestQueue) : Prop :=
  ∃ r forwarded dropped, Ends (sendPacketFromQueue now dst route) ⟨q, []⟩ r ∧
    r.forwarded = forwarded.map route.forward ∧ r.queue.drops = q.drops ++ dropped ∧
    (q.queue.filter (QueueEntry.isTo dst)).Perm
      (forwarded ++ dropped.filter (QueueEntry.isTo dst)) ∧
    ∀ e ∈ r.queue.queue, ¬e.isTo dst

theorem sendPacketFromQueue_of_none (hq : ∀ e ∈ q.queue, ¬e.isExpired now)
    (h : ∀ e ∈ q.queue, ¬e.isTo dst) (forwarded : List Forwarded) :
    sendPacketFromQueue now dst route ⟨q, forwarded⟩ = .ends ⟨q, forwarded⟩ := by
  have hdequeue : q.dequeue now dst = (q, none) := by
    rw [RequestQueue.dequeue, RequestQueue.purge_of_fresh hq, List.find?_eq_none.mpr h]
  rw [sendPacketFromQueue]
  dsimp only
  rw [hdequeue]

theorem sendPacketFromQueue_of_some (route : Ipv4Route)
    (hq : ∀ e ∈ q.queue, ¬e.isExpired now) {before after : List QueueEntry} {entry : QueueEntry}
    (hsplit : q.queue = before ++ entry :: after) (hto : entry.isTo dst)
    (hbefore : ∀ e ∈ before, ¬e.isTo dst) (forwarded : List Forwarded) :
    sendPacketFromQueue now dst route ⟨q, forwarded⟩ =
      if route.fits entry then
        .again ⟨{ q with queue := before ++ after }, forwarded ++ [route.forward entry]⟩
      else .ends ⟨{ q with queue := before ++ after }, forwarded⟩ := by
  have hfind : q.queue.find? (QueueEntry.isTo dst) = some entry := by
    rw [hsplit, List.find?_append, List.find?_eq_none.mpr hbefore, Option.none_or,
      List.find?_cons_of_pos hto]
  have hdequeue : q.dequeue now dst = ({ q with queue := before ++ after }, some entry) := by
    rw [RequestQueue.dequeue, RequestQueue.purge_of_fresh hq, hfind]
    dsimp only
    rw [hsplit, List.eraseP_append_right _ hbefore, List.eraseP_cons_of_pos hto]
  rw [sendPacketFromQueue]
  dsimp only
  rw [hdequeue]

/-- The loop forwards the entries for the destination up to the first that does not fit the route,
which it takes out of the queue. -/
theorem ends_sendPacketFromQueue (dst : Ipv4Address) (route : Ipv4Route)
    (hq : ∀ e ∈ q.queue, ¬e.isExpired now) (forwarded : List Forwarded) :
    ∃ queue, Ends (sendPacketFromQueue now dst route) ⟨q, forwarded⟩
      ⟨{ q with queue := queue }, forwarded ++
        ((q.queue.filter (QueueEntry.isTo dst)).takeWhile route.fits).map route.forward⟩ ∧
      queue.filter (QueueEntry.isTo dst) =
        ((q.queue.filter (QueueEntry.isTo dst)).dropWhile route.fits).drop 1 := by
  induction hn : q.queue.length using Nat.strong_induction_on generalizing q forwarded with
  | _ n ih =>
    subst hn
    cases hfind : q.queue.find? (QueueEntry.isTo dst) with
    | none =>
      have hnone := List.find?_eq_none.mp hfind
      rw [List.filter_eq_nil_iff.mpr hnone, List.takeWhile_nil, List.map_nil, List.append_nil]
      exact ⟨q.queue, .here (sendPacketFromQueue_of_none hq hnone forwarded),
        List.filter_eq_nil_iff.mpr hnone⟩
    | some entry =>
      obtain ⟨hto, before, after, hsplit, hnot⟩ := List.find?_eq_some_iff_append.mp hfind
      have hbefore : ∀ e ∈ before, ¬e.isTo dst := fun e he => by simpa using hnot e he
      have hturn := sendPacketFromQueue_of_some route hq hsplit hto hbefore forwarded
      have hrest : (before ++ after).filter (QueueEntry.isTo dst) =
          after.filter (QueueEntry.isTo dst) := by
        rw [List.filter_append, List.filter_eq_nil_iff.mpr hbefore, List.nil_append]
      have hfilter : q.queue.filter (QueueEntry.isTo dst) =
          entry :: (before ++ after).filter (QueueEntry.isTo dst) := by
        rw [hrest, hsplit, List.filter_append, List.filter_eq_nil_iff.mpr hbefore,
          List.filter_cons_of_pos hto, List.nil_append]
      by_cases hfits : route.fits entry
      · rw [if_pos hfits] at hturn
        have hfresh : ∀ e ∈ before ++ after, ¬e.isExpired now := by
          intro e he
          refine hq e ?_
          rw [hsplit]
          exact ((List.sublist_cons_self entry after).append_left before).subset he
        have hshorter : (before ++ after).length < q.queue.length := by
          rw [hsplit, List.length_append, List.length_append, List.length_cons]
          omega
        obtain ⟨queue, hends, hqueue⟩ := ih _ hshorter
          (q := { q with queue := before ++ after }) hfresh (forwarded ++ [route.forward entry]) rfl
        refine ⟨queue, ?_, ?_⟩
        · rw [hfilter, List.takeWhile_cons_of_pos hfits, List.map_cons, List.append_cons]
          exact hends.again hturn
        · rw [hfilter, List.dropWhile_cons_of_pos hfits]
          exact hqueue
      · rw [if_neg hfits] at hturn
        refine ⟨before ++ after, ?_, ?_⟩
        · rw [hfilter, List.takeWhile_cons_of_neg hfits, List.map_nil, List.append_nil]
          exact .here hturn
        · rw [hfilter, List.dropWhile_cons_of_neg hfits]
          rfl

/-- What `SendPacketFromQueue` does with the entries for the destination that have not expired. -/
theorem ends_sendPacketFromQueue_purge (now : Time) (dst : Ipv4Address) (route : Ipv4Route)
    (q : RequestQueue) :
    ∃ queue, Ends (sendPacketFromQueue now dst route) ⟨q, []⟩
      ⟨{ q.purge now with queue := queue },
        (((q.purge now).queue.filter (QueueEntry.isTo dst)).takeWhile route.fits).map
          route.forward⟩ ∧
      queue.filter (QueueEntry.isTo dst) =
        (((q.purge now).queue.filter (QueueEntry.isTo dst)).dropWhile route.fits).drop 1 := by
  obtain ⟨queue, hends, hqueue⟩ :=
    ends_sendPacketFromQueue dst route (q.fresh_purge now) []
  refine ⟨queue, hends.of_turn_eq ?_, hqueue⟩
  rw [sendPacketFromQueue, sendPacketFromQueue]
  dsimp only
  rw [RequestQueue.dequeue_purge]

theorem perm_purge (now : Time) (dst : Ipv4Address) (q : RequestQueue) :
    (q.queue.filter (QueueEntry.isTo dst)).Perm
      ((q.purge now).queue.filter (QueueEntry.isTo dst) ++
        (q.queue.filter (QueueEntry.isExpired now)).filter (QueueEntry.isTo dst)) := by
  have hperm := (List.filter_append_perm (QueueEntry.isExpired now) q.queue).symm.filter
    (QueueEntry.isTo dst)
  rw [List.filter_append] at hperm
  exact hperm.trans List.perm_append_comm

theorem sendsAll_iff (now : Time) (dst : Ipv4Address) (route : Ipv4Route) (q : RequestQueue) :
    SendsAll now dst route q ↔
      ∀ e ∈ q.queue, e.isTo dst → ¬e.isExpired now → route.fits e := by
  obtain ⟨queue, hends, hqueue⟩ := ends_sendPacketFromQueue_purge now dst route q
  have hperm := perm_purge now dst q
  have hmem : ∀ e, e ∈ (q.purge now).queue.filter (QueueEntry.isTo dst) ↔
      e ∈ q.queue ∧ e.isTo dst ∧ ¬e.isExpired now := by
    intro e
    rw [RequestQueue.purge, List.mem_filter, List.mem_filter, and_assoc]
    simp only [Bool.not_eq_true, Bool.not_eq_eq_eq_not, Bool.not_true]
    rw [and_comm (a := e.isExpired now = false)]
  generalize (q.purge now).queue.filter (QueueEntry.isTo dst) = live at hends hqueue hperm hmem
  have hall : (∀ e ∈ q.queue, e.isTo dst → ¬e.isExpired now → route.fits e) ↔
      live.takeWhile route.fits = live := by
    rw [List.takeWhile_eq_self_iff]
    exact ⟨fun h e he => h e ((hmem e).mp he).1 ((hmem e).mp he).2.1 ((hmem e).mp he).2.2,
      fun h e he hto hexpired => h e ((hmem e).mpr ⟨he, hto, hexpired⟩)⟩
  rw [hall]
  constructor
  · rintro ⟨r, forwarded, dropped, hr, hforwarded, hdropped, hleft, -⟩
    obtain rfl := hends.unique hr
    -- All entries for the destination are among those that are forwarded or expired.
    obtain rfl := List.append_cancel_left hdropped
    have hlength := (hperm.symm.trans hleft).length_eq
    have hmap := congrArg List.length hforwarded
    rw [List.length_map, List.length_map] at hmap
    rw [List.length_append, List.length_append] at hlength
    exact (List.takeWhile_prefix route.fits).eq_of_length (by omega)
  · intro h
    rw [h] at hends
    refine ⟨_, live, q.queue.filter (QueueEntry.isExpired now), hends, rfl, rfl, hperm, ?_⟩
    have hdrop : live.dropWhile route.fits = [] :=
      List.dropWhile_eq_nil_iff.mpr (List.takeWhile_eq_self_iff.mp h)
    rw [hdrop] at hqueue
    exact List.filter_eq_nil_iff.mp hqueue

/-- Where no waiting packet for the destination asks for another interface than that of the route,
and only there, the queue does what it should. -/
theorem sound_and_sendsAll_iff {maxLen : ℕ} (hmaxLen : 1 ≤ maxLen) (queueTimeout : Time)
    (labels : List QueueRun.Label) (dst : Ipv4Address) (route : Ipv4Route) :
    (QueueRun.run maxLen queueTimeout labels).Sound maxLen ∧
        SendsAll (QueueRun.run maxLen queueTimeout labels).now dst route
          (QueueRun.run maxLen queueTimeout labels).queue ↔
      ∀ e ∈ (QueueRun.run maxLen queueTimeout labels).queue.queue, e.isTo dst →
        ¬e.isExpired (QueueRun.run maxLen queueTimeout labels).now → route.fits e := by
  rw [and_iff_right (QueueRun.sound_run hmaxLen queueTimeout labels)]
  exact sendsAll_iff _ dst route _

/-- Two packets of node 1 for node 9; the first is bound to an interface. -/
def twoPackets (oif : Option ℤ) : List QueueRun.Label :=
  [.enqueue ⟨⟨7, oif⟩, ⟨1, 9, 63⟩, 0⟩, .enqueue ⟨⟨8, none⟩, ⟨1, 9, 63⟩, 0⟩, .advance 5]

theorem sendsAll_twoPackets :
    (QueueRun.run 64 30 (twoPackets (some 1))).Sound 64 ∧
      SendsAll (QueueRun.run 64 30 (twoPackets (some 1))).now 9 ⟨1, 3, 1⟩
        (QueueRun.run 64 30 (twoPackets (some 1))).queue :=
  (sound_and_sendsAll_iff (by decide) 30 (twoPackets (some 1)) 9 ⟨1, 3, 1⟩).mpr (by decide)

/-- The route is over another interface: the first packet is lost, and the second one stays. -/
theorem not_sendsAll_twoPackets :
    ¬SendsAll (QueueRun.run 64 30 (twoPackets (some 2))).now 9 ⟨1, 3, 1⟩
      (QueueRun.run 64 30 (twoPackets (some 2))).queue := by
  rw [sendsAll_iff]
  decide

end Send

end Ns3Noc.Aodv
