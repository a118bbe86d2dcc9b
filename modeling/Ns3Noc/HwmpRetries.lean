import Ns3Noc.HwmpQueueSteps

/-!
# Retries of a path discovery

A retry that finds a path ends the discovery, the last one gives the packets back, and any other one
sends the next request.
-/
namespace Ns3Noc.Hwmp.HwmpProtocol

open PartialActs HwmpRtable

/-! ## Lookups -/

theorem lookupPath_eq (d : Address) (s : HwmpProtocol) :
    lookupPath d s = some (if (s.rtable.lookupReactive s.now d).retransmitter = none then
      (s.rtable.lookupProactive s.now, { s with rtable := s.rtable.expireProactive s.now })
      else (s.rtable.lookupReactive s.now d, s)) := by
  have hunfold : lookupPath d s =
      (if (s.rtable.lookupReactive s.now d).retransmitter = none then lookupProactive
        else pure (s.rtable.lookupReactive s.now d) : Do LookupResult) s := rfl
  rw [hunfold]
  split
  · rfl
  · rfl

/-- A path is found where there is one; only an expired path to the root is lost. -/
theorem lookupPath_spec {w : Work} (d : Address) (s₀ : HwmpProtocol) :
    Triple (fun s => s = s₀ ∧ Inv w s) (lookupPath d) fun result s =>
      Inv w s ∧ (result.retransmitter = none ↔ s₀.rtable.Unresolved s₀.now d) ∧
      (result.retransmitter = none → s.rtable.Unresolved s.now d) ∧
      ∃ t, s = { s₀ with rtable := t } := by
  constructor
  rintro s ⟨rfl, hs⟩ result s' hr
  rw [lookupPath_eq] at hr
  by_cases hreactive : (s.rtable.lookupReactive s.now d).retransmitter = none
  · rw [if_pos hreactive] at hr
    obtain ⟨rfl, rfl⟩ := Prod.mk.inj (Option.some.inj hr)
    have hoffers := offers_expireProactive s.rtable s.now
    refine ⟨hs.table hoffers, ⟨fun h => ⟨hreactive, h⟩, fun h => h.2⟩, fun h => ?_, _, rfl⟩
    exact hoffers.unresolved ⟨hreactive, h⟩
  · rw [if_neg hreactive] at hr
    obtain ⟨rfl, rfl⟩ := Prod.mk.inj (Option.some.inj hr)
    exact ⟨hs, ⟨fun h => absurd h hreactive, fun h => absurd h.1 hreactive⟩,
      fun h => absurd h hreactive, _, rfl⟩

/-! ## Retries -/

/-- A request is sent and its retry scheduled, where no retry for the destination is pending. -/
theorem Inv.request {w : Work} {s : HwmpProtocol} (hs : Inv w s) {d : Address}
    (hretried : ∀ d' entry, w.retried = some (d', entry) → d' = d)
    (hnone : ∀ event ∈ s.events, event.dst ≠ d) {delay whenScheduled sent : ℕ}
    (hqueued : ∀ p ∈ s.rqueue, p.dst = d → ∀ q time, .queued q time ∈ s.calls →
      q.reply = p.reply → whenScheduled ≤ time)
    (hnow : whenScheduled ≤ s.now) (hpos : 0 < sent)
    (hsent : sent ≤ s.attributes.maxPreqRetries + 1)
    (htime : s.now + delay ≤
      whenScheduled + retryTime s.attributes.netDiameterTraversalTime sent)
    (hwmpSeqno drawn originatorSeqno dstSeqno : ℕ) :
    Inv { w with retried := none }
      { s with
        hwmpSeqno := hwmpSeqno
        drawn := drawn
        events := s.events ++ [⟨s.nextEvent, s.now + delay, d, sent % 256⟩]
        preqTimeouts :=
          Function.update s.preqTimeouts d (some ⟨s.nextEvent, whenScheduled, sent⟩)
        nextEvent := s.nextEvent + 1
        calls := s.calls ++
          s.attributes.interfaces.map fun i => .requestDestination i d originatorSeqno dstSeqno } := by
  have hquiet : ∀ c ∈ s.attributes.interfaces.map
      fun i => Call.requestDestination i d originatorSeqno dstSeqno, quiet c := by
    intro c hmem
    obtain ⟨i, -, rfl⟩ := List.mem_map.mp hmem
    rfl
  have hsched := hs.schedule hretried hnone hqueued hnow hpos hsent rfl htime
  exact (hsched.counters hwmpSeqno drawn s.preqId s.hwmpSeqnoMetricDatabase).calls hquiet

/-- Packets that wait for a destination were queued after its discovery began. -/
theorem Inv.queued_after {w : Work} {s : HwmpProtocol} (hs : Inv w s) {d : Address}
    {entry : PreqEvent} (he : s.preqTimeouts d = some entry) :
    ∀ p ∈ s.rqueue, p.dst = d → ∀ q time, .queued q time ∈ s.calls → q.reply = p.reply →
      entry.whenScheduled ≤ time := by
  rintro p hp rfl
  obtain ⟨entry', he', htime⟩ := hs.discovered p hp
  obtain rfl := Option.some.inj (he.symm.trans he')
  exact htime

abbrev Work.retrying (d : Address) (entry : PreqEvent) : Work :=
  { Work.none with retried := some (d, entry) }

theorem Inv.not_pending {d : Address} {entry : PreqEvent} {s : HwmpProtocol}
    (hs : Inv (.retrying d entry) s) : ∀ event ∈ s.events, event.dst ≠ d := by
  rintro event hmem rfl
  exact (hs.entered event hmem).2.1 rfl

/-- The next request of a discovery, and its retry -/
theorem retry_spec {s₀ : HwmpProtocol} {d : Address} {entry : PreqEvent} {n dstSeqno : ℕ}
    (hs : Inv (.retrying d entry) s₀) (hn : n = entry.sent) (hlt : n < 256)
    (hle : n ≤ s₀.attributes.maxPreqRetries) :
    Triple (fun s => s = s₀) (do
      let originatorSeqno ← getNextHwmpSeqno
      requestDestination d originatorSeqno dstSeqno
      scheduleRetry (2 * ((n + 1) % 256 + 1) * s₀.attributes.netDiameterTraversalTime) d
        ((n + 1) % 256) fun id => ⟨id, entry.whenScheduled, entry.sent + 1⟩) fun _ => Inv .none := by
  constructor
  rintro s rfl _ s' hr
  obtain ⟨-, rfl⟩ := Prod.mk.inj (Option.some.inj hr)
  subst hn
  obtain ⟨he, hnow⟩ := hs.retried d entry rfl
  obtain ⟨hpos, -, hwhen⟩ := hs.sent d entry he
  have hdelay : s.now + 2 * ((entry.sent + 1) % 256 + 1) * s.attributes.netDiameterTraversalTime ≤
      entry.whenScheduled +
        retryTime s.attributes.netDiameterTraversalTime (entry.sent + 1) := by
    rw [retryTime_succ _ _ hpos, ← Nat.add_assoc]
    apply Nat.add_le_add hnow
    apply Nat.mul_le_mul_right
    have hmod := Nat.mod_le (entry.sent + 1) 256
    omega
  have h := hs.request (fun d' entry' heq => (Prod.mk.inj (Option.some.inj heq)).1.symm)
    hs.not_pending (hs.queued_after he) hwhen (Nat.succ_pos entry.sent) (Nat.succ_le_succ hle) hdelay
    (uint32 (s.hwmpSeqno + 1)) (s.drawn + 1) (uint32 (s.hwmpSeqno + 1)) dstSeqno
  simp only [Function.update_idem]
  exact h

theorem eraseTimeout_spec (d : Address) (entry : PreqEvent) :
    Triple (fun s => Inv (.retrying d entry) s ∧ ∀ p ∈ s.rqueue, p.dst ≠ d) (eraseTimeout d)
      fun _ => Inv .none := by
  apply Triple.modify
  rintro s ⟨hs, hqueue⟩
  exact hs.eraseTimeout rfl hqueue

/-- The last retry: the packets that wait are given back. -/
theorem purge_spec (d : Address) (entry : PreqEvent) (time : ℕ) :
    Triple (Inv (.retrying d entry)) (do
      flush (dequeueFirstPacketByDst d) (reply false id maxMetric)
      call (.routeDiscoveryTime time)
      eraseTimeout d) fun _ => Inv .none := by
  apply Triple.bind (flush_byDst d fun _ _ => rfl)
  intro _
  refine Triple.bind (R := fun _ s => Inv (.retrying d entry) s ∧ ∀ p ∈ s.rqueue, p.dst ≠ d) ?_
    fun _ => eraseTimeout_spec d entry
  apply Triple.modify
  rintro s ⟨hs, hqueue⟩
  have hquiet : ∀ c ∈ [Call.routeDiscoveryTime time], quiet c := by simp [quiet]
  exact ⟨(hs.resolved_mono fun p _ hp => hp.1).calls hquiet, hqueue⟩

theorem retryPathDiscovery_spec {s₀ : HwmpProtocol} {d : Address} {entry : PreqEvent} {n : ℕ}
    (hs : Inv (.retrying d entry) s₀) (hn : n = entry.sent % 256)
    (hwrap : s₀.rtable.Unresolved s₀.now d → n ≠ 0) :
    Triple (fun s => s = s₀) (retryPathDiscovery d n) fun _ => Inv .none := by
  have hfrom : ∀ s, s = s₀ → s = s₀ ∧ Inv (.retrying d entry) s := fun s heq => ⟨heq, heq ▸ hs⟩
  have hlookup := (lookupPath_spec (w := .retrying d entry) d s₀).pre hfrom
  apply Triple.bind hlookup
  intro result
  apply Triple.of_state
  rintro s ⟨hs', hresult, -, t, hstate⟩
  apply Triple.get_bind
  intro s₁
  apply Triple.of_state
  rintro s₂ ⟨h₁, h₂⟩
  obtain rfl : s = s₁ := h₂.symm.trans h₁
  obtain rfl : s = s₂ := h₂.symm
  obtain ⟨he, hnow⟩ := hs'.retried d entry rfl
  obtain ⟨hpos, hsent, -⟩ := hs'.sent d entry he
  simp only [he]
  apply Triple.ite
  · intro hpath
    refine (eraseTimeout_spec d entry).pre ?_
    rintro _ rfl
    refine ⟨hs', fun p hp hdst => ?_⟩
    have hun := (hs.unresolved p (by rw [hstate] at hp; exact hp)).resolve_left id
    exact hpath (hresult.mpr (hdst ▸ hun))
  intro hnone
  have hun := hresult.mp (not_not.mp hnone)
  apply Triple.ite
  · intro _
    refine (purge_spec d entry _).pre ?_
    rintro _ rfl
    exact hs'
  · intro hle
    have hne := hwrap hun
    have hmax := s.attributes.maxPreqRetries_lt
    exact retry_spec hs' (by omega) (by omega) (by omega)

/-- A retry of the number 0 must find a path. -/
theorem fireRetry_spec {s₀ : HwmpProtocol} {id : ℕ} (hs : Inv .none s₀)
    (hok : ∀ event ∈ s₀.events, event.id = id → event.time = s₀.now →
      s₀.rtable.Unresolved s₀.now event.dst → event.numOfRetry ≠ 0) :
    Triple (fun s => s = s₀) (fireRetry id) fun _ => Inv .none := by
  apply Triple.get_bind
  intro s
  apply Triple.of_state
  rintro s₁ ⟨h₁, h₂⟩
  obtain rfl : s₀ = s := h₂.symm.trans h₁
  obtain rfl : s₀ = s₁ := h₂.symm
  split
  · exact Triple.failure
  rename_i event hfind
  have hmem := List.mem_of_find?_eq_some hfind
  have hid : event.id = id := by simpa using List.find?_some hfind
  refine Triple.bind (R := fun _ s => s = s₀ ∧ event.time = s₀.now) ?_ fun _ => ?_
  · apply Triple.get_bind
    intro s
    apply Triple.ite
    · intro htime
      apply Triple.pure
      rintro s' ⟨rfl, rfl⟩
      exact ⟨rfl, of_decide_eq_true htime⟩
    · exact fun _ => Triple.failure
  · apply Triple.of_state
    rintro s ⟨rfl, hnow⟩
    obtain ⟨entry, -, hn, hfire⟩ := hs.fire hmem hnow
    refine Triple.bind (R := fun _ s' => s' = { s with events := s.events.filter (·.id ≠ id) }) ?_
      fun _ => ?_
    · apply Triple.modify
      rintro s' rfl
      rfl
    · rw [hid] at hfire
      exact retryPathDiscovery_spec hfire hn fun hun => hok event hmem hid hnow hun

theorem tick_spec (duration : ℕ) :
    Triple (Inv .none) (tick duration) fun _ => Inv .none := by
  refine Triple.bind (R := fun _ s => Inv .none s ∧ ∀ event ∈ s.events, s.now + duration ≤ event.time)
    ?_ fun _ => ?_
  · apply Triple.get_bind
    intro s₀
    apply Triple.ite
    · intro hevents
      apply Triple.pure
      rintro s ⟨rfl, hs⟩
      exact ⟨hs, by simpa using hevents⟩
    · exact fun _ => Triple.failure
  · apply Triple.modify
    rintro s ⟨hs, hevents⟩
    exact hs.tick hevents

end Ns3Noc.Hwmp.HwmpProtocol
