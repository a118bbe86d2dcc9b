import Ns3Noc.NdiscEntries
import Ns3Noc.PartialRuns

/-!
# Neighbour discovery timers

Runs in which the timers of each entry match its state.
-/
namespace Ns3Noc.Ndisc

open Ipv6 KeyedTables PartialRuns

variable {Packet : Type} {interface : Interface} {unresQlen : ℕ} {cache cache' : NdiscCache Packet}
  {entry entry' : Entry Packet} {p : Packet} {src dst target : Ipv6Address} {lla : Address}

/-- Each timer runs in its state only, and three of them always do. A node that is asked for has a
packet waiting for it, and `::` is not probed. -/
structure Matched (entry : Entry Packet) : Prop where
  reachable : entry.reachableTimer = true → entry.isReachable = true
  retrans : entry.retransTimer = entry.isIncomplete
  delay : entry.delayTimer = entry.isDelay
  probe : entry.probeTimer = entry.isProbe
  waiting : entry.isIncomplete = true → entry.waiting ≠ []
  address : entry.isProbe = true → isAny entry.ipv6Address = false

theorem Matched.reachable_stopped (h : Matched entry) (hstate : entry.isReachable = false) :
    entry.reachableTimer = false := by
  rw [← Bool.not_eq_true]
  intro hrunning
  rw [h.reachable hrunning] at hstate
  cases hstate

/-- All entries match, under different addresses. -/
abbrev AllMatched (cache : NdiscCache Packet) : Prop := AllEntries Matched cache

/-- The entries stay, and REACHABLE ones stay REACHABLE. -/
def Keeps (cache cache' : NdiscCache Packet) : Prop :=
  ∀ k entry, find cache k = some entry → ∃ entry', find cache' k = some entry' ∧
    (entry.isReachable = true → entry'.isReachable = true)

theorem Keeps.refl (cache : NdiscCache Packet) : Keeps cache cache :=
  fun _ entry h => ⟨entry, h, id⟩

theorem Keeps.trans {cache'' : NdiscCache Packet} (h : Keeps cache cache')
    (h' : Keeps cache' cache'') : Keeps cache cache'' := by
  intro k entry hentry
  obtain ⟨entry', hentry', hstate'⟩ := h k entry hentry
  obtain ⟨entry'', hentry'', hstate''⟩ := h' k entry' hentry'
  exact ⟨entry'', hentry'', fun hstate => hstate'' (hstate' hstate)⟩

theorem AllMatched.keeps_putEntry (h : AllMatched cache) (hentry : find cache dst = some entry)
    (haddress : entry'.ipv6Address = dst)
    (hstate : entry.isReachable = true → entry'.isReachable = true) :
    Keeps cache (cache.putEntry entry') := by
  intro k e he
  rw [NdiscCache.putEntry, haddress]
  by_cases hk : k = dst
  · subst hk
    rw [hentry, Option.some_inj] at he
    subst he
    exact ⟨entry', find_put_self h.keys hentry entry', hstate⟩
  · rw [find_put_of_ne hk]
    exact ⟨e, he, id⟩

theorem keeps_cons (hnone : find cache dst = none) : Keeps cache ((dst, entry) :: cache) := by
  intro k e he
  have hk : k ≠ dst := by
    rintro rfl
    rw [hnone] at he
    cases he
  rw [find_cons_of_ne hk]
  exact ⟨e, he, id⟩

namespace AllMatched

/-- A lookup does not fail, and keeps the timers. -/
theorem lookup (h : AllMatched cache) (interface : Interface) (unresQlen : ℕ) (p : Packet)
    (dst : Ipv6Address) :
    ∃ cache' hardware, Ndisc.lookup interface unresQlen cache p dst = some (cache', hardware) ∧
      AllMatched cache' ∧ Keeps cache cache' := by
  rw [Ndisc.lookup]
  cases hentry : find cache dst with
  | none =>
    dsimp only
    split
    · exact ⟨cache, none, rfl, h, .refl cache⟩
    · refine ⟨_, none, rfl, h.cons hentry ?_ rfl, keeps_cons hentry⟩
      exact ⟨fun hr => Bool.noConfusion hr, rfl, rfl, rfl, fun _ => List.cons_ne_nil _ _,
        fun hp => Bool.noConfusion hp⟩
  | some entry =>
    have hm := h.of_find hentry
    have haddress := h.address_of_find hentry
    dsimp only
    split
    · exact ⟨cache, _, rfl, h, .refl cache⟩
    · split
      · next hstale =>
        have hstate : entry.state = .stale := of_decide_eq_true hstale
        have hstopped : entry.delayTimer = false := by simp [hm.delay, Entry.isDelay, hstate]
        have hreachable : entry.reachableTimer = false :=
          hm.reachable_stopped (by simp [Entry.isReachable, hstate])
        rw [Entry.startDelayTimer, hstopped, if_neg Bool.false_ne_true]
        refine ⟨_, _, rfl, h.putEntry ?_, h.keeps_putEntry hentry haddress fun hr => ?_⟩
        rotate_left
        · simp [Entry.isReachable, hstate] at hr
        constructor <;> simp [Entry.markDelay, Entry.isReachable, Entry.isIncomplete, Entry.isDelay,
          Entry.isProbe, hreachable, hm.retrans, hm.probe, hstate]
      · refine ⟨_, _, rfl, h.putEntry ?_, h.keeps_putEntry hentry haddress id⟩
        exact ⟨hm.reachable, hm.retrans, hm.delay, hm.probe,
          fun _ => List.append_ne_nil_of_right_ne_nil _ (List.cons_ne_nil _ _), hm.address⟩

theorem interfaceSend (h : AllMatched cache) (interface : Interface) (unresQlen : ℕ) (p : Packet)
    (dest : Ipv6Address) :
    ∃ cache' sent, Ndisc.interfaceSend interface unresQlen cache p dest = some (cache', sent) ∧
      AllMatched cache' ∧ Keeps cache cache' := by
  rw [Ndisc.interfaceSend]
  split
  · exact ⟨cache, [], rfl, h, .refl cache⟩
  · split
    · exact ⟨cache, _, rfl, h, .refl cache⟩
    · obtain ⟨cache', hardware, hlookup, h', hkeeps⟩ := h.lookup interface unresQlen p dest
      rw [hlookup]
      exact ⟨cache', _, rfl, h', hkeeps⟩

theorem sendAll (h : AllMatched cache) (interface : Interface) (unresQlen : ℕ) (dest : Ipv6Address)
    (waiting : List Packet) :
    ∃ cache' sent, Ndisc.sendAll interface unresQlen dest waiting cache = some (cache', sent) ∧
      AllMatched cache' ∧ Keeps cache cache' := by
  induction waiting generalizing cache with
  | nil => exact ⟨cache, [], rfl, h, .refl cache⟩
  | cons p waiting ih =>
    obtain ⟨cache₁, sent₁, hsend, h₁, hkeeps₁⟩ := h.interfaceSend interface unresQlen p dest
    obtain ⟨cache₂, sent₂, hrest, h₂, hkeeps₂⟩ := ih h₁
    rw [Ndisc.sendAll, hsend, Option.bind_some]
    dsimp only
    rw [hrest]
    exact ⟨cache₂, _, rfl, h₂, hkeeps₁.trans hkeeps₂⟩

/-- The queue of an entry that has been resolved is sent and cleared. -/
theorem sendWaiting (h : AllMatched cache) (interface : Interface) (unresQlen : ℕ)
    (entry : Entry Packet) (hold : find cache target = some entry') (haddress : entry.ipv6Address = target)
    (hentry : Matched entry) (hstate : entry.isReachable = true) (dest : Ipv6Address) :
    ∃ cache' sent,
      Ndisc.sendWaiting interface unresQlen cache entry dest = some (cache', sent) ∧
      AllMatched cache' ∧
      ∃ entry'', find cache' target = some entry'' ∧ entry''.isReachable = true := by
  have hput : AllMatched (cache.putEntry entry) := h.putEntry hentry
  have hfind := h.find_putEntry hold haddress
  obtain ⟨cache₁, sent, hsend, h₁, hkeeps⟩ :=
    hput.sendAll interface unresQlen dest entry.waiting
  obtain ⟨entry₁, hentry₁, hstate₁⟩ := hkeeps target entry hfind
  rw [Ndisc.sendWaiting, hsend, haddress]
  refine ⟨_, sent, rfl, h₁.modify (fun e he => ?_) fun _ => rfl, ?_⟩
  · have hm := h₁.of_find he
    rw [hentry₁, Option.some_inj] at he
    subst he
    have hreachable : entry₁.state = .reachable := of_decide_eq_true (hstate₁ hstate)
    refine ⟨hm.reachable, hm.retrans, hm.delay, hm.probe, fun hinc => ?_, hm.address⟩
    simp [Entry.clearWaitingPacket, Entry.isIncomplete, hreachable] at hinc
  · rw [find_modify_self, hentry₁]
    exact ⟨_, rfl, hstate₁ hstate⟩

end AllMatched

/-! ## The messages -/

/-- A new link-layer address is for an entry that is STALE. -/
def OnlyStale (cache : NdiscCache Packet) (address : Ipv6Address) (lla : Address) : Prop :=
  ∀ entry ∈ find cache address, entry.macAddress ≠ lla → entry.isStale = true

/-- A STALE entry has no timer running. -/
theorem matched_stale (hstate : entry.state = .stale) (hreachable : entry.reachableTimer = false)
    (hretrans : entry.retransTimer = false) (hdelay : entry.delayTimer = false)
    (hprobe : entry.probeTimer = false) : Matched entry := by
  constructor <;> simp [Entry.isReachable, Entry.isIncomplete, Entry.isDelay, Entry.isProbe, hstate,
    hreachable, hretrans, hdelay, hprobe]

theorem Matched.stale_stopped (hm : Matched entry) (hstale : entry.isStale = true) :
    entry.reachableTimer = false ∧ entry.retransTimer = false ∧ entry.delayTimer = false ∧
      entry.probeTimer = false := by
  have hstate : entry.state = .stale := of_decide_eq_true hstale
  refine ⟨hm.reachable_stopped ?_, hm.retrans.trans ?_, hm.delay.trans ?_, hm.probe.trans ?_⟩ <;>
    simp [Entry.isReachable, Entry.isIncomplete, Entry.isDelay, Entry.isProbe, hstate]

/-- A REACHABLE entry has the other timers stopped. -/
theorem matched_reachable (hstate : entry.state = .reachable)
    (hretrans : entry.retransTimer = false) (hdelay : entry.delayTimer = false)
    (hprobe : entry.probeTimer = false) : Matched entry := by
  constructor <;> simp [Entry.isReachable, Entry.isIncomplete, Entry.isDelay, Entry.isProbe, hstate,
    hretrans, hdelay, hprobe]

namespace AllMatched

theorem sourceLinkLayer (h : AllMatched cache) (hok : OnlyStale cache src lla) :
    AllMatched (Ndisc.sourceLinkLayer cache src lla) := by
  rw [Ndisc.sourceLinkLayer]
  cases hentry : find cache src with
  | none =>
    refine h.cons hentry ?_ rfl
    exact matched_stale rfl rfl rfl rfl rfl
  | some entry =>
    dsimp only
    split
    · next hmac =>
      obtain ⟨hr, hx, hd, hp⟩ := (h.of_find hentry).stale_stopped (hok entry hentry hmac)
      exact h.putEntry (matched_stale rfl hr hx hd hp)
    · exact h

theorem handleRedirection (h : AllMatched cache) (hok : OnlyStale cache target lla)
    (destination : Ipv6Address) :
    AllMatched (Ndisc.handleRedirection cache target destination (some lla)) := by
  rw [Ndisc.handleRedirection]
  dsimp only
  cases hentry : find cache target with
  | none =>
    refine h.cons hentry ?_ rfl
    exact matched_stale rfl rfl rfl rfl rfl
  | some entry =>
    dsimp only
    split
    · split
      · next hmac =>
        obtain ⟨hr, hx, hd, hp⟩ := (h.of_find hentry).stale_stopped (hok entry hentry hmac)
        exact h.putEntry (matched_stale rfl hr hx hd hp)
      · exact h
    · exact h

theorem receiveLLA (h : AllMatched cache) (interface : Interface) (unresQlen : ℕ)
    (hok : ∀ entry ∈ find cache src, entry.isIncomplete = false → entry.macAddress ≠ lla →
      entry.isStale = true) :
    ∃ cache' sent, Ndisc.receiveLLA interface unresQlen cache src lla = some (cache', sent) ∧
      AllMatched cache' := by
  rw [Ndisc.receiveLLA]
  cases hentry : find cache src with
  | none =>
    exact ⟨_, [], rfl, h.cons hentry (matched_reachable rfl rfl rfl rfl) rfl⟩
  | some entry =>
    have hm := h.of_find hentry
    have haddress := h.address_of_find hentry
    dsimp only
    split
    · next hinc =>
      have hstate : entry.state = .incomplete := of_decide_eq_true hinc
      have hdelay : entry.delayTimer = false := by simp [hm.delay, Entry.isDelay, hstate]
      have hprobe : entry.probeTimer = false := by simp [hm.probe, Entry.isProbe, hstate]
      obtain ⟨cache', sent, hsend, h', -⟩ := h.sendWaiting interface unresQlen
        (entry.stopRetransmitTimer.markReachableMac lla).restartReachableTimer hentry haddress
        (matched_reachable rfl rfl hdelay hprobe) rfl src
      exact ⟨cache', sent, hsend, h'⟩
    · next hinc =>
      have hknown : entry.isIncomplete = false := Bool.eq_false_iff.mpr hinc
      have hretrans : entry.retransTimer = false := hm.retrans.trans hknown
      split
      · next hmac =>
        obtain ⟨hr, hx, hd, hp⟩ := hm.stale_stopped (hok entry hentry hknown hmac)
        exact ⟨_, [], rfl, h.putEntry (matched_stale rfl hr hx hd hp)⟩
      · split
        · refine ⟨_, _, rfl, ?_⟩
          dsimp only
          rw [putEntry_putEntry]
          · exact h.putEntry (matched_reachable rfl hretrans rfl rfl)
          · rfl
        · exact ⟨cache, [], rfl, h⟩

/-- An entry whose other timers are stopped is made REACHABLE. -/
theorem confirm (h : AllMatched cache) (interface : Interface) (unresQlen : ℕ)
    (hold : find cache target = some entry') (haddress : entry.ipv6Address = target)
    (hretrans : entry.retransTimer = false) (hdelay : entry.delayTimer = false)
    (hprobe : entry.probeTimer = false) (lla : Address) (src : Ipv6Address) :
    ∃ cache' sent,
      Ndisc.confirm interface unresQlen cache entry lla src = some (cache', sent) ∧
      AllMatched cache' ∧
      ∃ entry'', find cache' target = some entry'' ∧ entry''.isReachable = true := by
  rw [Ndisc.confirm]
  split
  · next hreachable =>
    have hstate : entry.state = .reachable := of_decide_eq_true hreachable
    exact ⟨_, [], rfl, h.putEntry (matched_reachable hstate hretrans hdelay hprobe), entry,
      h.find_putEntry hold haddress, hreachable⟩
  · split
    · exact h.sendWaiting interface unresQlen (entry.markReachableMac lla) hold haddress
        (matched_reachable rfl hretrans hdelay hprobe) rfl src
    · exact ⟨_, [], rfl, h.putEntry (matched_reachable rfl hretrans hdelay hprobe), _,
        h.find_putEntry hold haddress, rfl⟩

theorem handleNA (h : AllMatched cache) (interface : Interface) (unresQlen : ℕ)
    {naHeader : NAHeader}
    (hok : ∀ entry ∈ find cache naHeader.target, entry.isIncomplete = false →
      if naHeader.flagO = false ∧ lla ≠ entry.macAddress then entry.isStale = true
      else naHeader.flagS = true ∨ entry.isReachable = true ∨ entry.isStale = true) :
    ∃ cache' sent,
      Ndisc.handleNA interface unresQlen cache src naHeader (some lla) = some (cache', sent) ∧
      AllMatched cache' := by
  unfold Ndisc.handleNA
  cases hentry : find cache naHeader.target with
  | none => exact ⟨cache, [], rfl, h⟩
  | some entry =>
    have hm := h.of_find hentry
    have haddress := h.address_of_find hentry
    have hset : ∀ {cache' : NdiscCache Packet}, AllMatched cache' → ∀ router : Bool,
        AllMatched (KeyedTables.modify cache' naHeader.target (·.setRouter router)) := by
      intro cache' h' router
      refine h'.modify (fun e he => ?_) fun _ => rfl
      have hm' := h'.of_find he
      exact ⟨hm'.reachable, hm'.retrans, hm'.delay, hm'.probe, hm'.waiting, hm'.address⟩
    dsimp only
    split
    · next hinc =>
      have hstate : entry.state = .incomplete := of_decide_eq_true hinc
      have hreachable : entry.reachableTimer = false :=
        hm.reachable_stopped (by simp [Entry.isReachable, hstate])
      have hdelay : entry.delayTimer = false := by simp [hm.delay, Entry.isDelay, hstate]
      have hprobe : entry.probeTimer = false := by simp [hm.probe, Entry.isProbe, hstate]
      have hrouter : ∀ {cache' : NdiscCache Packet}, AllMatched cache' →
          AllMatched (if naHeader.flagR = true then
            KeyedTables.modify cache' naHeader.target (·.setRouter true) else cache') := by
        intro cache' h'
        split
        · exact hset h' true
        · exact h'
      split
      · obtain ⟨cache', sent, hsend, h', -⟩ := h.sendWaiting interface unresQlen
          (entry.stopRetransmitTimer.markReachableMac lla).restartReachableTimer hentry haddress
          (matched_reachable rfl rfl hdelay hprobe) rfl src
        refine ⟨_, sent, ?_, hrouter h'⟩
        rw [Entry.startReachableTimer_stop, Option.bind_some, hsend]
        rfl
      · refine ⟨_, [], rfl, hrouter (h.putEntry ?_)⟩
        exact matched_stale rfl hreachable rfl hdelay hprobe
    · next hinc =>
      have hknown : entry.isIncomplete = false := Bool.eq_false_iff.mpr hinc
      have hretrans : entry.retransTimer = false := hm.retrans.trans hknown
      have hok := hok entry hentry hknown
      split
      · next hnew =>
        rw [Bool.and_eq_true, Bool.not_eq_true', decide_eq_true_eq] at hnew
        have hnew : naHeader.flagO = false ∧ lla ≠ entry.macAddress := hnew
        rw [if_pos hnew] at hok
        obtain ⟨hr, hx, -, -⟩ := hm.stale_stopped hok
        refine ⟨_, [], rfl, h.putEntry ?_⟩
        split
        · exact matched_stale rfl hr hx rfl rfl
        · exact matched_stale (of_decide_eq_true hok) hr hx rfl rfl
      · next hnew =>
        rw [Bool.and_eq_true, Bool.not_eq_true', decide_eq_true_eq] at hnew
        have hnew : ¬(naHeader.flagO = false ∧ lla ≠ entry.macAddress) := hnew
        rw [if_neg hnew] at hok
        split
        · have haddress₂ : (entry.stopProbeTimer.stopDelayTimer.setMacAddress lla).ipv6Address =
              naHeader.target := haddress
          obtain ⟨cache₁, sent, hmarked, h₁, entry₁, hentry₁, hreachable⟩ :=
            h.confirm interface unresQlen hentry haddress₂ hretrans rfl rfl lla src
          rw [hmarked, Option.bind_some]
          dsimp only
          rw [hentry₁]
          refine ⟨_, sent, rfl, hset (h₁.putEntry ?_) _⟩
          have hm₁ := h₁.of_find hentry₁
          have hstate₁ : entry₁.state = .reachable := of_decide_eq_true hreachable
          refine matched_reachable hstate₁ (hm₁.retrans.trans ?_) (hm₁.delay.trans ?_)
            (hm₁.probe.trans ?_) <;>
              simp [Entry.isIncomplete, Entry.isDelay, Entry.isProbe, hstate₁]
        · next hflag =>
          have hsettled := hok.resolve_left hflag
          have hmatched : Matched ((entry.stopProbeTimer.stopDelayTimer).setMacAddress lla) := by
            rcases hsettled with hreachable | hstale
            · exact matched_reachable (of_decide_eq_true hreachable) hretrans rfl rfl
            · obtain ⟨hr, hx, -, -⟩ := hm.stale_stopped hstale
              exact matched_stale (of_decide_eq_true hstale) hr hx rfl rfl
          split
          · next hne => exact absurd rfl hne
          · exact ⟨_, [], rfl, hset (h.putEntry hmatched) _⟩

end AllMatched

end Ns3Noc.Ndisc
