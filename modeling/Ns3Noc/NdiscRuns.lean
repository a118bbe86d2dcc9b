import Ns3Noc.NdiscTimers

/-!
# Runs of the neighbour discovery cache

Lookups, messages and timers, in any order.
-/
namespace Ns3Noc.Ndisc

open Ipv6 KeyedTables PartialRuns

variable {Packet : Type} {interface : Interface} {unresQlen : ℕ} {cache : NdiscCache Packet}
  {entry : Entry Packet} {src address : Ipv6Address}

namespace AllMatched

theorem handleRS (h : AllMatched cache) {lla : Option Address}
    (hok : isAny src = false → ∀ mac ∈ lla, OnlyStale cache src mac) :
    AllMatched (Ndisc.handleRS cache src lla) := by
  unfold Ndisc.handleRS
  split
  · exact h
  · next hany =>
    cases lla with
    | none => exact h
    | some mac => exact h.sourceLinkLayer (hok (Bool.eq_false_iff.mpr hany) mac rfl)

theorem handleNS (h : AllMatched cache) (interface : Interface) (unresQlen : ℕ)
    {target : Ipv6Address} {lla : Option Address} {ownProbe : Bool} (reply : Packet)
    (hok : target ∈ interface.addresses → ownProbe = false → isAny src = false →
      ∀ mac ∈ lla, OnlyStale cache src mac) :
    ∃ cache' sent,
      Ndisc.handleNS interface unresQlen cache src target lla ownProbe reply = some (cache', sent) ∧
      AllMatched cache' := by
  unfold Ndisc.handleNS
  split
  · exact ⟨cache, [], rfl, h⟩
  · next htarget =>
    have hown : target ∈ interface.addresses ∧ ownProbe = false := by simpa using htarget
    obtain ⟨hmem, hprobe⟩ := hown
    split
    · obtain ⟨cache', sent, hsend, h', -⟩ :=
        h.interfaceSend interface unresQlen reply allNodesMulticast
      exact ⟨cache', sent, hsend, h'⟩
    · next hany =>
      cases lla with
      | none => exact ⟨cache, [], rfl, h⟩
      | some mac =>
        have hstale := hok hmem hprobe (Bool.eq_false_iff.mpr hany) mac rfl
        obtain ⟨cache', sent, hsend, h', -⟩ :=
          (h.sourceLinkLayer hstale).interfaceSend interface unresQlen reply src
        exact ⟨cache', sent, hsend, h'⟩

/-! ## The timers -/

/-- The function of a timer is called for an entry of the cache whose timer is running. -/
theorem runTimer (h : AllMatched cache) (address : Ipv6Address) {timer : Entry Packet → Bool}
    {function : Entry Packet → Option (NdiscCache Packet)}
    (hfunction : ∀ entry, find cache address = some entry → timer entry = true →
      ∃ cache', function entry = some cache' ∧ AllMatched cache') :
    ∃ cache' sent, Ndisc.runTimer cache address timer function = some (cache', sent) ∧
      AllMatched cache' := by
  rw [Ndisc.runTimer]
  cases hentry : find cache address with
  | none => exact ⟨cache, [], rfl, h⟩
  | some entry =>
    dsimp only
    split
    · next hrunning =>
      obtain ⟨cache', hcache', h'⟩ := hfunction entry hentry hrunning
      rw [hcache']
      exact ⟨cache', [], rfl, h'⟩
    · exact ⟨cache, [], rfl, h⟩

theorem functionReachableTimeout (h : AllMatched cache) (hentry : find cache address = some entry)
    (hrunning : entry.reachableTimer = true) :
    AllMatched (Ndisc.functionReachableTimeout cache entry) := by
  have hm := h.of_find hentry
  have hstate : entry.state = .reachable := of_decide_eq_true (hm.reachable hrunning)
  refine h.putEntry (matched_stale rfl rfl (hm.retrans.trans ?_) (hm.delay.trans ?_)
    (hm.probe.trans ?_)) <;> simp [Entry.isIncomplete, Entry.isDelay, Entry.isProbe, hstate]

theorem functionRetransmitTimeout (h : AllMatched cache) (interface : Interface)
    (hentry : find cache address = some entry) (hrunning : entry.retransTimer = true) :
    ∃ cache', Ndisc.functionRetransmitTimeout interface cache entry = some cache' ∧
      AllMatched cache' := by
  have hm := h.of_find hentry
  have hinc : entry.isIncomplete = true := hm.retrans.symm.trans hrunning
  rw [Ndisc.functionRetransmitTimeout]
  dsimp only
  split
  · exact ⟨_, rfl, h.remove _⟩
  · split
    · refine ⟨_, rfl, h.putEntry ?_⟩
      exact ⟨hm.reachable, hinc.symm, hm.delay, hm.probe, hm.waiting, hm.address⟩
    · -- the error takes the first packet of the queue
      obtain ⟨p, waiting, hwaiting⟩ := List.exists_cons_of_ne_nil (hm.waiting hinc)
      rw [hwaiting]
      exact ⟨_, rfl, h.remove _⟩

/-- An entry of another address than `::` whose probe timer is started is in PROBE. -/
theorem matched_probe (hstate : entry.state = .probe) (hreachable : entry.reachableTimer = false)
    (hretrans : entry.retransTimer = false) (hdelay : entry.delayTimer = false)
    (hprobe : entry.probeTimer = true) (haddress : isAny entry.ipv6Address = false) :
    Matched entry := by
  constructor <;> simp [Entry.isReachable, Entry.isIncomplete, Entry.isDelay, Entry.isProbe, hstate,
    hreachable, hretrans, hdelay, hprobe, haddress]

theorem functionDelayTimeout (h : AllMatched cache) (interface : Interface)
    (hentry : find cache address = some entry) (hrunning : entry.delayTimer = true)
    (hany : isAny entry.ipv6Address = false) :
    ∃ cache', Ndisc.functionDelayTimeout interface cache entry = some cache' ∧
      AllMatched cache' := by
  have hm := h.of_find hentry
  have hstate : entry.state = .delay := of_decide_eq_true (hm.delay.symm.trans hrunning)
  have hreachable : entry.reachableTimer = false :=
    hm.reachable_stopped (by simp [Entry.isReachable, hstate])
  have hretrans : entry.retransTimer = false := by simp [hm.retrans, Entry.isIncomplete, hstate]
  have hprobe : entry.probeTimer = false := by simp [hm.probe, Entry.isProbe, hstate]
  rw [Ndisc.functionDelayTimeout]
  split
  · exact ⟨_, rfl, h.remove _⟩
  · rw [if_neg (by simp [Entry.markProbe, hany]), Entry.startProbeTimer,
      if_neg (by simp [Entry.incNSRetransmit, Entry.resetNSRetransmit, Entry.markProbe, hprobe])]
    exact ⟨_, rfl, h.putEntry (matched_probe rfl hreachable hretrans rfl rfl hany)⟩

theorem functionProbeTimeout (h : AllMatched cache) (interface : Interface)
    (hentry : find cache address = some entry) (hrunning : entry.probeTimer = true) :
    ∃ cache', Ndisc.functionProbeTimeout interface cache entry = some cache' ∧
      AllMatched cache' := by
  have hm := h.of_find hentry
  have hprobe : entry.isProbe = true := hm.probe.symm.trans hrunning
  have hany := hm.address hprobe
  rw [Ndisc.functionProbeTimeout]
  split
  · split
    · exact ⟨_, rfl, h.remove _⟩
    · rw [if_neg (by simp [hany])]
      refine ⟨_, rfl, h.putEntry ?_⟩
      exact ⟨hm.reachable, hm.retrans, hm.delay, hprobe.symm, hm.waiting, hm.address⟩
  · exact ⟨_, rfl, h.remove _⟩

end AllMatched

/-! ## Runs -/

/-- A message does not change the link-layer address of an entry that is not STALE, except for a
reply to a solicitation; an advertisement for a DELAY or PROBE entry confirms it; and `::` is not
about to be probed. -/
def KeepsTimers (cache : NdiscCache Packet) : NdiscEvent Packet → Prop
  | .rs src lla => isAny src = false → ∀ mac ∈ lla, OnlyStale cache src mac
  | .ns interface src target lla ownProbe _ =>
    target ∈ interface.addresses → ownProbe = false → isAny src = false →
      ∀ mac ∈ lla, OnlyStale cache src mac
  | .redirect redirTarget _ lla => ∀ mac ∈ lla, OnlyStale cache redirTarget mac
  | .ra _ src lla => ∀ mac ∈ lla, ∀ entry ∈ find cache src, entry.isIncomplete = false →
      entry.macAddress ≠ mac → entry.isStale = true
  | .na _ _ naHeader lla => ∀ mac ∈ lla, ∀ entry ∈ find cache naHeader.target,
      entry.isIncomplete = false →
        if naHeader.flagO = false ∧ mac ≠ entry.macAddress then entry.isStale = true
        else naHeader.flagS = true ∨ entry.isReachable = true ∨ entry.isStale = true
  | .delayTimeout _ address => ∀ entry ∈ find cache address, entry.delayTimer = true →
      isAny entry.ipv6Address = false
  | _ => True

instance (cache : NdiscCache Packet) (address : Ipv6Address) (lla : Address) :
    Decidable (OnlyStale cache address lla) :=
  inferInstanceAs (Decidable (∀ entry ∈ find cache address, entry.macAddress ≠ lla →
    entry.isStale = true))

instance (cache : NdiscCache Packet) (event : NdiscEvent Packet) :
    Decidable (KeepsTimers cache event) :=
  match event with
  | .lookup .. | .reachableTimeout .. | .retransmitTimeout .. | .probeTimeout .. => .isTrue trivial
  | .rs src lla => inferInstanceAs (Decidable (isAny src = false → ∀ mac ∈ lla,
      OnlyStale cache src mac))
  | .ns interface src target lla ownProbe _ => inferInstanceAs (Decidable
      (target ∈ interface.addresses → ownProbe = false → isAny src = false →
        ∀ mac ∈ lla, OnlyStale cache src mac))
  | .redirect redirTarget _ lla =>
    inferInstanceAs (Decidable (∀ mac ∈ lla, OnlyStale cache redirTarget mac))
  | .ra _ src lla => inferInstanceAs (Decidable (∀ mac ∈ lla, ∀ entry ∈ find cache src,
      entry.isIncomplete = false → entry.macAddress ≠ mac → entry.isStale = true))
  | .na _ _ naHeader lla => inferInstanceAs (Decidable (∀ mac ∈ lla,
      ∀ entry ∈ find cache naHeader.target, entry.isIncomplete = false →
        if naHeader.flagO = false ∧ mac ≠ entry.macAddress then entry.isStale = true
        else naHeader.flagS = true ∨ entry.isReachable = true ∨ entry.isStale = true))
  | .delayTimeout _ address => inferInstanceAs (Decidable (∀ entry ∈ find cache address,
      entry.delayTimer = true → isAny entry.ipv6Address = false))

/-- The cache after an event. -/
def advance (unresQlen : ℕ) (cache : NdiscCache Packet) (event : NdiscEvent Packet) :
    Option (NdiscCache Packet) :=
  (step unresQlen cache event).map Prod.fst

theorem AllMatched.step (h : AllMatched cache) (unresQlen : ℕ) {event : NdiscEvent Packet}
    (hok : KeepsTimers cache event) :
    ∃ cache' sent, Ndisc.step unresQlen cache event = some (cache', sent) ∧ AllMatched cache' := by
  cases event with
  | lookup interface p dst =>
    obtain ⟨cache', hardware, hlookup, h', -⟩ := h.lookup interface unresQlen p dst
    rw [Ndisc.step, hlookup]
    exact ⟨cache', _, rfl, h'⟩
  | rs src lla => exact ⟨_, [], rfl, h.handleRS hok⟩
  | ns interface src target lla ownProbe reply =>
    exact h.handleNS interface unresQlen reply hok
  | na interface src naHeader lla =>
    cases lla with
    | none =>
      refine ⟨cache, [], ?_, h⟩
      change Ndisc.handleNA interface unresQlen cache src naHeader none = _
      unfold Ndisc.handleNA
      cases find cache naHeader.target <;> rfl
    | some mac => exact h.handleNA interface unresQlen (hok mac rfl)
  | ra interface src lla =>
    cases lla with
    | none => exact ⟨cache, [], rfl, h⟩
    | some mac => exact h.receiveLLA interface unresQlen (hok mac rfl)
  | redirect redirTarget redirDestination lla =>
    cases lla with
    | none => exact ⟨cache, [], rfl, h⟩
    | some mac => exact ⟨_, [], rfl, h.handleRedirection (hok mac rfl) redirDestination⟩
  | reachableTimeout address =>
    exact h.runTimer address fun entry hentry hrunning =>
      ⟨_, rfl, h.functionReachableTimeout hentry hrunning⟩
  | retransmitTimeout interface address =>
    exact h.runTimer address fun entry => h.functionRetransmitTimeout interface
  | delayTimeout interface address =>
    exact h.runTimer address fun entry hentry hrunning =>
      h.functionDelayTimeout interface hentry hrunning (hok entry hentry hrunning)
  | probeTimeout interface address =>
    exact h.runTimer address fun entry => h.functionProbeTimeout interface

/-- An entry that waits for something has the timer running that ends the wait. -/
def Watched (entry : Entry Packet) : Prop :=
  (entry.isIncomplete = true → entry.retransTimer = true) ∧
    (entry.isDelay = true → entry.delayTimer = true) ∧
    (entry.isProbe = true → entry.probeTimer = true)

instance : DecidablePred (@Watched Packet) :=
  fun _ => inferInstanceAs (Decidable (_ ∧ _))

/-- No running timer is scheduled in such a run, and no entry is stuck. -/
theorem AllMatched.run_watched (unresQlen : ℕ) {events : List (NdiscEvent Packet)}
    (hok : Allowed (advance unresQlen) KeepsTimers [] events) :
    ∃ cache : NdiscCache Packet, run (advance unresQlen) [] events = some cache ∧
      ∀ dst entry, find cache dst = some entry → Watched entry := by
  have hstep : ∀ (cache : NdiscCache Packet) event, AllMatched cache → KeepsTimers cache event →
      ∃ cache', advance unresQlen cache event = some cache' ∧ AllMatched cache' := by
    intro cache event h hevent
    obtain ⟨cache', sent, hcache', h'⟩ := h.step unresQlen hevent
    exact ⟨cache', by rw [advance, hcache', Option.map_some], h'⟩
  obtain ⟨cache, hrun, h, -⟩ :=
    run_of_allowed hstep .nil (by rwa [List.append_nil])
  refine ⟨cache, hrun, fun dst entry hentry => ?_⟩
  have hm := h.of_find hentry
  exact ⟨hm.retrans.trans, hm.delay.trans, hm.probe.trans⟩

/-- `fe80::n` -/
def linkLocal (n : UInt8) : Ipv6Address :=
  ⟨#[0xfe, 0x80, 0, 0, 0, 0, 0, 0, 0, 0, 0, 0, 0, 0, 0, n], rfl⟩

/-- The interface of `fe80::1`. -/
def localInterface : Interface where
  addresses := [linkLocal 1]
  getAddressMatchingDestination _ := linkLocal 1

/-- A neighbour is asked for, replies, becomes STALE, and is probed for the next packet. -/
def probing : List (NdiscEvent ℕ) :=
  [.lookup localInterface 0 (linkLocal 2),
    .na localInterface (linkLocal 2) ⟨linkLocal 2, false, true, true⟩ (some [2]),
    .reachableTimeout (linkLocal 2), .lookup localInterface 1 (linkLocal 2),
    .delayTimeout localInterface (linkLocal 2)]

theorem run_watched_probing :
    ∃ cache : NdiscCache ℕ, run (advance 3) [] probing = some cache ∧
      ∀ dst entry, find cache dst = some entry → Watched entry :=
  AllMatched.run_watched 3 (by decide +kernel)

/-- A neighbour changes its link-layer address while the delay timer is running. -/
def changing : List (NdiscEvent ℕ) :=
  [.rs (linkLocal 2) (some [2]), .lookup localInterface 0 (linkLocal 2),
    .rs (linkLocal 2) (some [3]), .lookup localInterface 1 (linkLocal 2)]

/-- A DELAY neighbour sends an advertisement that was not asked for. -/
def unsolicited : List (NdiscEvent ℕ) :=
  [.rs (linkLocal 2) (some [2]), .lookup localInterface 0 (linkLocal 2),
    .na localInterface (linkLocal 2) ⟨linkLocal 2, false, false, true⟩ (some [2])]

/-- The delay timer is scheduled while it is running, and stopped in the state that waits for it. -/
theorem delay_timer_unmatched :
    run (advance 3) ([] : NdiscCache ℕ) changing = none ∧
      ∃ entry, (run (advance 3) ([] : NdiscCache ℕ) unsolicited).bind (find · (linkLocal 2)) =
        some entry ∧ ¬Watched entry := by
  refine ⟨by decide +kernel, ?_⟩
  exact ⟨{ ipv6Address := linkLocal 2, state := .delay, macAddress := [2] }, by decide +kernel,
    by decide +kernel⟩

end Ns3Noc.Ndisc
