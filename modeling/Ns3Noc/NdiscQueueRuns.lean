import Ns3Noc.NdiscQueues
import Ns3Noc.NdiscRuns

/-!
# Runs of the neighbour discovery queues

The packets that a run is given and those that it sends.
-/
namespace Ns3Noc.Ndisc

open Ipv6 KeyedTables PartialRuns

variable {Packet : Type} {interface : Interface} {unresQlen : ℕ} {cache cache' : NdiscCache Packet}
  {entry : Entry Packet} {sent : List (Sent Packet)} {src address : Ipv6Address}

/-! ## The timers -/

theorem orderly_runTimer (h : AllEntries (Queued unresQlen) cache)
    {timer : Entry Packet → Bool} {function : Entry Packet → Option (NdiscCache Packet)}
    (hfunction : ∀ entry cache', find cache address = some entry → timer entry = true →
      function entry = some cache' → Orderly unresQlen cache [] [] cache')
    (hrun : runTimer cache address timer function = some (cache', sent)) :
    Orderly unresQlen cache [] sent cache' := by
  rw [runTimer] at hrun
  cases hentry : find cache address with
  | none =>
    rw [hentry] at hrun
    obtain ⟨rfl, rfl⟩ := Prod.mk.inj (Option.some.inj hrun)
    exact .refl h (List.Subperm.refl _)
  | some entry =>
    rw [hentry] at hrun
    dsimp only at hrun
    split at hrun
    · next hrunning =>
      obtain ⟨cache₁, hcache₁, heq⟩ := Option.map_eq_some_iff.mp hrun
      obtain ⟨rfl, rfl⟩ := Prod.mk.inj heq
      exact hfunction entry cache₁ hentry hrunning hcache₁
    · obtain ⟨rfl, rfl⟩ := Prod.mk.inj (Option.some.inj hrun)
      exact .refl h (List.Subperm.refl _)

theorem orderly_functionRetransmitTimeout (h : AllEntries (Queued unresQlen) cache)
    (hentry : find cache address = some entry)
    (htimeout : functionRetransmitTimeout interface cache entry = some cache') :
    Orderly unresQlen cache [] [] cache' := by
  have haddress := h.address_of_find hentry
  rw [functionRetransmitTimeout] at htimeout
  split at htimeout
  · obtain rfl := Option.some.inj htimeout
    exact haddress ▸ .remove h hentry []
  · split at htimeout
    · obtain rfl := Option.some.inj htimeout
      exact .keep h hentry haddress rfl (fun hstate => absurd rfl hstate)
        (h.of_find hentry).delay (List.Subperm.refl _)
    · obtain ⟨p, -, rfl⟩ := Option.map_eq_some_iff.mp htimeout
      exact haddress ▸ .remove h hentry []

theorem orderly_functionDelayTimeout (h : AllEntries (Queued unresQlen) cache)
    (hentry : find cache address = some entry) (hrunning : entry.delayTimer = true)
    (htimeout : functionDelayTimeout interface cache entry = some cache') :
    Orderly unresQlen cache [] [] cache' := by
  have haddress := h.address_of_find hentry
  have hq := h.of_find hentry
  have hknown : entry.isIncomplete = false := by
    rw [← Bool.not_eq_true]
    intro hinc
    exact absurd (hrunning.symm.trans (hq.delay hinc)) (by simp)
  have hempty : NdiscState.probe ≠ entry.state → entry.waiting = [] :=
    fun hstate => hq.idle hknown (decide_eq_false hstate.symm)
  rw [functionDelayTimeout] at htimeout
  split at htimeout
  · obtain rfl := Option.some.inj htimeout
    exact haddress ▸ .remove h hentry []
  · split at htimeout
    · obtain rfl := Option.some.inj htimeout
      exact .keep h hentry haddress rfl hempty (fun hinc => Bool.noConfusion hinc)
        (List.Subperm.refl _)
    · obtain ⟨started, hstart, rfl⟩ := Option.map_eq_some_iff.mp htimeout
      rw [Entry.startProbeTimer] at hstart
      split at hstart
      · cases hstart
      · obtain rfl := Option.some.inj hstart
        exact .keep h hentry haddress rfl hempty (fun hinc => Bool.noConfusion hinc)
          (List.Subperm.refl _)

theorem orderly_functionProbeTimeout (h : AllEntries (Queued unresQlen) cache)
    (hentry : find cache address = some entry)
    (htimeout : functionProbeTimeout interface cache entry = some cache') :
    Orderly unresQlen cache [] [] cache' := by
  have haddress := h.address_of_find hentry
  have hq := h.of_find hentry
  rw [functionProbeTimeout] at htimeout
  split at htimeout
  · split at htimeout
    · obtain rfl := Option.some.inj htimeout
      exact haddress ▸ .remove h hentry []
    · split at htimeout
      · obtain rfl := Option.some.inj htimeout
        exact .keep h hentry haddress rfl (fun hstate => absurd rfl hstate) hq.delay
          (List.Subperm.refl _)
      · obtain rfl := Option.some.inj htimeout
        exact .keep h hentry haddress rfl (fun hstate => absurd rfl hstate) hq.delay
          (List.Subperm.refl _)
  · obtain rfl := Option.some.inj htimeout
    exact haddress ▸ .remove h hentry []

/-! ## Solicitations -/

/-- A solicitation that is answered does not change the address of an entry with a queue, and the
reply finds room if it has to wait. -/
def Replies (interface : Interface) (unresQlen : ℕ) (cache : NdiscCache Packet) (src : Ipv6Address)
    (lla : Address) : Prop :=
  KnownAddress cache src lla ∧ (src ∉ interface.addresses → isMulticast src = false →
    ∀ entry ∈ find cache src, entry.macAddress = lla → HasRoom interface unresQlen cache src)

theorem orderly_handleNS (h : AllEntries (Queued unresQlen) cache) {target : Ipv6Address}
    {lla : Option Address} {ownProbe : Bool} {reply : Packet}
    (hok : target ∈ interface.addresses → ownProbe = false → isAny src = false →
      ∀ mac ∈ lla, Replies interface unresQlen cache src mac)
    (hns : handleNS interface unresQlen cache src target lla ownProbe reply = some (cache', sent)) :
    Orderly unresQlen cache [reply] sent cache' := by
  unfold handleNS at hns
  split at hns
  · obtain ⟨rfl, rfl⟩ := Prod.mk.inj (Option.some.inj hns)
    exact .refl h List.nil_subperm
  · next htarget =>
    have hown : target ∈ interface.addresses ∧ ownProbe = false := by simpa using htarget
    obtain ⟨hmem, hprobe⟩ := hown
    split at hns
    · refine orderly_interfaceSend h (fun _ hmulticast => ?_) hns
      exact absurd hmulticast (by decide)
    · next hany =>
      cases lla with
      | none =>
        obtain ⟨rfl, rfl⟩ := Prod.mk.inj (Option.some.inj hns)
        exact .refl h List.nil_subperm
      | some mac =>
        obtain ⟨hknown, hroom⟩ :=
          hok hmem hprobe (Bool.eq_false_iff.mpr hany) mac rfl
        obtain ⟨hlink, huntouched⟩ := orderly_sourceLinkLayer h hknown
        refine .of_untouched huntouched hlink
          (orderly_interfaceSend hlink.entries (fun hown hmulticast => ?_) hns)
        have hroom := hroom hown hmulticast
        have hstale : ∀ e : Entry Packet, e.state = .stale →
            (e.isIncomplete = true ∨ e.isProbe = true) → e.waiting.length < unresQlen := by
          intro e hstate hbusy
          simp [Entry.isIncomplete, Entry.isProbe, hstate] at hbusy
        rw [sourceLinkLayer]
        cases hentry : find cache src with
        | none => exact .of_find (find_cons_self cache src _) (hstale _ rfl)
        | some entry =>
          dsimp only
          split
          · have haddress := h.address_of_find hentry
            exact .of_find (h.find_putEntry hentry haddress) (hstale _ rfl)
          · next hmac => exact hroom entry hentry (not_not.mp hmac)

/-! ## Runs -/

/-- Each packet that has to wait finds room. An entry with a queue leaves INCOMPLETE by a router
advertisement or a solicited advertisement, and PROBE by the latter only; the advertisement comes
from the address itself, which is none of the node's. -/
def KeepsQueues (unresQlen : ℕ) (cache : NdiscCache Packet) : NdiscEvent Packet → Prop
  | .lookup interface _ dst => HasRoom interface unresQlen cache dst
  | .rs src lla => isAny src = false → ∀ mac ∈ lla, KnownAddress cache src mac
  | .ns interface src target lla ownProbe _ =>
    target ∈ interface.addresses → ownProbe = false → isAny src = false →
      ∀ mac ∈ lla, Replies interface unresQlen cache src mac
  | .na interface src naHeader lla => ∀ mac ∈ lla, ∀ entry ∈ find cache naHeader.target,
      entry.waiting ≠ [] → Answers interface src naHeader mac entry
  | .ra interface src lla => ∀ _mac ∈ lla, ∀ entry ∈ find cache src, entry.waiting ≠ [] →
      entry.isIncomplete = true ∧ src ∉ interface.addresses
  | .redirect redirTarget _ lla => ∀ mac ∈ lla, KnownAddress cache redirTarget mac
  | .reachableTimeout address => ∀ entry ∈ find cache address, entry.reachableTimer = true →
      entry.waiting = []
  | _ => True

instance (interface : Interface) (unresQlen : ℕ) (cache : NdiscCache Packet) (dst : Ipv6Address) :
    Decidable (HasRoom interface unresQlen cache dst) :=
  match h : find cache dst with
  | some entry => decidable_of_iff ((entry.isIncomplete = true ∨ entry.isProbe = true) →
      entry.waiting.length < unresQlen) (by rw [HasRoom, h])
  | none => decidable_of_iff ((isLinkLocal dst = true ∨ interface.addresses.length ≠ 1) →
      0 < unresQlen) (by rw [HasRoom, h])

section Decidable

variable [DecidableEq Packet]

instance (cache : NdiscCache Packet) (address : Ipv6Address) (lla : Address) :
    Decidable (KnownAddress cache address lla) :=
  inferInstanceAs (Decidable (∀ entry ∈ find cache address, entry.macAddress ≠ lla →
    entry.waiting = []))

instance (interface : Interface) (unresQlen : ℕ) (cache : NdiscCache Packet) (src : Ipv6Address)
    (lla : Address) : Decidable (Replies interface unresQlen cache src lla) :=
  inferInstanceAs (Decidable (_ ∧ (src ∉ interface.addresses → isMulticast src = false →
    ∀ entry ∈ find cache src, entry.macAddress = lla → HasRoom interface unresQlen cache src)))

instance (interface : Interface) (src : Ipv6Address) (naHeader : NAHeader) (lla : Address)
    (entry : Entry Packet) : Decidable (Answers interface src naHeader lla entry) :=
  inferInstanceAs (Decidable (_ ∧ _))

instance (unresQlen : ℕ) (cache : NdiscCache Packet) (event : NdiscEvent Packet) :
    Decidable (KeepsQueues unresQlen cache event) :=
  match event with
  | .lookup interface _ dst => inferInstanceAs (Decidable (HasRoom interface unresQlen cache dst))
  | .rs src lla => inferInstanceAs (Decidable (isAny src = false → ∀ mac ∈ lla,
      KnownAddress cache src mac))
  | .ns interface src target lla ownProbe _ => inferInstanceAs (Decidable
      (target ∈ interface.addresses → ownProbe = false → isAny src = false →
        ∀ mac ∈ lla, Replies interface unresQlen cache src mac))
  | .na interface src naHeader lla => inferInstanceAs (Decidable (∀ mac ∈ lla,
      ∀ entry ∈ find cache naHeader.target, entry.waiting ≠ [] →
        Answers interface src naHeader mac entry))
  | .ra interface src lla => inferInstanceAs (Decidable (∀ _mac ∈ lla, ∀ entry ∈ find cache src,
      entry.waiting ≠ [] → entry.isIncomplete = true ∧ src ∉ interface.addresses))
  | .redirect redirTarget _ lla =>
    inferInstanceAs (Decidable (∀ mac ∈ lla, KnownAddress cache redirTarget mac))
  | .reachableTimeout address => inferInstanceAs (Decidable (∀ entry ∈ find cache address,
      entry.reachableTimer = true → entry.waiting = []))
  | .retransmitTimeout .. | .delayTimeout .. | .probeTimeout .. => .isTrue trivial

end Decidable

/-- The packets that an event gives to the cache. -/
def NdiscEvent.given : NdiscEvent Packet → List Packet
  | .lookup _ p _ => [p]
  | .ns _ _ _ _ _ reply => [reply]
  | _ => []

theorem orderly_step (h : AllEntries (Queued unresQlen) cache) {event : NdiscEvent Packet}
    (hok : KeepsQueues unresQlen cache event)
    (hstep : step unresQlen cache event = some (cache', sent)) :
    Orderly unresQlen cache event.given sent cache' := by
  cases event with
  | lookup interface p dst =>
    obtain ⟨⟨cache₁, hardware⟩, hlookup, heq⟩ := Option.map_eq_some_iff.mp hstep
    obtain ⟨rfl, rfl⟩ := Prod.mk.inj heq
    exact orderly_lookup h hok hlookup
  | rs src lla =>
    obtain ⟨rfl, rfl⟩ := Prod.mk.inj (Option.some.inj hstep)
    unfold handleRS
    split
    · exact .refl h (List.Subperm.refl _)
    · next hany =>
      cases lla with
      | none => exact .refl h (List.Subperm.refl _)
      | some mac =>
        exact (orderly_sourceLinkLayer h (hok (Bool.eq_false_iff.mpr hany) mac rfl)).1
  | ns interface src target lla ownProbe reply => exact orderly_handleNS h hok hstep
  | na interface src naHeader lla =>
    cases lla with
    | none =>
      change handleNA interface unresQlen cache src naHeader none = _ at hstep
      have hnone : handleNA interface unresQlen cache src naHeader none = some (cache, []) := by
        unfold handleNA
        cases find cache naHeader.target <;> rfl
      obtain ⟨rfl, rfl⟩ := Prod.mk.inj (Option.some.inj (hnone.symm.trans hstep))
      exact .refl h (List.Subperm.refl _)
    | some mac => exact orderly_handleNA h (hok mac rfl) hstep
  | ra interface src lla =>
    cases lla with
    | none =>
      obtain ⟨rfl, rfl⟩ := Prod.mk.inj (Option.some.inj hstep)
      exact .refl h (List.Subperm.refl _)
    | some mac => exact orderly_receiveLLA h (hok mac rfl) hstep
  | redirect redirTarget redirDestination lla =>
    obtain ⟨rfl, rfl⟩ := Prod.mk.inj (Option.some.inj hstep)
    cases lla with
    | none => exact .refl h (List.Subperm.refl _)
    | some mac => exact orderly_handleRedirection h (hok mac rfl)
  | reachableTimeout address =>
    refine orderly_runTimer h (fun entry cache' hentry hrunning htimeout => ?_) hstep
    obtain rfl := Option.some.inj htimeout
    have haddress := h.address_of_find hentry
    exact .keep h hentry haddress rfl
      (fun _ => hok entry hentry hrunning) (fun hinc => Bool.noConfusion hinc) (List.Subperm.refl _)
  | retransmitTimeout interface address =>
    exact orderly_runTimer h (fun _ _ hentry _ => orderly_functionRetransmitTimeout h hentry) hstep
  | delayTimeout interface address =>
    exact orderly_runTimer h (fun _ _ => orderly_functionDelayTimeout h) hstep
  | probeTimeout interface address =>
    exact orderly_runTimer h (fun _ _ hentry _ => orderly_functionProbeTimeout h hentry) hstep

/-- A cache, and the packets that it has been given and has sent. -/
structure History (Packet : Type) where
  cache : NdiscCache Packet := []
  given : List Packet := []
  sent : List (Sent Packet) := []

def History.advance (unresQlen : ℕ) (h : History Packet) (event : NdiscEvent Packet) :
    Option (History Packet) :=
  (step unresQlen h.cache event).map fun (cache, sent) =>
    { cache, given := h.given ++ event.given, sent := h.sent ++ sent }

/-- All packets that were sent or are in a queue have been given. -/
structure History.Accounted (unresQlen : ℕ) (h : History Packet) : Prop where
  entries : AllEntries (Queued unresQlen) h.cache
  packets : waitings h.cache + (h.sent.map Sent.packet : List Packet) ≤ h.given

theorem History.Accounted.advance {h h' : History Packet}
    (hacc : h.Accounted unresQlen)
    {event : NdiscEvent Packet} (hok : KeepsQueues unresQlen h.cache event)
    (hstep : h.advance unresQlen event = some h') : h'.Accounted unresQlen := by
  obtain ⟨⟨cache, sent⟩, hcache, rfl⟩ := Option.map_eq_some_iff.mp hstep
  have horderly := orderly_step hacc.entries hok hcache
  refine ⟨horderly.entries, ?_⟩
  dsimp only
  rw [List.map_append, ← Multiset.coe_add, ← Multiset.coe_add]
  calc waitings cache + ((h.sent.map Sent.packet : List Packet) + (sent.map Sent.packet : List Packet))
      = waitings cache + (sent.map Sent.packet : List Packet) +
          (h.sent.map Sent.packet : List Packet) := by
        rw [add_left_comm, add_comm]
    _ ≤ waitings h.cache + event.given + (h.sent.map Sent.packet : List Packet) :=
        add_le_add_left horderly.packets _
    _ = waitings h.cache + (h.sent.map Sent.packet : List Packet) + event.given :=
        add_right_comm _ _ _
    _ ≤ h.given + event.given := add_le_add_left hacc.packets _

/-- The last event of a run, in which all events keep the queues: no queue is longer than it may
be, no packet has been sent more often than given, and the queue of an entry that leaves
INCOMPLETE or PROBE is sent. -/
theorem History.run_orderly (unresQlen : ℕ) (events : List (NdiscEvent Packet))
    (event : NdiscEvent Packet)
    (hok : Allowed (History.advance unresQlen)
      (fun h event => KeepsQueues unresQlen h.cache event) {} (events ++ [event]))
    {h : History Packet} (hrun : run (History.advance unresQlen) {} events = some h)
    (hstep : step unresQlen h.cache event = some (cache', sent)) :
    (∀ dst entry, find cache' dst = some entry → entry.waiting.length ≤ unresQlen) ∧
      ((h.sent ++ sent).map Sent.packet).Subperm (h.given ++ event.given) ∧
      Flushed h.cache sent cache' := by
  obtain ⟨hfirst, hlast⟩ := hok.of_append
  have hstart : History.Accounted unresQlen ({} : History Packet) := ⟨.nil, le_refl _⟩
  have hacc : h.Accounted unresQlen :=
    invariant_of_allowed (fun _ _ _ hacc hok => hacc.advance hok) hstart hfirst hrun
  have hevent := (hlast h hrun).1
  have hadvance : h.advance unresQlen event = some
      { cache := cache', given := h.given ++ event.given, sent := h.sent ++ sent } := by
    rw [History.advance, hstep, Option.map_some]
  have hacc' := hacc.advance hevent hadvance
  refine ⟨fun dst entry hentry => (hacc'.entries.of_find hentry).bound, ?_, ?_⟩
  · exact Multiset.coe_le.mp ((le_add_of_nonneg_left (Multiset.zero_le _)).trans hacc'.packets)
  · exact (orderly_step hacc.entries hevent hstep).flushed

/-- Two packets wait for a neighbour. -/
def asking : List (NdiscEvent ℕ) :=
  [.lookup localInterface 0 (linkLocal 2), .lookup localInterface 1 (linkLocal 2)]

/-- The neighbour sends an advertisement with the flag S or not. -/
def advertisement (flagS : Bool) : NdiscEvent ℕ :=
  .na localInterface (linkLocal 2) ⟨linkLocal 2, false, flagS, true⟩ (some [2])

/-- The entry of the neighbour after the lookups. -/
def askedFor : Entry ℕ := { ipv6Address := linkLocal 2, waiting := [0, 1], retransTimer := true }

/-- The entry after a solicited advertisement. -/
def answered : Entry ℕ :=
  { ipv6Address := linkLocal 2, state := .reachable, reachableTimer := true, macAddress := [2] }

def sentPackets : List (Sent ℕ) := [⟨0, linkLocal 2, some [2]⟩, ⟨1, linkLocal 2, some [2]⟩]

theorem History.run_orderly_answered :
    (∀ dst e, find [(linkLocal 2, answered)] dst = some e → e.waiting.length ≤ 3) ∧
      (([] ++ sentPackets).map Sent.packet).Subperm ([0, 1] ++ []) ∧
      Flushed [(linkLocal 2, askedFor)] sentPackets [(linkLocal 2, answered)] :=
  History.run_orderly 3 asking (advertisement true) (by decide +kernel)
    (h := { cache := [(linkLocal 2, askedFor)], given := [0, 1] }) rfl (by decide +kernel)

/-- A queue of one packet takes a second one, and an advertisement that was not asked for makes
the entry STALE without sending them. -/
theorem queue_overflows_and_stays :
    run (History.advance 1) ({} : History ℕ) asking =
        some { cache := [(linkLocal 2, askedFor)], given := [0, 1] } ∧
      1 < askedFor.waiting.length ∧
      ∃ cache' sent, step 1 [(linkLocal 2, askedFor)] (advertisement false) = some (cache', sent) ∧
        ¬Flushed [(linkLocal 2, askedFor)] sent cache' := by
  refine ⟨rfl, by decide, [(linkLocal 2, { askedFor with
    state := .stale
    retransTimer := false
    macAddress := [2] })], [], by decide +kernel, fun hflushed => ?_⟩
  have hsends := hflushed (linkLocal 2) askedFor _ (by decide) (find_cons_self _ _ _) (by decide)
    (by decide)
  simp [Sends, askedFor] at hsends

end Ns3Noc.Ndisc
