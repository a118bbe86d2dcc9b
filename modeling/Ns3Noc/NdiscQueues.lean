import Ns3Noc.NdiscEntries
import Mathlib.Algebra.Order.Group.Multiset
import Mathlib.Algebra.Order.BigOperators.Group.Multiset

/-!
# Neighbour discovery queues

Events after which the queues are as long as they may be, packets are where they were given or on
their way, and those of an answered entry have been sent.
-/
namespace Ns3Noc.Ndisc

open Ipv6 KeyedTables

variable {Packet : Type} {interface : Interface} {unresQlen : ℕ} {cache cache' : NdiscCache Packet}
  {entry entry' : Entry Packet} {p : Packet} {given : List Packet} {sent : List (Sent Packet)}
  {src dst : Ipv6Address}

/-- Packets wait for INCOMPLETE and PROBE entries only, and no delay timer runs for the former. -/
structure Queued (unresQlen : ℕ) (entry : Entry Packet) : Prop where
  bound : entry.waiting.length ≤ unresQlen
  idle : entry.isIncomplete = false → entry.isProbe = false → entry.waiting = []
  delay : entry.isIncomplete = true → entry.delayTimer = false

/-- The packets in all queues. -/
def waitings (cache : NdiscCache Packet) : Multiset Packet :=
  (cache.map fun p => (p.2.waiting : Multiset Packet)).sum

/-- The queue is sent, in order, to the address it is for. -/
def Sends (entry : Entry Packet) (dst : Ipv6Address) (sent : List (Sent Packet)) : Prop :=
  (entry.waiting.map fun p => (p, dst)).Sublist (sent.map fun s => (s.packet, s.destination))

/-- The queue of an entry that leaves INCOMPLETE or PROBE for another state is sent. -/
def Flushed (cache : NdiscCache Packet) (sent : List (Sent Packet)) (cache' : NdiscCache Packet) :
    Prop :=
  ∀ dst entry entry', find cache dst = some entry → find cache' dst = some entry' →
    (entry.isIncomplete = true ∨ entry.isProbe = true) → entry'.state ≠ entry.state →
      Sends entry dst sent

/-- What holds of an event that gives packets to the cache and sends some. -/
structure Orderly (unresQlen : ℕ) (cache : NdiscCache Packet) (given : List Packet)
    (sent : List (Sent Packet)) (cache' : NdiscCache Packet) : Prop where
  entries : AllEntries (Queued unresQlen) cache'
  packets : waitings cache' + (sent.map Sent.packet : List Packet) ≤ waitings cache + given
  flushed : Flushed cache sent cache'

theorem sends_of_empty (h : entry.waiting = []) : Sends entry dst sent := by
  rw [Sends, h]
  exact List.nil_sublist _

namespace Orderly

theorem refl (h : AllEntries (Queued unresQlen) cache)
    (hsent : (sent.map Sent.packet).Subperm given) :
    Orderly unresQlen cache given sent cache where
  entries := h
  packets := by
    gcongr
    exact Multiset.coe_le.mpr hsent
  flushed dst entry entry' hentry hentry' _ hstate := by
    rw [hentry, Option.some_inj] at hentry'
    exact absurd (hentry' ▸ rfl) hstate

/-- An entry is replaced. -/
theorem put (h : AllEntries (Queued unresQlen) cache) (hentry : find cache dst = some entry)
    (haddress : entry'.ipv6Address = dst) (hqueued : Queued unresQlen entry')
    (hpackets : ((entry'.waiting ++ sent.map Sent.packet : List Packet) : Multiset Packet) ≤
      (entry.waiting ++ given : List Packet))
    (hsends : (entry.isIncomplete = true ∨ entry.isProbe = true) → entry'.state ≠ entry.state →
      Sends entry dst sent) :
    Orderly unresQlen cache given sent (cache.putEntry entry') where
  entries := h.putEntry hqueued
  packets := by
    obtain ⟨rest, hcache, hput, -⟩ := perm_of_find h.keys hentry
    have hbefore := (hcache.map fun p => (p.2.waiting : Multiset Packet)).sum_eq
    have hafter := ((hput entry').map fun p => (p.2.waiting : Multiset Packet)).sum_eq
    rw [List.map_cons, List.sum_cons] at hbefore hafter
    rw [← Multiset.coe_add, ← Multiset.coe_add] at hpackets
    rw [waitings, waitings, NdiscCache.putEntry, haddress, hbefore, hafter, add_right_comm,
      add_right_comm (entry.waiting : Multiset Packet)]
    gcongr
  flushed k e e' he he' hbusy hstate := by
    by_cases hk : k = dst
    · subst hk
      rw [hentry, Option.some_inj] at he
      rw [h.find_putEntry hentry haddress, Option.some_inj] at he'
      subst he he'
      exact hsends hbusy hstate
    · rw [NdiscCache.putEntry, haddress, find_put_of_ne hk, he, Option.some_inj] at he'
      exact absurd (he' ▸ rfl) hstate

/-- The queue of the entry stays, and is empty if the state changes. -/
theorem keep (h : AllEntries (Queued unresQlen) cache) (hentry : find cache dst = some entry)
    (haddress : entry'.ipv6Address = dst) (hwaiting : entry'.waiting = entry.waiting)
    (hstate : entry'.state ≠ entry.state → entry.waiting = [])
    (hdelay : entry'.isIncomplete = true → entry'.delayTimer = false)
    (hsent : (sent.map Sent.packet).Subperm given) :
    Orderly unresQlen cache given sent (cache.putEntry entry') := by
  have hq := h.of_find hentry
  refine put h hentry haddress ⟨hwaiting ▸ hq.bound, fun hinc hprobe => ?_, hdelay⟩ ?_ ?_
  · rw [hwaiting]
    by_cases hsame : entry'.state = entry.state
    · rw [Entry.isIncomplete, hsame] at hinc
      rw [Entry.isProbe, hsame] at hprobe
      exact hq.idle hinc hprobe
    · exact hstate hsame
  · rw [hwaiting, Multiset.coe_le]
    exact (List.subperm_append_left _).mpr hsent
  · exact fun _ hchange => sends_of_empty (hstate hchange)

/-- The queue of the entry is sent to its address. -/
theorem flush (h : AllEntries (Queued unresQlen) cache) (hentry : find cache dst = some entry)
    (haddress : entry'.ipv6Address = dst) (hwaiting : entry'.waiting = [])
    (hstate : entry'.isReachable = true) (given : List Packet) (hardware : Option Address) :
    Orderly unresQlen cache given (entry.waiting.map fun p => ⟨p, dst, hardware⟩)
      (cache.putEntry entry') := by
  have hreachable : entry'.state = .reachable := of_decide_eq_true hstate
  refine put h hentry haddress ⟨?_, fun _ _ => hwaiting, fun hinc => ?_⟩ ?_ fun _ _ => ?_
  · rw [hwaiting]
    exact Nat.zero_le _
  · simp [Entry.isIncomplete, hreachable] at hinc
  · rw [hwaiting, List.nil_append, List.map_map, Multiset.coe_le]
    have hpackets : entry.waiting.map (Sent.packet ∘ fun p => ⟨p, dst, hardware⟩) = entry.waiting :=
      List.map_id entry.waiting
    rw [hpackets]
    exact (List.sublist_append_left _ _).subperm
  · rw [Sends, List.map_map]
    exact List.Sublist.refl _

theorem remove (h : AllEntries (Queued unresQlen) cache) (hentry : find cache dst = some entry)
    (given : List Packet) :
    Orderly unresQlen cache given [] (KeyedTables.remove cache dst) where
  entries := h.remove dst
  packets := by
    obtain ⟨rest, hcache, -, hremove⟩ := perm_of_find h.keys hentry
    have hbefore := (hcache.map fun p => (p.2.waiting : Multiset Packet)).sum_eq
    have hafter := (hremove.map fun p => (p.2.waiting : Multiset Packet)).sum_eq
    rw [List.map_cons, List.sum_cons] at hbefore
    rw [waitings, waitings, hbefore, hafter, List.map_nil, Multiset.coe_nil, add_zero, add_assoc]
    exact (le_add_of_nonneg_right (Multiset.zero_le _)).trans
      (le_add_of_nonneg_left (Multiset.zero_le _))
  flushed k e e' he he' hbusy hstate := by
    by_cases hk : k = dst
    · rw [hk, find_remove_self] at he'
      cases he'
    · rw [find_remove_of_ne hk, he, Option.some_inj] at he'
      exact absurd (he' ▸ rfl) hstate

/-- An entry is added for an address that had none. -/
theorem cons (h : AllEntries (Queued unresQlen) cache) (hnone : find cache dst = none)
    (haddress : entry.ipv6Address = dst) (hqueued : Queued unresQlen entry)
    (hpackets : entry.waiting.Subperm given) :
    Orderly unresQlen cache given [] ((dst, entry) :: cache) where
  entries := h.cons hnone hqueued haddress
  packets := by
    rw [waitings, List.map_cons, List.sum_cons, List.map_nil, Multiset.coe_nil, add_zero,
      add_comm, waitings]
    gcongr
    exact Multiset.coe_le.mpr hpackets
  flushed k e e' he he' hbusy hstate := by
    have hk : k ≠ dst := by
      rintro rfl
      rw [hnone] at he
      cases he
    rw [find_cons_of_ne hk, he, Option.some_inj] at he'
    exact absurd (he' ▸ rfl) hstate

end Orderly

/-! ## Lookups -/

/-- A packet that has to wait finds room in the queue. -/
def HasRoom (interface : Interface) (unresQlen : ℕ) (cache : NdiscCache Packet)
    (dst : Ipv6Address) : Prop :=
  match find cache dst with
  | some entry =>
    (entry.isIncomplete = true ∨ entry.isProbe = true) → entry.waiting.length < unresQlen
  | none => (isLinkLocal dst = true ∨ interface.addresses.length ≠ 1) → 0 < unresQlen

theorem HasRoom.of_find (hentry : find cache dst = some entry)
    (hroom : (entry.isIncomplete = true ∨ entry.isProbe = true) →
      entry.waiting.length < unresQlen) :
    HasRoom interface unresQlen cache dst := by
  rw [HasRoom, hentry]
  exact hroom

/-- What is sent once the packet has been looked up. -/
def sentTo (p : Packet) (dst : Ipv6Address) (hardware : Option Address) : List (Sent Packet) :=
  hardware.toList.map fun mac => ⟨p, dst, some mac⟩

theorem orderly_lookup (h : AllEntries (Queued unresQlen) cache)
    (hroom : HasRoom interface unresQlen cache dst) {hardware : Option Address}
    (hlookup : lookup interface unresQlen cache p dst = some (cache', hardware)) :
    Orderly unresQlen cache [p] (sentTo p dst hardware) cache' := by
  rw [lookup] at hlookup
  rw [HasRoom] at hroom
  cases hentry : find cache dst with
  | none =>
    rw [hentry] at hlookup hroom
    dsimp only at hlookup hroom
    split at hlookup
    · obtain ⟨rfl, rfl⟩ := Prod.mk.inj (Option.some.inj hlookup)
      exact .refl h List.nil_subperm
    · next hunsent =>
      obtain ⟨rfl, rfl⟩ := Prod.mk.inj (Option.some.inj hlookup)
      have hpos : 0 < unresQlen := by
        apply hroom
        cases hlocal : isLinkLocal dst with
        | true => exact .inl rfl
        | false => exact .inr fun hone => hunsent (by simp [hlocal, hone])
      exact .cons h hentry rfl ⟨hpos, fun hinc => Bool.noConfusion hinc, fun _ => rfl⟩
        (List.Subperm.refl _)
  | some entry =>
    have hq := h.of_find hentry
    have haddress := h.address_of_find hentry
    rw [hentry] at hlookup hroom
    dsimp only at hlookup hroom
    split at hlookup
    · obtain ⟨rfl, rfl⟩ := Prod.mk.inj (Option.some.inj hlookup)
      exact .refl h (List.Subperm.refl _)
    · next hknown =>
      split at hlookup
      · next hstale =>
        have hstate : entry.state = .stale := of_decide_eq_true hstale
        obtain ⟨started, hstart, heq⟩ := Option.map_eq_some_iff.mp hlookup
        obtain ⟨rfl, rfl⟩ := Prod.mk.inj heq
        rw [Entry.startDelayTimer] at hstart
        split at hstart
        · cases hstart
        · obtain rfl := Option.some.inj hstart
          refine .keep h hentry haddress rfl (fun _ => ?_) (fun hinc => Bool.noConfusion hinc)
            (List.Subperm.refl _)
          exact hq.idle (by simp [Entry.isIncomplete, hstate]) (by simp [Entry.isProbe, hstate])
      · next hstale =>
        obtain ⟨rfl, rfl⟩ := Prod.mk.inj (Option.some.inj hlookup)
        have hbusy : entry.isIncomplete = true ∨ entry.isProbe = true := by
          cases hstate : entry.state <;>
            simp [Entry.isReachable, Entry.isDelay, Entry.isStale, Entry.isIncomplete,
              Entry.isProbe, hstate] at hknown hstale ⊢
        have hlt := hroom hbusy
        have hadd : entry.addWaitingPacket unresQlen p =
            { entry with waiting := entry.waiting ++ [p] } := by
          rw [Entry.addWaitingPacket, if_neg (Nat.not_le.mpr hlt)]
        rw [hadd]
        refine .put h hentry haddress ⟨?_, fun hinc hprobe => ?_, hq.delay⟩ ?_
          fun _ hstate => absurd rfl hstate
        · rw [List.length_append]
          exact hlt
        · rcases hbusy with hbusy | hbusy
          · exact absurd (hbusy.symm.trans hinc) (by simp)
          · exact absurd (hbusy.symm.trans hprobe) (by simp)
        · exact (congrArg _ (List.append_nil _)).le

theorem orderly_interfaceSend (h : AllEntries (Queued unresQlen) cache)
    (hroom : dst ∉ interface.addresses → isMulticast dst = false →
      HasRoom interface unresQlen cache dst)
    (hsend : interfaceSend interface unresQlen cache p dst = some (cache', sent)) :
    Orderly unresQlen cache [p] sent cache' := by
  rw [interfaceSend] at hsend
  split at hsend
  · obtain ⟨rfl, rfl⟩ := Prod.mk.inj (Option.some.inj hsend)
    exact .refl h List.nil_subperm
  · next hown =>
    split at hsend
    · obtain ⟨rfl, rfl⟩ := Prod.mk.inj (Option.some.inj hsend)
      exact .refl h (List.Subperm.refl _)
    · next hmulticast =>
      obtain ⟨⟨cache₁, hardware⟩, hlookup, heq⟩ := Option.map_eq_some_iff.mp hsend
      obtain ⟨rfl, rfl⟩ := Prod.mk.inj heq
      exact orderly_lookup h (hroom hown (Bool.eq_false_iff.mpr hmulticast)) hlookup

/-! ## Queues that are sent -/

/-- Packets for a REACHABLE entry are sent at once. -/
theorem sendAll_reachable (hentry : find cache dst = some entry) (hstate : entry.isReachable = true)
    (hown : dst ∉ interface.addresses) :
    ∃ hardware : Option Address, ∀ waiting : List Packet,
      sendAll interface unresQlen dst waiting cache =
        some (cache, waiting.map fun p => ⟨p, dst, hardware⟩) := by
  refine ⟨if isMulticast dst then none else some entry.macAddress, fun waiting => ?_⟩
  have hsend : ∀ p : Packet, interfaceSend interface unresQlen cache p dst =
      some (cache, [⟨p, dst, if isMulticast dst then none else some entry.macAddress⟩]) := by
    intro p
    rw [interfaceSend, if_neg hown]
    split
    · rfl
    · rw [lookup, hentry]
      simp [hstate]
  induction waiting with
  | nil => rfl
  | cons p waiting ih =>
    rw [sendAll, hsend, Option.bind_some]
    dsimp only
    rw [ih]
    rfl

theorem sendWaiting_reachable (h : AllEntries (Queued unresQlen) cache) (entry : Entry Packet)
    (hold : find cache dst = some entry') (haddress : entry.ipv6Address = dst)
    (hstate : entry.isReachable = true)
    (hdest : entry.waiting ≠ [] → src = dst ∧ src ∉ interface.addresses) :
    ∃ hardware, sendWaiting interface unresQlen cache entry src =
      some (cache.putEntry entry.clearWaitingPacket,
        entry.waiting.map fun p => ⟨p, dst, hardware⟩) := by
  have hclear : modify (cache.putEntry entry) entry.ipv6Address Entry.clearWaitingPacket =
      cache.putEntry entry.clearWaitingPacket := by
    rw [NdiscCache.putEntry, modify_put]
    rfl
  by_cases hwaiting : entry.waiting = []
  · refine ⟨none, ?_⟩
    rw [sendWaiting, hwaiting, sendAll, Option.map_some]
    dsimp only
    rw [hclear]
    rfl
  · obtain ⟨rfl, hown⟩ := hdest hwaiting
    obtain ⟨hardware, hsend⟩ :=
      sendAll_reachable (h.find_putEntry hold haddress) hstate hown
    refine ⟨hardware, ?_⟩
    rw [sendWaiting, hsend, Option.map_some]
    dsimp only
    rw [hclear]

/-! ## Messages -/

/-- Each entry with a queue is the same afterwards. -/
def Untouched (cache cache' : NdiscCache Packet) : Prop :=
  ∀ dst entry, find cache dst = some entry → entry.waiting ≠ [] → find cache' dst = some entry

theorem Orderly.of_untouched {cache₁ : NdiscCache Packet} (h : Untouched cache cache₁)
    (h₁ : Orderly unresQlen cache [] [] cache₁) (h₂ : Orderly unresQlen cache₁ given sent cache') :
    Orderly unresQlen cache given sent cache' where
  entries := h₂.entries
  packets := by
    have hle := h₁.packets
    rw [List.map_nil, Multiset.coe_nil, add_zero, add_zero] at hle
    exact h₂.packets.trans (by gcongr)
  flushed k e e' he he' hbusy hstate := by
    by_cases hwaiting : e.waiting = []
    · exact sends_of_empty hwaiting
    · exact h₂.flushed k e e' (h k e he hwaiting) he' hbusy hstate

/-- An entry with a queue has the link-layer address already. -/
def KnownAddress (cache : NdiscCache Packet) (address : Ipv6Address) (lla : Address) : Prop :=
  ∀ entry ∈ find cache address, entry.macAddress ≠ lla → entry.waiting = []

/-- A new STALE entry has no queue. -/
theorem queued_stale (hstate : entry.state = .stale) (hwaiting : entry.waiting = []) :
    Queued unresQlen entry := by
  constructor <;> simp [Entry.isIncomplete, hstate, hwaiting]

theorem orderly_sourceLinkLayer (h : AllEntries (Queued unresQlen) cache) {lla : Address}
    (hok : KnownAddress cache src lla) :
    Orderly unresQlen cache [] [] (sourceLinkLayer cache src lla) ∧
      Untouched cache (sourceLinkLayer cache src lla) := by
  rw [sourceLinkLayer]
  cases hentry : find cache src with
  | none =>
    refine ⟨.cons h hentry rfl (queued_stale rfl rfl) List.nil_subperm, ?_⟩
    intro k e he _
    have hk : k ≠ src := by
      rintro rfl
      rw [hentry] at he
      cases he
    rw [find_cons_of_ne hk]
    exact he
  | some entry =>
    dsimp only
    split
    · next hmac =>
      have haddress := h.address_of_find hentry
      have hwaiting := hok entry hentry hmac
      refine ⟨.keep h hentry haddress rfl (fun _ => hwaiting) (fun hinc => Bool.noConfusion hinc)
        (List.Subperm.refl _), ?_⟩
      intro k e he hqueue
      have hk : k ≠ src := by
        rintro rfl
        rw [hentry, Option.some_inj] at he
        exact hqueue (he ▸ hwaiting)
      rw [NdiscCache.putEntry, show (entry.markStaleMac lla).ipv6Address = src from haddress,
        find_put_of_ne hk]
      exact he
    · exact ⟨.refl h (List.Subperm.refl _), fun k e he _ => he⟩

theorem orderly_handleRedirection (h : AllEntries (Queued unresQlen) cache)
    {target destination : Ipv6Address} {lla : Address} (hok : KnownAddress cache target lla) :
    Orderly unresQlen cache [] [] (handleRedirection cache target destination (some lla)) := by
  rw [handleRedirection]
  dsimp only
  cases hentry : find cache target with
  | none => exact .cons h hentry rfl (queued_stale rfl rfl) List.nil_subperm
  | some entry =>
    have haddress := h.address_of_find hentry
    dsimp only
    split
    · split
      · next hmac =>
        exact .keep h hentry haddress rfl (fun _ => hok entry hentry hmac)
          (fun hinc => Bool.noConfusion hinc) (List.Subperm.refl _)
      · exact .refl h (List.Subperm.refl _)
    · exact .refl h (List.Subperm.refl _)

theorem orderly_receiveLLA (h : AllEntries (Queued unresQlen) cache) {lla : Address}
    (hok : ∀ entry ∈ find cache src, entry.waiting ≠ [] →
      entry.isIncomplete = true ∧ src ∉ interface.addresses)
    (hreceive : receiveLLA interface unresQlen cache src lla = some (cache', sent)) :
    Orderly unresQlen cache [] sent cache' := by
  rw [receiveLLA] at hreceive
  cases hentry : find cache src with
  | none =>
    rw [hentry] at hreceive
    obtain ⟨rfl, rfl⟩ := Prod.mk.inj (Option.some.inj hreceive)
    refine .cons h hentry rfl ⟨Nat.zero_le _, fun _ _ => rfl, fun _ => rfl⟩ List.nil_subperm
  | some entry =>
    have hok := hok entry hentry
    have haddress := h.address_of_find hentry
    rw [hentry] at hreceive
    dsimp only at hreceive
    split at hreceive
    · next hinc =>
      obtain ⟨hardware, hsend⟩ := sendWaiting_reachable h
        (entry.stopRetransmitTimer.markReachableMac lla).restartReachableTimer hentry haddress rfl
        fun hqueue => ⟨rfl, (hok hqueue).2⟩
      obtain ⟨rfl, rfl⟩ := Prod.mk.inj (Option.some.inj (hreceive.symm.trans hsend))
      refine .flush h hentry ?_ rfl rfl _ hardware
      exact haddress
    · next hinc =>
      have hempty : entry.waiting = [] := by
        by_contra hqueue
        exact hinc (hok hqueue).1
      split at hreceive
      · obtain ⟨rfl, rfl⟩ := Prod.mk.inj (Option.some.inj hreceive)
        exact .keep h hentry haddress rfl (fun _ => hempty) (fun hinc => Bool.noConfusion hinc)
          (List.Subperm.refl _)
      · split at hreceive
        · obtain ⟨rfl, rfl⟩ := Prod.mk.inj (Option.some.inj hreceive)
          dsimp only
          rw [putEntry_putEntry]
          · exact .keep h hentry haddress rfl (fun _ => hempty)
              (fun hinc => Bool.noConfusion hinc) (List.Subperm.refl _)
          · rfl
        · obtain ⟨rfl, rfl⟩ := Prod.mk.inj (Option.some.inj hreceive)
          exact .refl h (List.Subperm.refl _)

/-- An advertisement for an entry with a queue that makes it leave INCOMPLETE or PROBE is
solicited, and comes from the address itself. -/
def Answers (interface : Interface) (src : Ipv6Address) (naHeader : NAHeader) (lla : Address)
    (entry : Entry Packet) : Prop :=
  (entry.isIncomplete = true → naHeader.flagS = true) ∧
    (naHeader.flagS = true →
      entry.isIncomplete = true ∨ naHeader.flagO = true ∨ lla = entry.macAddress →
        src = naHeader.target ∧ src ∉ interface.addresses)

/-- The queue is sent from PROBE, and empty in the other states. -/
theorem orderly_confirm (h : AllEntries (Queued unresQlen) cache)
    (hentry : find cache dst = some entry) (haddress : entry.ipv6Address = dst)
    (hknown : entry.isIncomplete = false)
    (hdest : entry.waiting ≠ [] → src = dst ∧ src ∉ interface.addresses) (lla : Address) :
    ∃ (entry₁ : Entry Packet) (sent : List (Sent Packet)),
      confirm interface unresQlen cache (entry.stopProbeTimer.stopDelayTimer.setMacAddress lla) lla
        src = some (cache.putEntry entry₁, sent) ∧ entry₁.ipv6Address = dst ∧
      ∀ router, Orderly unresQlen cache [] sent
        (cache.putEntry (entry₁.restartReachableTimer.setRouter router)) := by
  have hq := h.of_find hentry
  have hidle : entry.isProbe = false → entry.waiting = [] := hq.idle hknown
  rw [confirm]
  split
  · refine ⟨_, [], rfl, haddress, fun router => ?_⟩
    exact .keep h hentry haddress rfl (fun hstate => absurd rfl hstate) (fun _ => rfl)
      (List.Subperm.refl _)
  · split
    · obtain ⟨hardware, hsend⟩ := sendWaiting_reachable h
        ((entry.stopProbeTimer.stopDelayTimer.setMacAddress lla).markReachableMac lla) hentry
        haddress rfl hdest
      refine ⟨_, _, hsend, haddress, fun router => ?_⟩
      refine .flush h hentry ?_ rfl rfl _ hardware
      exact haddress
    · next hprobe =>
      refine ⟨_, [], rfl, haddress, fun router => ?_⟩
      exact .keep h hentry haddress rfl (fun _ => hidle (Bool.eq_false_iff.mpr hprobe))
        (fun hinc => Bool.noConfusion hinc) (List.Subperm.refl _)

theorem orderly_handleNA (h : AllEntries (Queued unresQlen) cache) {naHeader : NAHeader}
    {lla : Address}
    (hok : ∀ entry ∈ find cache naHeader.target, entry.waiting ≠ [] →
      Answers interface src naHeader lla entry)
    (hna : handleNA interface unresQlen cache src naHeader (some lla) = some (cache', sent)) :
    Orderly unresQlen cache [] sent cache' := by
  unfold handleNA at hna
  cases hentry : find cache naHeader.target with
  | none =>
    rw [hentry] at hna
    obtain ⟨rfl, rfl⟩ := Prod.mk.inj (Option.some.inj hna)
    exact .refl h (List.Subperm.refl _)
  | some entry =>
    have hok := hok entry hentry
    have hq := h.of_find hentry
    have haddress := h.address_of_find hentry
    rw [hentry] at hna
    dsimp only at hna
    split at hna
    · next hinc =>
      have hrouter : ∀ e : Entry Packet, e.ipv6Address = naHeader.target →
          (if naHeader.flagR = true then modify (cache.putEntry e) naHeader.target (·.setRouter true)
            else cache.putEntry e) =
          cache.putEntry (if naHeader.flagR = true then e.setRouter true else e) := by
        intro e he
        split
        · exact modify_putEntry he rfl
        · rfl
      split at hna
      · next hflag =>
        obtain ⟨hardware, hsend⟩ := sendWaiting_reachable h
          (entry.stopRetransmitTimer.markReachableMac lla).restartReachableTimer hentry haddress rfl
          fun hqueue => (hok hqueue).2 hflag (.inl hinc)
        rw [Entry.startReachableTimer_stop, Option.bind_some, hsend, Option.map_some] at hna
        obtain ⟨rfl, rfl⟩ := Prod.mk.inj (Option.some.inj hna)
        dsimp only
        rw [hrouter]
        · refine .flush h hentry ?_ ?_ ?_ _ hardware
          · split <;> exact haddress
          · split <;> rfl
          · split <;> rfl
        · exact haddress
      · next hflag =>
        obtain ⟨rfl, rfl⟩ := Prod.mk.inj (Option.some.inj hna)
        have hempty : entry.waiting = [] := by
          by_contra hqueue
          exact hflag ((hok hqueue).1 hinc)
        rw [hrouter]
        · refine .keep h hentry ?_ ?_ (fun _ => hempty) ?_ (List.Subperm.refl _)
          · split <;> exact haddress
          · split <;> rfl
          · split <;> exact fun hinc => Bool.noConfusion hinc
        · exact haddress
    · next hinc =>
      have hknown : entry.isIncomplete = false := Bool.eq_false_iff.mpr hinc
      have hidle : entry.state ≠ .probe → entry.waiting = [] :=
        fun hprobe => hq.idle hknown (decide_eq_false hprobe)
      split at hna
      · obtain ⟨rfl, rfl⟩ := Prod.mk.inj (Option.some.inj hna)
        split
        · next hreachable =>
          have hstate : entry.state = .reachable := of_decide_eq_true hreachable
          exact .keep h hentry haddress rfl (fun _ => hidle (by simp [hstate]))
            (fun hinc => Bool.noConfusion hinc) (List.Subperm.refl _)
        · exact .keep h hentry haddress rfl (fun hstate => absurd rfl hstate) (fun _ => rfl)
            (List.Subperm.refl _)
      · next hnew =>
        have hconfirmed : naHeader.flagO = true ∨ lla = entry.macAddress := by
          by_contra hno
          rw [not_or, Bool.not_eq_true] at hno
          exact hnew (by
            rw [Bool.and_eq_true, hno.1]
            exact ⟨rfl, decide_eq_true hno.2⟩)
        split at hna
        · next hflag =>
          have hdest : entry.waiting ≠ [] → src = naHeader.target ∧ src ∉ interface.addresses :=
            fun hqueue => (hok hqueue).2 hflag (.inr hconfirmed)
          obtain ⟨entry₁, sent₁, hconfirm, haddress₁, horderly⟩ :=
            orderly_confirm h hentry haddress hknown hdest lla
          rw [hconfirm, Option.bind_some] at hna
          dsimp only at hna
          rw [h.find_putEntry hentry haddress₁, Option.bind_some, Entry.startReachableTimer_stop,
            Option.map_some] at hna
          obtain ⟨rfl, rfl⟩ := Prod.mk.inj (Option.some.inj hna)
          rw [putEntry_putEntry, modify_putEntry]
          · exact horderly _
          · exact haddress₁
          · rfl
          · rfl
        · split at hna
          · next hne => exact absurd rfl hne
          · obtain ⟨rfl, rfl⟩ := Prod.mk.inj (Option.some.inj hna)
            rw [modify_putEntry]
            · exact .keep h hentry haddress rfl (fun hstate => absurd rfl hstate) (fun _ => rfl)
                (List.Subperm.refl _)
            · exact haddress
            · rfl

end Ns3Noc.Ndisc
