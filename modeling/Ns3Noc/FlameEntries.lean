import Ns3Noc.FlameMesh
import Ns3Noc.FlameReception

/-!
# What the events of a node add to a run

The entries in the log and the copies on the air, for the packets of the node itself and for a frame
that it accepts.
-/
namespace Ns3Noc.Flame

open Wifi (Mac48Address)

variable {device : Device} {m n source : Mac48Address} {origin : Sighting}

theorem seqnoOf_succ (index : ℕ) : seqnoOf index + 1 = seqnoOf (index + 1) := by
  rw [seqnoOf, seqnoOf, ← Nat.add_assoc, UInt16.ofNat_add (1 + index) 1]
  rfl

/-- Numbers that are less than half the range apart are compared rightly. -/
theorem index_lt_of_toInt16_neg {i j : ℕ} (hclose : i ≤ j + (2 ^ 15 - 1))
    (hneg : (seqnoOf i - seqnoOf j).toInt16 < 0) : i < j := by
  by_contra hle
  obtain ⟨k, rfl⟩ := Nat.exists_eq_add_of_le (Nat.not_lt.mp hle)
  have hk : k < 2 ^ 15 := by omega
  have hdiff : seqnoOf (j + k) - seqnoOf j = UInt16.ofNat k := by
    rw [seqnoOf, seqnoOf, ← Nat.add_assoc, UInt16.ofNat_add (1 + j) k, add_sub_cancel_left]
  rw [hdiff, Int16.lt_iff_toInt_lt] at hneg
  have htoInt : (UInt16.ofNat k).toInt16.toInt = (BitVec.ofNat 16 k).toInt := rfl
  have hmod : k % 2 ^ 16 = k := Nat.mod_eq_of_lt (by omega)
  rw [htoInt, BitVec.toInt_eq_toNat_cond, BitVec.toNat_ofNat, hmod, if_pos (by omega)] at hneg
  exact absurd hneg (by simp)

/-! ## The log -/

theorem entries_append (n : Mac48Address) (origin : Sighting) (k : ℕ) (events events' : List Event) :
    entries n origin k (events ++ events') = entries n origin k events ++
      entries n origin (k + events.countP (·.isFrom n)) events' := by
  induction events generalizing k with
  | nil => rfl
  | cons event events ih =>
    cases event with
    | addPath => simp [entries, Event.isFrom, ih]
    | rxCallback => simp [entries, Event.isFrom, ih]
    | doSend packet src dst protocol outIface =>
      by_cases hsrc : src = n
      · simp [entries, Event.isFrom, ih, hsrc, Nat.add_assoc, Nat.add_comm 1]
      · simp [entries, Event.isFrom, ih, hsrc]

theorem countP_isFrom_doSend (packet : Packet) (m dst : Mac48Address) (protocol : UInt16)
    (outIface : ℕ) (events : List Event) :
    (Event.doSend packet m dst protocol outIface :: events).countP (·.isFrom m) =
      events.countP (·.isFrom m) + 1 :=
  List.countP_cons_of_pos (decide_eq_true rfl)

/-- An entry that sends has a frame that is ready to be sent. -/
def Entry.Sends (device : Device) (entry : Entry) (packet : Packet) (hdr : FlameHeader)
    (source : Mac48Address) : Prop :=
  packet.header = some hdr ∧ ∃ tag dst outIface, packet.tag = some tag ∧ device.HasOut outIface ∧
    entry.event = .doSend packet source dst flameProtocol outIface

/-- The packets of the node itself leave the frames of others alone. -/
theorem Originates.filterMap_eq {a b : UInt16} {events : List Event}
    (h : Originates device m a events b) (n source : Mac48Address) (origin : Sighting) (k : ℕ) :
    (entries m origin k events).filterMap (Entry.stored n source) = [] ∧
      (entries m origin k events).filterMap (Entry.passedUp n source) = [] ∧
      (entries m origin k events).filterMap (Entry.forwarded n source) = [] := by
  induction h generalizing k with
  | nil => exact ⟨rfl, rfl, rfl⟩
  | cons =>
    rename_i ih
    obtain ⟨hstored, hpassed, hforwarded⟩ := ih (k + 1)
    rw [entries, if_pos rfl]
    refine ⟨hstored, hpassed, ?_⟩
    rw [List.filterMap_cons_none, hforwarded]
    refine if_neg ?_
    rintro ⟨rfl, rfl, hne⟩
    exact hne rfl

/-- A packet of the node itself, numbered from `k` on and below `l` -/
def Entry.Own (device : Device) (m : Mac48Address) (k l : ℕ) (entry : Entry) : Prop :=
  ∃ packet hdr, entry.Sends device packet hdr m ∧ hdr.seqno = seqnoOf entry.sighting.index ∧
    hdr.cost = 0 ∧ entry.sighting.hops = 0 ∧ k ≤ entry.sighting.index ∧ entry.sighting.index < l

/-- A frame that is sent on -/
def Entry.Forwards (device : Device) (source : Mac48Address) (hdr : FlameHeader)
    (origin : Sighting) (entry : Entry) : Prop :=
  ∃ packet, entry.Sends device packet (hdr.addCost 1) source ∧
    entry.sighting = ⟨origin.index, origin.hops + 1⟩

def Entry.Silent (entry : Entry) : Prop :=
  ∀ packet src dst protocol outIface, entry.event ≠ .doSend packet src dst protocol outIface

theorem Entry.Own.mono {k k' l l' : ℕ} {entry : Entry} (h : entry.Own device m k l) (hk : k' ≤ k)
    (hl : l ≤ l') : entry.Own device m k' l' := by
  obtain ⟨packet, hdr, hsends, hseqno, hcost, hhops, hle, hlt⟩ := h
  exact ⟨packet, hdr, hsends, hseqno, hcost, hhops, hk.trans hle, hlt.trans_le hl⟩

/-- The packets of the node itself have consecutive numbers. -/
theorem Originates.numbered {a b : UInt16} {events : List Event}
    (h : Originates device m a events b) (origin : Sighting) (k : ℕ) (ha : a = seqnoOf k) :
    b = seqnoOf (k + events.countP (·.isFrom m)) ∧
      ∀ entry ∈ entries m origin k events,
        entry.Own device m k (k + events.countP (·.isFrom m)) := by
  induction h generalizing k with
  | nil => exact ⟨ha, fun _ hmem => absurd hmem List.not_mem_nil⟩
  | cons hheader htag hseqno hcost hout hrest ih =>
    obtain ⟨hlast, hentries⟩ := ih (k + 1) (by rw [ha, seqnoOf_succ])
    rw [countP_isFrom_doSend]
    refine ⟨?_, fun entry hmem => ?_⟩
    · rw [hlast]
      congr 1
      omega
    · rw [entries, if_pos rfl] at hmem
      cases List.mem_cons.mp hmem with
      | inl heq =>
        subst heq
        exact ⟨_, _, ⟨hheader, _, _, _, htag, hout, rfl⟩, hseqno.trans ha, hcost, rfl, le_refl k,
          Nat.lt_add_of_pos_right (Nat.succ_pos _)⟩
      | inr hmem => exact (hentries entry hmem).mono (by omega) (by omega)

/-! ## The air -/

/-- A copy of the frame that an entry sends -/
structure Frame.CopyOf (device : Device) (entry : Entry) (f : Frame) : Prop where
  tag_eq : f.packet.tag = none
  protocol_eq : f.protocol = flameProtocol
  addr2_ne : f.addr2 ≠ broadcast
  sighting_eq : f.sighting = entry.sighting
  header_eq : ∀ packet hdr src, entry.Sends device packet hdr src →
    f.packet.header = some hdr ∧ f.source = src

namespace Device

theorem outInterfaces_ok {outIface : ℕ} (hout : device.HasOut outIface) :
    ∃ interfaces, device.outInterfaces outIface = .ok interfaces ∧
      ∀ i ∈ interfaces, i ∈ device.interfaces := by
  rw [outInterfaces]
  split
  · exact ⟨device.interfaces, rfl, fun _ h => h⟩
  · cases hfind : device.interfaces.find? (·.1 = outIface) with
    | some interface =>
      refine ⟨[interface], rfl, fun i hi => ?_⟩
      rw [List.mem_singleton.mp hi]
      exact List.mem_of_find?_eq_some hfind
    | none =>
      obtain ⟨i, hi, heq⟩ := List.mem_map.mp (hout.resolve_left ‹_›)
      exact absurd (decide_eq_true heq) (List.find?_eq_none.mp hfind i hi)

theorem transmit_ok {entry : Entry}
    (h : entry.Silent ∨ ∃ packet hdr src, entry.Sends device packet hdr src) :
    ∃ frames, device.transmit entry = .ok frames ∧
      ∀ f ∈ frames, ¬entry.Silent ∧ f.CopyOf device entry := by
  cases h with
  | inl hsilent =>
    refine ⟨[], ?_, fun _ hf => absurd hf List.not_mem_nil⟩
    rw [transmit]
    split
    · exact absurd ‹_› (hsilent _ _ _ _ _)
    · rfl
  | inr hsends =>
    obtain ⟨packet, hdr, src, hheader, tag, dst, outIface, htag, hout, hevent⟩ := hsends
    obtain ⟨interfaces, hinterfaces, hmem⟩ := outInterfaces_ok hout
    have hok : device.transmit entry = .ok (interfaces.map fun i =>
        ⟨{ packet with tag := none }, tag.receiver, i.2, dst, src, flameProtocol,
          entry.sighting⟩) := by
      rw [transmit, hevent]
      simp only [bind, Except.bind, hinterfaces, htag]
      rfl
    refine ⟨_, hok, fun f hf => ?_⟩
    · obtain ⟨i, hi, rfl⟩ := List.mem_map.mp hf
      refine ⟨fun hsilent => hsilent _ _ _ _ _ hevent, rfl, rfl,
        device.address_ne_broadcast i (hmem i hi), rfl, ?_⟩
      rintro packet' hdr' src' ⟨hheader', _, _, _, -, -, hevent'⟩
      obtain ⟨rfl, rfl, -⟩ := Event.doSend.inj (hevent.symm.trans hevent')
      exact ⟨hheader', rfl⟩

theorem transmitAll_ok {log : List Entry}
    (h : ∀ entry ∈ log, entry.Silent ∨ ∃ packet hdr src, entry.Sends device packet hdr src) :
    ∃ frames, device.transmitAll log = .ok frames ∧
      ∀ f ∈ frames, ∃ entry ∈ log, ¬entry.Silent ∧ f.CopyOf device entry := by
  induction log with
  | nil => exact ⟨[], rfl, fun _ hf => absurd hf List.not_mem_nil⟩
  | cons entry log ih =>
    obtain ⟨frames, hframes, hcopies⟩ := transmit_ok (h entry List.mem_cons_self)
    obtain ⟨rest, hrest, hcopies'⟩ := ih fun e he => h e (List.mem_cons_of_mem entry he)
    refine ⟨frames ++ rest, ?_, fun f hf => ?_⟩
    · simp only [transmitAll, bind, Except.bind, hframes, hrest]
      rfl
    · cases List.mem_append.mp hf with
      | inl hf => exact ⟨entry, List.mem_cons_self, hcopies f hf⟩
      | inr hf =>
        obtain ⟨e, he, hcopy⟩ := hcopies' f hf
        exact ⟨e, List.mem_cons_of_mem entry he, hcopy⟩

end Device

/-! ## A frame that is accepted -/

namespace FlameProtocol

variable {now : ℕ} {s s' : FlameProtocol} {hdr : FlameHeader} {route : Route} {events : List Event}

/-- What is logged about the source at the node itself -/
def ofPair (m n source src : Mac48Address) (x : Sighting) : List Sighting :=
  if m = n ∧ source = src then [x] else []

theorem Received.filterMap_eq (h : Received source events) (m n src : Mac48Address)
    (origin : Sighting) (k : ℕ) :
    (entries m origin k events).filterMap (Entry.stored n src) = [] ∧
      List.Sublist ((entries m origin k events).filterMap (Entry.passedUp n src))
        (ofPair m n source src origin) ∧
      (entries m origin k events).filterMap (Entry.forwarded n src) = [] := by
  cases h with
  | inl hnil =>
    subst hnil
    exact ⟨rfl, List.nil_sublist _, rfl⟩
  | inr hone =>
    obtain ⟨packet, protocol, rfl⟩ := hone
    refine ⟨rfl, ?_, rfl⟩
    by_cases hpair : m = n ∧ source = src
    · simp [entries, Entry.passedUp, ofPair, hpair]
    · simp [entries, Entry.passedUp, hpair]

theorem Forwards.filterMap_eq (h : Forwards device source hdr events) (hm : source ≠ m)
    (n src : Mac48Address) (origin : Sighting) (k : ℕ) :
    (entries m origin k events).filterMap (Entry.stored n src) = [] ∧
      (entries m origin k events).filterMap (Entry.passedUp n src) = [] ∧
      List.Sublist ((entries m origin k events).filterMap (Entry.forwarded n src))
        (ofPair m n source src ⟨origin.index, origin.hops + 1⟩) := by
  cases h with
  | inl hnil =>
    subst hnil
    exact ⟨rfl, rfl, List.nil_sublist _⟩
  | inr hone =>
    obtain ⟨packet, tag, dst, outIface, -, -, -, rfl⟩ := hone
    rw [entries, if_neg hm]
    refine ⟨rfl, rfl, ?_⟩
    by_cases hpair : m = n ∧ source = src
    · obtain ⟨rfl, rfl⟩ := hpair
      simp [entries, Entry.forwarded, ofPair, hm]
    · have hnone : ¬(m = n ∧ source = src ∧ source ≠ n) := fun h => hpair ⟨h.1, h.2.1⟩
      simp [entries, Entry.forwarded, hnone]

/-- What an accepted frame adds to the logs -/
theorem Accepted.filterMap_eq (h : Accepted device m now s s' source hdr route events)
    (n src : Mac48Address) (origin : Sighting) (k : ℕ) :
    (entries m origin k events).filterMap (Entry.stored n src) = ofPair m n source src origin ∧
      List.Sublist ((entries m origin k events).filterMap (Entry.passedUp n src))
        (ofPair m n source src origin) ∧
      List.Sublist ((entries m origin k events).filterMap (Entry.forwarded n src))
        (ofPair m n source src ⟨origin.index, origin.hops + 1⟩) := by
  obtain ⟨seqno, own, received, own', sent, rfl, horig, hreceived, horig', hsent⟩ := h.events_eq
  have hown := horig.filterMap_eq n src origin
  have hown' := horig'.filterMap_eq n src origin
  have hreceived := Received.filterMap_eq hreceived m n src origin
  have hsent := Forwards.filterMap_eq hsent h.source_ne n src origin
  simp only [entries, entries_append]
  rw [List.filterMap_cons, List.filterMap_cons_none rfl, List.filterMap_cons_none rfl]
  simp only [List.filterMap_append, (hown _).1, (hown _).2.1, (hown _).2.2, (hown' _).1,
    (hown' _).2.1, (hown' _).2.2, (hreceived _).1, (hreceived _).2.2, (hsent _).1, (hsent _).2.1,
    List.nil_append, List.append_nil]
  refine ⟨?_, (hreceived _).2.1, (hsent _).2.2⟩
  by_cases hpair : m = n ∧ source = src
  · simp [Entry.stored, ofPair, hpair]
  · simp [Entry.stored, ofPair, hpair]

/-- An accepted frame sends packets of the node itself with consecutive numbers, and the frame. -/
theorem Accepted.numbered (h : Accepted device m now s s' source hdr route events)
    (origin : Sighting) (k : ℕ) (hs : s.myLastSeqno = seqnoOf k) :
    s'.myLastSeqno = seqnoOf (k + events.countP (·.isFrom m)) ∧
      ∀ entry ∈ entries m origin k events, entry.Silent ∨
        entry.Own device m k (k + events.countP (·.isFrom m)) ∨
        entry.Forwards device source hdr origin := by
  obtain ⟨seqno, own, received, own', sent, rfl, horig, hreceived, horig', hsent⟩ := h.events_eq
  obtain ⟨hmid, hown⟩ := horig.numbered origin k hs
  obtain ⟨hend, hown'⟩ := horig'.numbered origin _ hmid
  have hquiet : received.countP (·.isFrom m) = 0 := by
    obtain rfl | ⟨packet, protocol, rfl⟩ := hreceived
    · rfl
    · rfl
  have hlast : sent.countP (·.isFrom m) = 0 := by
    obtain rfl | ⟨packet, tag, dst, outIface, -, -, -, rfl⟩ := hsent
    · rfl
    · simp [Event.isFrom, h.source_ne]
  have hcount : (Event.addPath source route.retransmitter route.interface route.cost route.seqnum ::
      (own ++ received ++ own' ++ sent)).countP (·.isFrom m) =
        own.countP (·.isFrom m) + own'.countP (·.isFrom m) := by
    rw [List.countP_cons_of_neg Bool.false_ne_true, List.countP_append, List.countP_append,
      List.countP_append, hquiet, hlast]
    rfl
  rw [hcount]
  refine ⟨by rw [hend, Nat.add_assoc], ?_⟩
  simp only [entries, entries_append, hquiet, List.countP_append, Nat.add_zero, List.mem_cons,
    List.mem_append]
  rintro entry (rfl | ((hmem | hmem) | hmem) | hmem)
  · exact .inl nofun
  · exact .inr (.inl ((hown entry hmem).mono le_rfl (by omega)))
  · obtain rfl | ⟨packet, protocol, rfl⟩ := hreceived
    · exact absurd hmem List.not_mem_nil
    · rw [List.mem_singleton.mp hmem]
      exact .inl nofun
  · exact .inr (.inl ((hown' entry hmem).mono (by omega) (by omega)))
  · obtain rfl | ⟨packet, tag, dst, outIface, hheader, htag, hout, rfl⟩ := hsent
    · exact absurd hmem List.not_mem_nil
    · rw [entries, if_neg h.source_ne] at hmem
      rw [List.mem_singleton.mp hmem]
      exact .inr (.inr ⟨packet, ⟨hheader, tag, dst, outIface, htag, hout, rfl⟩, rfl⟩)

end FlameProtocol

end Ns3Noc.Flame
