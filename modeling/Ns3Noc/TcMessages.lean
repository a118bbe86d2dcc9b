import Ns3Noc.OlsrState
import Ns3Noc.PartialRuns

/-!
# TC messages

`ProcessTc` and the topology set, and the messages of originators that number their advertised
sets in order.
-/
namespace Ns3Noc.Olsr

open PartialRuns

def OLSR_MAX_SEQ_NUM : ℕ := 65535

/-- The first tuple of the link decides. -/
def LinkSet.findSymLinkTuple (linkSet : LinkSet) (ifaceAddr : Ipv4Address) (now : Time) :
    Option LinkTuple :=
  match linkSet.findLinkTuple ifaceAddr with
  | some it => if it.symTime > now then some it else none
  | none => none

namespace TopologySet

variable (topologySet : TopologySet)

def findTopologyTuple (destAddr lastAddr : Ipv4Address) : Option TopologyTuple :=
  topologySet.find? fun it => it.destAddr = destAddr ∧ it.lastAddr = lastAddr

def findNewerTopologyTuple (lastAddr : Ipv4Address) (ansn : UInt16) : Option TopologyTuple :=
  topologySet.find? fun it => it.lastAddr = lastAddr ∧ it.sequenceNumber > ansn

def eraseOlderTopologyTuples (lastAddr : Ipv4Address) (ansn : UInt16) : TopologySet :=
  topologySet.filter fun it => ¬(it.lastAddr = lastAddr ∧ it.sequenceNumber < ansn)

def insertTopologyTuple (tuple : TopologyTuple) : TopologySet := topologySet ++ [tuple]

/-- A change through the pointer that `FindTopologyTuple` returns. -/
def modifyTopologyTuple (f : TopologyTuple → TopologyTuple) (destAddr lastAddr : Ipv4Address) :
    TopologySet → TopologySet
  | [] => []
  | it :: rest =>
    if it.destAddr = destAddr ∧ it.lastAddr = lastAddr then f it :: rest
    else it :: modifyTopologyTuple f destAddr lastAddr rest

end TopologySet

/-- A message header with its TC. -/
structure TcMessage where
  vTime : Time
  originatorAddress : Ipv4Address
  ansn : UInt16
  neighborAddresses : List Ipv4Address
  deriving DecidableEq, Repr

/-- 4. One advertised neighbour. -/
def TopologySet.advertise (now : Time) (msg : TcMessage) (topologySet : TopologySet)
    (addr : Ipv4Address) : TopologySet :=
  match topologySet.findTopologyTuple addr msg.originatorAddress with
  | some _ => modifyTopologyTuple (fun it => { it with expirationTime := now + msg.vTime }) addr
      msg.originatorAddress topologySet
  | none => topologySet.insertTopologyTuple
      ⟨addr, msg.originatorAddress, msg.ansn, now + msg.vTime⟩

def processTc (linkSet : LinkSet) (now : Time) (topologySet : TopologySet) (msg : TcMessage)
    (senderIface : Ipv4Address) : TopologySet :=
  match linkSet.findSymLinkTuple senderIface now with
  | none => topologySet
  | some _ =>
    match topologySet.findNewerTopologyTuple msg.originatorAddress msg.ansn with
    | some _ => topologySet
    | none => msg.neighborAddresses.foldl (TopologySet.advertise now msg)
        (topologySet.eraseOlderTopologyTuples msg.originatorAddress msg.ansn)

/-- `IncrementAnsn` -/
def incrementAnsn (ansn : UInt16) : UInt16 :=
  UInt16.ofNat ((ansn.toNat + 1) % (OLSR_MAX_SEQ_NUM + 1))

/-! ## One originator's tuples -/

variable {topologySet topologySet' : TopologySet} {o : Ipv4Address} {msg : TcMessage} {now : Time}

/-- The tuples of the originator have the sequence number and exactly these destinations. -/
structure TopologySet.Holds (topologySet : TopologySet) (o : Ipv4Address) (ansn : UInt16)
    (addrs : Ipv4Address → Prop) : Prop where
  sequenceNumber : ∀ it ∈ topologySet, it.lastAddr = o → it.sequenceNumber = ansn
  addrs : ∀ a, (∃ it ∈ topologySet, it.lastAddr = o ∧ it.destAddr = a) ↔ addrs a

/-- The tuples of the originator stay. -/
def TopologySet.Untouched (o : Ipv4Address) (topologySet topologySet' : TopologySet) : Prop :=
  ∀ it : TopologyTuple, it.lastAddr = o → (it ∈ topologySet' ↔ it ∈ topologySet)

namespace TopologySet

theorem Untouched.trans {topologySet'' : TopologySet} (h : Untouched o topologySet topologySet')
    (h' : Untouched o topologySet' topologySet'') : Untouched o topologySet topologySet'' :=
  fun it hit => (h' it hit).trans (h it hit)

theorem Holds.of_untouched {ansn : UInt16} {addrs : Ipv4Address → Prop}
    (h : topologySet.Holds o ansn addrs) (hsame : Untouched o topologySet topologySet') :
    topologySet'.Holds o ansn addrs where
  sequenceNumber it hit hlast := h.sequenceNumber it ((hsame it hlast).mp hit) hlast
  addrs a := by
    rw [← h.addrs a]
    constructor
    · intro ⟨it, hit, hlast, hdest⟩
      exact ⟨it, (hsame it hlast).mp hit, hlast, hdest⟩
    · intro ⟨it, hit, hlast, hdest⟩
      exact ⟨it, (hsame it hlast).mpr hit, hlast, hdest⟩

theorem mem_modifyTopologyTuple {f : TopologyTuple → TopologyTuple} {dest last : Ipv4Address}
    {it : TopologyTuple} (h : it ∈ modifyTopologyTuple f dest last topologySet) :
    it ∈ topologySet ∨ ∃ old ∈ topologySet, old.lastAddr = last ∧ old.destAddr = dest ∧
      it = f old := by
  induction topologySet with
  | nil => exact absurd h List.not_mem_nil
  | cons first rest ih =>
    rw [modifyTopologyTuple] at h
    split at h
    · next hfirst =>
      rcases List.mem_cons.mp h with rfl | h
      · exact .inr ⟨first, List.mem_cons_self, hfirst.2, hfirst.1, rfl⟩
      · exact .inl (List.mem_cons_of_mem _ h)
    · rcases List.mem_cons.mp h with rfl | h
      · exact .inl List.mem_cons_self
      · rcases ih h with h | ⟨old, hold, hrest⟩
        · exact .inl (List.mem_cons_of_mem _ h)
        · exact .inr ⟨old, List.mem_cons_of_mem _ hold, hrest⟩

theorem mem_modifyTopologyTuple_of_mem {f : TopologyTuple → TopologyTuple}
    {dest last : Ipv4Address} {it : TopologyTuple} (h : it ∈ topologySet) :
    it ∈ modifyTopologyTuple f dest last topologySet ∨
      it.lastAddr = last ∧ it.destAddr = dest ∧
        f it ∈ modifyTopologyTuple f dest last topologySet := by
  induction topologySet with
  | nil => exact absurd h List.not_mem_nil
  | cons first rest ih =>
    rw [modifyTopologyTuple]
    rcases List.mem_cons.mp h with rfl | h
    · split
      · next hfirst => exact .inr ⟨hfirst.2, hfirst.1, List.mem_cons_self⟩
      · exact .inl List.mem_cons_self
    · split
      · exact .inl (List.mem_cons_of_mem _ h)
      · rcases ih h with h | ⟨hlast, hdest, h⟩
        · exact .inl (List.mem_cons_of_mem _ h)
        · exact .inr ⟨hlast, hdest, List.mem_cons_of_mem _ h⟩

theorem untouched_advertise (ho : o ≠ msg.originatorAddress) (addr : Ipv4Address) :
    Untouched o topologySet (advertise now msg topologySet addr) := by
  intro it hit
  have hne : it.lastAddr ≠ msg.originatorAddress := fun heq => ho (hit.symm.trans heq)
  rw [advertise]
  split
  · constructor
    · intro h
      rcases mem_modifyTopologyTuple h with h | ⟨old, -, hlast, -, rfl⟩
      · exact h
      · exact absurd hlast hne
    · intro h
      rcases mem_modifyTopologyTuple_of_mem h with h | ⟨hlast, -, -⟩
      · exact h
      · exact absurd hlast hne
  · rw [insertTopologyTuple, List.mem_append, List.mem_singleton]
    constructor
    · intro h
      rcases h with h | rfl
      · exact h
      · exact absurd rfl hne
    · exact .inl

theorem Holds.advertise {addrs : Ipv4Address → Prop} (now : Time)
    (h : topologySet.Holds msg.originatorAddress msg.ansn addrs) (addr : Ipv4Address) :
    (TopologySet.advertise now msg topologySet addr).Holds msg.originatorAddress msg.ansn
      (fun a => addrs a ∨ a = addr) := by
  rw [TopologySet.advertise]
  split
  · next old hold =>
    have hfound : addrs addr := by
      have hmatch := List.find?_some hold
      simp only [decide_eq_true_eq] at hmatch
      exact (h.addrs addr).mp ⟨old, List.mem_of_find?_eq_some hold, hmatch.2, hmatch.1⟩
    refine ⟨fun it hit hlast => ?_, fun a => ?_⟩
    · rcases mem_modifyTopologyTuple hit with hit | ⟨old, hmem, hlast, -, rfl⟩
      · exact h.sequenceNumber it hit hlast
      · exact h.sequenceNumber old hmem hlast
    · constructor
      · intro ⟨it, hit, hlast, hdest⟩
        left
        rw [← h.addrs a]
        rcases mem_modifyTopologyTuple hit with hit | ⟨old, hmem, hlast, -, rfl⟩
        · exact ⟨it, hit, hlast, hdest⟩
        · exact ⟨old, hmem, hlast, hdest⟩
      · intro ha
        have ha : addrs a := ha.elim id fun heq => heq ▸ hfound
        obtain ⟨it, hit, hlast, hdest⟩ := (h.addrs a).mpr ha
        rcases mem_modifyTopologyTuple_of_mem hit with hit | ⟨-, -, hit⟩
        · exact ⟨it, hit, hlast, hdest⟩
        · exact ⟨_, hit, hlast, hdest⟩
  · refine ⟨fun it hit hlast => ?_, fun a => ?_⟩
    · rcases List.mem_append.mp hit with hit | hit
      · exact h.sequenceNumber it hit hlast
      · rw [List.mem_singleton.mp hit]
    · rw [← h.addrs a]
      constructor
      · intro ⟨it, hit, hlast, hdest⟩
        rcases List.mem_append.mp hit with hit | hit
        · exact .inl ⟨it, hit, hlast, hdest⟩
        · rw [List.mem_singleton.mp hit] at hdest
          exact .inr hdest.symm
      · intro ha
        rcases ha with ⟨it, hit, hlast, hdest⟩ | rfl
        · exact ⟨it, List.mem_append_left _ hit, hlast, hdest⟩
        · exact ⟨_, List.mem_append_right _ (List.mem_singleton_self _), rfl, rfl⟩

theorem Holds.foldl_advertise {addrs : Ipv4Address → Prop} (now : Time)
    (h : topologySet.Holds msg.originatorAddress msg.ansn addrs) (l : List Ipv4Address) :
    (l.foldl (TopologySet.advertise now msg) topologySet).Holds msg.originatorAddress msg.ansn
      (fun a => addrs a ∨ a ∈ l) := by
  induction l generalizing topologySet addrs with
  | nil => simpa using h
  | cons addr l ih =>
    have hnext := ih (h.advertise now addr)
    simp only [or_assoc] at hnext
    simpa only [List.foldl_cons, List.mem_cons] using hnext

theorem untouched_foldl_advertise (ho : o ≠ msg.originatorAddress) (l : List Ipv4Address) :
    Untouched o topologySet (l.foldl (TopologySet.advertise now msg) topologySet) := by
  induction l generalizing topologySet with
  | nil => exact fun _ _ => Iff.rfl
  | cons addr l ih => exact (untouched_advertise ho addr).trans ih

theorem untouched_eraseOlder {last : Ipv4Address} (ho : o ≠ last) (ansn : UInt16) :
    Untouched o topologySet (topologySet.eraseOlderTopologyTuples last ansn) := by
  intro it hit
  have hne : it.lastAddr ≠ last := fun heq => ho (hit.symm.trans heq)
  simp [eraseOlderTopologyTuples, hne]

variable {ansn : UInt16} {addrs : Ipv4Address → Prop}

/-- A message behind a tuple of its originator is discarded. -/
theorem Holds.findNewer (h : topologySet.Holds o ansn addrs) {a : Ipv4Address} (ha : addrs a)
    {ansn' : UInt16} (hnewer : ansn' < ansn) :
    ∃ it, topologySet.findNewerTopologyTuple o ansn' = some it := by
  obtain ⟨it, hit, hlast, -⟩ := (h.addrs a).mpr ha
  rw [← Option.isSome_iff_exists, findNewerTopologyTuple, List.find?_isSome]
  exact ⟨it, hit, by simpa [hlast, h.sequenceNumber it hit hlast] using hnewer⟩

theorem Holds.findNewer_eq_none (h : topologySet.Holds o ansn addrs) {ansn' : UInt16}
    (hnewer : (∃ a, addrs a) → ¬ansn' < ansn) :
    topologySet.findNewerTopologyTuple o ansn' = none := by
  rw [findNewerTopologyTuple, List.find?_eq_none]
  intro it hit
  simp only [decide_eq_true_eq]
  rintro ⟨hlast, hlt⟩
  rw [h.sequenceNumber it hit hlast] at hlt
  exact hnewer ⟨it.destAddr, (h.addrs _).mp ⟨it, hit, hlast, rfl⟩⟩ hlt

theorem Holds.eraseOlder_same (h : topologySet.Holds o ansn addrs) :
    (topologySet.eraseOlderTopologyTuples o ansn).Holds o ansn addrs := by
  refine h.of_untouched fun it hlast => ?_
  rw [eraseOlderTopologyTuples, List.mem_filter]
  constructor
  · exact And.left
  · intro hit
    refine ⟨hit, ?_⟩
    simp [hlast, h.sequenceNumber it hit hlast]

theorem Holds.eraseOlder_all (h : topologySet.Holds o ansn addrs) {ansn' : UInt16}
    (hnewer : (∃ a, addrs a) → ansn < ansn') :
    (topologySet.eraseOlderTopologyTuples o ansn').Holds o ansn' (fun _ => False) := by
  have hnone : ∀ it ∈ topologySet.eraseOlderTopologyTuples o ansn', it.lastAddr ≠ o := by
    intro it hit hlast
    rw [eraseOlderTopologyTuples, List.mem_filter] at hit
    obtain ⟨hit, hkept⟩ := hit
    have hlt := hnewer ⟨it.destAddr, (h.addrs _).mp ⟨it, hit, hlast, rfl⟩⟩
    simp [hlast, h.sequenceNumber it hit hlast] at hkept
    exact UInt16.lt_irrefl _ (UInt16.lt_of_le_of_lt hkept hlt)
  exact ⟨fun it hit hlast => absurd hlast (hnone it hit),
    fun a => ⟨fun ⟨it, hit, hlast, _⟩ => hnone it hit hlast, False.elim⟩⟩

end TopologySet

/-! ## One message -/

section

variable {linkSet : LinkSet} {senderIface : Ipv4Address} (msg)

theorem untouched_processTc (linkSet : LinkSet) (now : Time) (topologySet : TopologySet)
    (senderIface : Ipv4Address) (ho : o ≠ msg.originatorAddress) :
    TopologySet.Untouched o topologySet (processTc linkSet now topologySet msg senderIface) := by
  rw [processTc]
  split
  · exact fun _ _ => Iff.rfl
  · split
    · exact fun _ _ => Iff.rfl
    · exact (TopologySet.untouched_eraseOlder ho _).trans
        (TopologySet.untouched_foldl_advertise ho _)

variable {ansn : UInt16} {addrs : Ipv4Address → Prop}
  (hlink : (linkSet.findSymLinkTuple senderIface now).isSome)
  (h : topologySet.Holds msg.originatorAddress ansn addrs)

include hlink h

theorem processTc_of_lt (hlt : msg.ansn < ansn) (hne : ∃ a, addrs a) :
    processTc linkSet now topologySet msg senderIface = topologySet := by
  obtain ⟨link, hlink⟩ := Option.isSome_iff_exists.mp hlink
  obtain ⟨a, ha⟩ := hne
  obtain ⟨it, hit⟩ := h.findNewer ha hlt
  rw [processTc, hlink]
  dsimp only
  rw [hit]

theorem holds_processTc_same (hsame : msg.ansn = ansn) :
    (processTc linkSet now topologySet msg senderIface).Holds msg.originatorAddress ansn
      (fun a => addrs a ∨ a ∈ msg.neighborAddresses) := by
  obtain ⟨link, hlink⟩ := Option.isSome_iff_exists.mp hlink
  subst hsame
  have hnone := h.findNewer_eq_none fun _ => UInt16.lt_irrefl msg.ansn
  rw [processTc, hlink]
  dsimp only
  rw [hnone]
  exact h.eraseOlder_same.foldl_advertise now _

theorem holds_processTc_newer (hnewer : (∃ a, addrs a) → ansn < msg.ansn) :
    (processTc linkSet now topologySet msg senderIface).Holds msg.originatorAddress msg.ansn
      (· ∈ msg.neighborAddresses) := by
  obtain ⟨link, hlink⟩ := Option.isSome_iff_exists.mp hlink
  have hnone := h.findNewer_eq_none (fun hne => UInt16.lt_asymm (hnewer hne))
  rw [processTc, hlink]
  dsimp only
  rw [hnone]
  have hall := (h.eraseOlder_all hnewer).foldl_advertise now msg.neighborAddresses
  simpa only [false_or] using hall

end

end Ns3Noc.Olsr
