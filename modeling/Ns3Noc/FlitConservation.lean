import Mathlib
import Ns3Noc.NocNetwork

/-!
# Flit conservation

A transmitted flit stays in its in-queue until its transmission has ended. While a flit is under way
it is the first one of this in-queue, its link is busy, and there is room for it where it arrives.
-/
namespace Ns3Noc

open PartialRuns

variable {δ γ σ : Type}

namespace FlitEvent
variable [DecidableEq δ]

def enqueuedUid (d : δ) : FlitEvent δ → Option ℕ
  | enqueued d' packet _ => if d' = d then some packet.uid else none
  | _ => none

def dequeuedUid (d : δ) : FlitEvent δ → Option ℕ
  | dequeued d' packet => if d' = d then some packet.uid else none
  | _ => none

/-- The triple that is recorded when a flit is enqueued. -/
def recordedFor (d : δ) (uid : ℕ) : FlitEvent δ → Option (SrcDest δ)
  | enqueued d' packet srcDest => if d' = d ∧ packet.uid = uid then some srcDest else none
  | _ => none

end FlitEvent

/-- The uids that come up in a trace. -/
def deliveredUids (trace : List (FlitEvent δ)) : List ℕ := trace.filterMap FlitEvent.deliveredUid

def injectedUids (trace : List (FlitEvent δ)) : List ℕ := trace.filterMap FlitEvent.injectedUid

def enqueuedUids [DecidableEq δ] (d : δ) (trace : List (FlitEvent δ)) : List ℕ :=
  trace.filterMap (FlitEvent.enqueuedUid d)

def dequeuedUids [DecidableEq δ] (d : δ) (trace : List (FlitEvent δ)) : List ℕ :=
  trace.filterMap (FlitEvent.dequeuedUid d)

theorem filterMap_concat {α β : Type} (f : α → Option β) (l : List α) (a : α) :
    (l ++ [a]).filterMap f = l.filterMap f ++ (f a).toList := by
  cases h : f a with
  | none => simp [h]
  | some b => simp [h]

@[simp] theorem deliveredUids_concat (trace : List (FlitEvent δ)) (e : FlitEvent δ) :
    deliveredUids (trace ++ [e]) = deliveredUids trace ++ e.deliveredUid.toList :=
  filterMap_concat _ _ _

@[simp] theorem injectedUids_concat (trace : List (FlitEvent δ)) (e : FlitEvent δ) :
    injectedUids (trace ++ [e]) = injectedUids trace ++ e.injectedUid.toList :=
  filterMap_concat _ _ _

@[simp] theorem enqueuedUids_concat [DecidableEq δ] (d : δ) (trace : List (FlitEvent δ))
    (e : FlitEvent δ) :
    enqueuedUids d (trace ++ [e]) = enqueuedUids d trace ++ (e.enqueuedUid d).toList :=
  filterMap_concat _ _ _

@[simp] theorem dequeuedUids_concat [DecidableEq δ] (d : δ) (trace : List (FlitEvent δ))
    (e : FlitEvent δ) :
    dequeuedUids d (trace ++ [e]) = dequeuedUids d trace ++ (e.dequeuedUid d).toList :=
  filterMap_concat _ _ _

/-- The triple of the last time that a flit was enqueued at a device. -/
def recorded [DecidableEq δ] (d : δ) (uid : ℕ) (trace : List (FlitEvent δ)) : Option (SrcDest δ) :=
  (trace.filterMap (FlitEvent.recordedFor d uid)).getLast?

/-- Every flit is sent with the triple that was recorded last. -/
def SentAsRecorded [DecidableEq δ] (trace : List (FlitEvent δ)) : Prop :=
  ∀ before d packet srcDest later, trace = before ++ .sent d packet srcDest :: later →
    recorded d packet.uid before = some srcDest

theorem recorded_concat [DecidableEq δ] (d : δ) (uid : ℕ) (trace : List (FlitEvent δ))
    (e : FlitEvent δ) :
    recorded d uid (trace ++ [e]) = (e.recordedFor d uid).or (recorded d uid trace) := by
  rw [recorded, filterMap_concat, recorded]
  cases e.recordedFor d uid with
  | none => simp
  | some srcDest => simp

theorem SentAsRecorded.concat [DecidableEq δ] {trace : List (FlitEvent δ)} {e : FlitEvent δ}
    (h : SentAsRecorded trace)
    (he : ∀ d packet srcDest, e = .sent d packet srcDest →
      recorded d packet.uid trace = some srcDest) : SentAsRecorded (trace ++ [e]) := by
  intro before d packet srcDest later heq
  obtain rfl | ⟨init, last, rfl⟩ := List.eq_nil_or_concat later
  · obtain ⟨rfl, hlast⟩ := List.append_inj' heq rfl
    exact he d packet srcDest (List.singleton_inj.mp hlast)
  · rw [List.concat_eq_append, ← List.cons_append, ← List.append_assoc] at heq
    exact h before d packet srcDest init (List.append_inj' heq rfl).1

/-- The uids in an in-queue. -/
def NetworkState.queued (s : NetworkState δ γ σ) (d : δ) : List ℕ :=
  (s.inQueue d).map fun q => q.packet.uid

/-- What decides where flits are: the addresses and uids in the in-queues, and the links. -/
structure FlitView (δ γ : Type) where
  ids : δ → List (ℕ × ℕ)
  pktSrcDestMap : δ → ℕ → Option (SrcDest δ)
  link : γ × Fin 2 → ChannelLink δ
  pending : List (TransmitEndEvent δ γ)
  allocated : ℕ
  trace : List (FlitEvent δ)

def NetworkState.view (s : NetworkState δ γ σ) : FlitView δ γ where
  ids d := (s.inQueue d).map fun q => (q.ptr, q.packet.uid)
  pktSrcDestMap := s.pktSrcDestMap
  link := s.link
  pending := s.pending
  allocated := s.allocated
  trace := s.trace

namespace FlitView

def log (v : FlitView δ γ) (e : FlitEvent δ) : FlitView δ γ := { v with trace := v.trace ++ [e] }

def setLink [DecidableEq γ] (v : FlitView δ γ) (w : γ × Fin 2) (link : ChannelLink δ) :
    FlitView δ γ :=
  { v with link := Function.update v.link w link }

def enqueue [DecidableEq δ] (v : FlitView δ γ) (d : δ) (packet : NocPacket)
    (srcDest : SrcDest δ) : FlitView δ γ :=
  { v with
    ids := Function.update v.ids d (v.ids d ++ [(v.allocated, packet.uid)])
    pktSrcDestMap := Function.update v.pktSrcDestMap d
      (Function.update (v.pktSrcDestMap d) v.allocated
        (some ((v.pktSrcDestMap d v.allocated).getD srcDest)))
    allocated := v.allocated + 1
    trace := v.trace ++ [.enqueued d packet srcDest] }

/-- The first flit of an in-queue is taken out. -/
def dequeue [DecidableEq δ] (v : FlitView δ γ) (d : δ) (ptr : ℕ) (packet : NocPacket)
    (rest : List (ℕ × ℕ)) : FlitView δ γ :=
  { v with
    ids := Function.update v.ids d rest
    pktSrcDestMap := Function.update v.pktSrcDestMap d
      (Function.update (v.pktSrcDestMap d) ptr none)
    trace := v.trace ++ [.dequeued d packet] }

end FlitView

namespace NocNetwork
variable [DecidableEq δ] [DecidableEq γ] (net : NocNetwork δ γ)

/-- The physical link of a transmission. -/
def eventWire (e : TransmitEndEvent δ γ) : γ × Fin 2 :=
  net.wire e.channel (net.deviceId e.srcNocNetDevice)

/-- Where the flit is sent on from an in-queue. -/
def Leaves (srcDest : SrcDest δ) (w : γ × Fin 2) : Prop :=
  ∃ via c, srcDest.viaNetDevice = some via ∧ net.channel via = some c ∧
    net.wire c (net.deviceId via) = w

/-- What holds of flits in every state. -/
structure Conserves (s : NetworkState δ γ σ) : Prop where
  place : ∀ uid ∈ injectedUids s.trace,
    ((deliveredUids s.trace).count uid = 1 ∧ ∀ d, uid ∉ s.queued d) ∨
      uid ∉ deliveredUids s.trace ∧
        ∃ d, (s.queued d).count uid = 1 ∧ ∀ d', d' ≠ d → uid ∉ s.queued d'
  injected : ∀ uid, uid ∈ deliveredUids s.trace ∨ (∃ d, uid ∈ s.queued d) → uid ∈ injectedUids s.trace
  dropped : ∀ d packet, FlitEvent.dropped d packet ∉ s.trace
  fifo : ∀ d, enqueuedUids d s.trace = dequeuedUids d s.trace ++ s.queued d
  sent : SentAsRecorded s.trace
  transmitted : ∀ n e, s.pending[n]? = some e → ∃ t packet w d q,
    net.dequeueTransmitted { s with pending := s.pending.eraseIdx n } e = some (t, packet, w) ∧
      t.trace = s.trace ++ [.dequeued d q] ∧ q.uid = packet.uid

/-- A transmission that is under way. -/
structure Transmits (v : FlitView δ γ) (e : TransmitEndEvent δ γ) : Prop where
  channel : net.channel e.srcNocNetDevice = some e.channel
  dest : e.destNocNetDevice = net.device e.channel (1 - net.deviceId e.srcNocNetDevice)
  propagating : (v.link (net.eventWire e)).state = .propagating
  flit : ∃ packet d ptr rest srcDest, (v.link (net.eventWire e)).currentPkt = some packet ∧
    (v.link (net.eventWire e)).packetOriginalDevice packet.uid = some d ∧
      v.ids d = (ptr, packet.uid) :: rest ∧ v.pktSrcDestMap d ptr = some srcDest ∧
        srcDest.viaNetDevice = some e.srcNocNetDevice ∧ srcDest.dest = e.destination
  room : (v.ids e.destNocNetDevice).length < net.maxPackets e.destNocNetDevice

/-- Where flits are. A flit that has been dequeued and not arrived is `lost`. -/
structure Placed (lost : Option ℕ) (v : FlitView δ γ) : Prop where
  nodup : ∀ d, ((v.ids d).map Prod.snd).Nodup
  apart : ∀ d d' i j, i ∈ v.ids d → j ∈ v.ids d' → i.2 = j.2 → d = d'
  deliveredNodup : (deliveredUids v.trace).Nodup
  notDelivered : ∀ d, ∀ i ∈ v.ids d, i.2 ∉ deliveredUids v.trace
  injected : ∀ uid, uid ∈ injectedUids v.trace ↔
    lost = some uid ∨ uid ∈ deliveredUids v.trace ∨ ∃ d, ∃ i ∈ v.ids d, i.2 = uid
  lost : ∀ uid, lost = some uid → uid ∉ deliveredUids v.trace ∧ ∀ d, ∀ i ∈ v.ids d, i.2 ≠ uid
  uid_lt : ∀ uid ∈ injectedUids v.trace, uid < 2 ^ 32 - 1
  dropped : ∀ d packet, FlitEvent.dropped d packet ∉ v.trace
  fifo : ∀ d, enqueuedUids d v.trace = dequeuedUids d v.trace ++ (v.ids d).map Prod.snd
  le_max : ∀ d, (v.ids d).length ≤ net.maxPackets d

/-- The triples of the flits in the in-queues. -/
structure Addressed (v : FlitView δ γ) : Prop where
  ptr_lt : ∀ d, ∀ i ∈ v.ids d, i.1 < v.allocated
  ptrNodup : ∀ d, ((v.ids d).map Prod.fst).Nodup
  fresh : ∀ d p, v.allocated ≤ p → v.pktSrcDestMap d p = none
  triple : ∀ d, ∀ i ∈ v.ids d, ∃ srcDest, v.pktSrcDestMap d i.1 = some srcDest ∧
    recorded d i.2 v.trace = some srcDest ∧ srcDest.src = srcDest.viaNetDevice ∧
      srcDest.viaNetDevice.isSome
  sent : SentAsRecorded v.trace

/-- The links. `hole` is the one whose `TransmitEnd` has begun. -/
structure Joined (hole : Option (γ × Fin 2)) (v : FlitView δ γ) : Prop where
  original : ∀ w uid d, (v.link w).packetOriginalDevice uid = some d →
    ∃ i ∈ v.ids d, i.2 = uid ∧ ∃ srcDest, v.pktSrcDestMap d i.1 = some srcDest ∧
      net.Leaves srcDest w
  pendingNodup : (v.pending.map net.eventWire).Nodup
  pending : ∀ e ∈ v.pending, net.Transmits v e
  hole : ∀ w, hole = some w →
    (v.link w).state = .propagating ∧ ∀ e ∈ v.pending, net.eventWire e ≠ w

structure Holds (hole : Option (γ × Fin 2)) (lost : Option ℕ) (v : FlitView δ γ) : Prop where
  placed : net.Placed lost v
  addressed : Addressed v
  joined : net.Joined hole v

omit [DecidableEq γ] in
variable {net} in
theorem Placed.congr {lost : Option ℕ} {v v' : FlitView δ γ} (h : net.Placed lost v)
    (hids : v'.ids = v.ids) (htrace : v'.trace = v.trace) : net.Placed lost v' := by
  obtain ⟨ids, _, _, _, _, trace⟩ := v'
  dsimp only at hids htrace
  subst hids htrace
  exact { h with }

omit [DecidableEq γ] in
theorem Addressed.congr {v v' : FlitView δ γ} (h : Addressed v) (hids : v'.ids = v.ids)
    (hmap : v'.pktSrcDestMap = v.pktSrcDestMap) (hallocated : v'.allocated = v.allocated)
    (htrace : v'.trace = v.trace) : Addressed v' := by
  obtain ⟨ids, pktSrcDestMap, _, _, allocated, trace⟩ := v'
  dsimp only at hids hmap hallocated htrace
  subst hids hmap hallocated htrace
  exact { h with }

/-! ## Where flits are -/

section Placed
variable {net} {v : FlitView δ γ} {lost : Option ℕ} {d : δ} {packet : NocPacket}

omit [DecidableEq γ] in
theorem Placed.sent (h : net.Placed lost v) (d : δ) (packet : NocPacket) (srcDest : SrcDest δ) :
    net.Placed lost (v.log (.sent d packet srcDest)) where
  nodup := h.nodup
  apart := h.apart
  deliveredNodup := by simpa [FlitView.log, FlitEvent.deliveredUid] using h.deliveredNodup
  notDelivered := by simpa [FlitView.log, FlitEvent.deliveredUid] using h.notDelivered
  injected := by
    simpa [FlitView.log, FlitEvent.deliveredUid, FlitEvent.injectedUid] using h.injected
  lost := by simpa [FlitView.log, FlitEvent.deliveredUid] using h.lost
  uid_lt := by simpa [FlitView.log, FlitEvent.injectedUid] using h.uid_lt
  dropped := by simpa [FlitView.log] using h.dropped
  fifo := by simpa [FlitView.log, FlitEvent.enqueuedUid, FlitEvent.dequeuedUid] using h.fifo
  le_max := h.le_max

omit [DecidableEq γ] in
theorem Placed.inject (h : net.Placed none v) (d : δ) (new : NewPacket) {uid : ℕ}
    (huid : uid ∉ injectedUids v.trace) (hlt : uid < 2 ^ 32 - 1) :
    net.Placed (some uid) (v.log (.injected d new uid)) where
  nodup := h.nodup
  apart := h.apart
  deliveredNodup := by simpa [FlitView.log, FlitEvent.deliveredUid] using h.deliveredNodup
  notDelivered := by simpa [FlitView.log, FlitEvent.deliveredUid] using h.notDelivered
  injected u := by
    have hu := h.injected u
    simp only [FlitView.log, injectedUids_concat, deliveredUids_concat, FlitEvent.deliveredUid,
      FlitEvent.injectedUid, Option.toList, List.append_nil, List.mem_append, List.mem_singleton,
      Option.some.injEq, reduceCtorEq, false_or] at hu ⊢
    rw [hu, or_comm, eq_comm]
  lost u hu := by
    obtain rfl := Option.some.inj hu
    simp only [FlitView.log, deliveredUids_concat, FlitEvent.deliveredUid, Option.toList,
      List.append_nil]
    exact ⟨fun hdelivered => huid ((h.injected uid).mpr (.inr (.inl hdelivered))),
      fun d i hi heq => huid ((h.injected uid).mpr (.inr (.inr ⟨d, i, hi, heq⟩)))⟩
  uid_lt u hu := by
    simp only [FlitView.log, injectedUids_concat, FlitEvent.injectedUid, Option.toList,
      List.mem_append, List.mem_singleton] at hu
    obtain hu | rfl := hu
    · exact h.uid_lt u hu
    · exact hlt
  dropped := by simpa [FlitView.log] using h.dropped
  fifo := by simpa [FlitView.log, FlitEvent.enqueuedUid, FlitEvent.dequeuedUid] using h.fifo
  le_max := h.le_max

omit [DecidableEq γ] in
theorem Placed.deliver (h : net.Placed (some packet.uid) v) (d : δ) :
    net.Placed none (v.log (.delivered d packet)) where
  nodup := h.nodup
  apart := h.apart
  deliveredNodup := by
    simp only [FlitView.log, deliveredUids_concat, FlitEvent.deliveredUid, Option.toList]
    rw [← List.concat_eq_append]
    exact h.deliveredNodup.concat (h.lost _ rfl).1
  notDelivered d' i hi := by
    simp only [FlitView.log, deliveredUids_concat, FlitEvent.deliveredUid, Option.toList,
      List.mem_append, List.mem_singleton, not_or]
    exact ⟨h.notDelivered d' i hi, (h.lost _ rfl).2 d' i hi⟩
  injected u := by
    have hu := h.injected u
    simp only [FlitView.log, injectedUids_concat, deliveredUids_concat, FlitEvent.deliveredUid,
      FlitEvent.injectedUid, Option.toList, List.append_nil, List.mem_append, List.mem_singleton,
      Option.some.injEq, reduceCtorEq, false_or] at hu ⊢
    rw [hu, eq_comm]
    tauto
  lost u hu := by cases hu
  uid_lt := by simpa [FlitView.log, FlitEvent.injectedUid] using h.uid_lt
  dropped := by simpa [FlitView.log] using h.dropped
  fifo := by simpa [FlitView.log, FlitEvent.enqueuedUid, FlitEvent.dequeuedUid] using h.fifo
  le_max := h.le_max

omit [DecidableEq γ] in
theorem mem_ids_enqueue {srcDest : SrcDest δ} {d' : δ} {i : ℕ × ℕ} :
    i ∈ (v.enqueue d packet srcDest).ids d' ↔
      i ∈ v.ids d' ∨ d' = d ∧ i = (v.allocated, packet.uid) := by
  by_cases hd : d' = d
  · subst hd
    simp [FlitView.enqueue]
  · simp [FlitView.enqueue, hd]

omit [DecidableEq γ] in
theorem Placed.enqueue (h : net.Placed (some packet.uid) v)
    (hroom : (v.ids d).length < net.maxPackets d) (srcDest : SrcDest δ) :
    net.Placed none (v.enqueue d packet srcDest) where
  nodup d' := by
    by_cases hd : d' = d
    · subst hd
      simp only [FlitView.enqueue, Function.update_self, List.map_append, List.map_cons,
        List.map_nil]
      rw [← List.concat_eq_append]
      refine (h.nodup d').concat fun hmem => ?_
      obtain ⟨i, hi, heq⟩ := List.mem_map.mp hmem
      exact (h.lost _ rfl).2 d' i hi heq
    · simpa only [FlitView.enqueue, Function.update_of_ne hd] using h.nodup d'
  apart d₁ d₂ i j hi hj heq := by
    rw [mem_ids_enqueue] at hi hj
    obtain hi | ⟨rfl, rfl⟩ := hi
    · obtain hj | ⟨rfl, rfl⟩ := hj
      · exact h.apart d₁ d₂ i j hi hj heq
      · exact absurd heq ((h.lost _ rfl).2 d₁ i hi)
    · obtain hj | ⟨rfl, rfl⟩ := hj
      · exact absurd heq.symm ((h.lost _ rfl).2 d₂ j hj)
      · rfl
  deliveredNodup := by simpa [FlitView.enqueue, FlitEvent.deliveredUid] using h.deliveredNodup
  notDelivered d' i hi := by
    simp only [FlitView.enqueue, deliveredUids_concat, FlitEvent.deliveredUid, Option.toList,
      List.append_nil]
    rw [mem_ids_enqueue] at hi
    obtain hi | ⟨rfl, rfl⟩ := hi
    · exact h.notDelivered d' i hi
    · exact (h.lost _ rfl).1
  injected u := by
    have hu := h.injected u
    simp only [mem_ids_enqueue]
    simp only [FlitView.enqueue, injectedUids_concat, deliveredUids_concat, FlitEvent.deliveredUid,
      FlitEvent.injectedUid, Option.toList, List.append_nil, Option.some.injEq, reduceCtorEq,
      false_or] at hu ⊢
    rw [hu]
    constructor
    · rintro (rfl | hdelivered | ⟨d', i, hi, heq⟩)
      · exact .inr ⟨d, _, .inr ⟨rfl, rfl⟩, rfl⟩
      · exact .inl hdelivered
      · exact .inr ⟨d', i, .inl hi, heq⟩
    · rintro (hdelivered | ⟨d', i, hi | ⟨rfl, rfl⟩, heq⟩)
      · exact .inr (.inl hdelivered)
      · exact .inr (.inr ⟨d', i, hi, heq⟩)
      · exact .inl heq
  lost u hu := by cases hu
  uid_lt := by simpa [FlitView.enqueue, FlitEvent.injectedUid] using h.uid_lt
  dropped := by simpa [FlitView.enqueue] using h.dropped
  fifo d' := by
    by_cases hd : d' = d
    · subst hd
      simp [FlitView.enqueue, FlitEvent.enqueuedUid, FlitEvent.dequeuedUid, h.fifo d']
    · simp [FlitView.enqueue, FlitEvent.enqueuedUid, FlitEvent.dequeuedUid, h.fifo d', hd, Ne.symm hd]
  le_max d' := by
    by_cases hd : d' = d
    · subst hd
      simpa [FlitView.enqueue] using hroom
    · simpa [FlitView.enqueue, hd] using h.le_max d'

omit [DecidableEq γ] in
theorem Placed.mem_ids_dequeue (h : net.Placed lost v) {ptr : ℕ} {rest : List (ℕ × ℕ)}
    (hids : v.ids d = (ptr, packet.uid) :: rest) {d' : δ} {i : ℕ × ℕ} :
    i ∈ (v.dequeue d ptr packet rest).ids d' ↔ i ∈ v.ids d' ∧ i.2 ≠ packet.uid := by
  have hnodup := h.nodup d
  rw [hids, List.map_cons, List.nodup_cons] at hnodup
  by_cases hd : d' = d
  · subst hd
    simp only [FlitView.dequeue, Function.update_self, hids, List.mem_cons]
    constructor
    · exact fun hi => ⟨.inr hi, fun heq => hnodup.1 (List.mem_map.mpr ⟨i, hi, heq⟩)⟩
    · rintro ⟨rfl | hi, hne⟩
      · exact absurd rfl hne
      · exact hi
  · simp only [FlitView.dequeue, Function.update_of_ne hd]
    refine ⟨fun hi => ⟨hi, fun heq => hd ?_⟩, fun hi => hi.1⟩
    exact h.apart d' d i (ptr, packet.uid) hi (hids ▸ List.mem_cons_self) heq

omit [DecidableEq γ] in
theorem Placed.dequeue (h : net.Placed none v) {ptr : ℕ} {rest : List (ℕ × ℕ)}
    (hids : v.ids d = (ptr, packet.uid) :: rest) :
    net.Placed (some packet.uid) (v.dequeue d ptr packet rest) where
  nodup d' := by
    by_cases hd : d' = d
    · subst hd
      have hnodup := h.nodup d'
      rw [hids, List.map_cons, List.nodup_cons] at hnodup
      simpa only [FlitView.dequeue, Function.update_self] using hnodup.2
    · simpa only [FlitView.dequeue, Function.update_of_ne hd] using h.nodup d'
  apart d₁ d₂ i j hi hj := by
    rw [h.mem_ids_dequeue hids] at hi hj
    exact h.apart d₁ d₂ i j hi.1 hj.1
  deliveredNodup := by simpa [FlitView.dequeue, FlitEvent.deliveredUid] using h.deliveredNodup
  notDelivered d' i hi := by
    simp only [FlitView.dequeue, deliveredUids_concat, FlitEvent.deliveredUid, Option.toList,
      List.append_nil]
    rw [h.mem_ids_dequeue hids] at hi
    exact h.notDelivered d' i hi.1
  injected u := by
    have hu := h.injected u
    simp only [h.mem_ids_dequeue hids]
    simp only [FlitView.dequeue, injectedUids_concat, deliveredUids_concat, FlitEvent.deliveredUid,
      FlitEvent.injectedUid, Option.toList, List.append_nil, Option.some.injEq, reduceCtorEq,
      false_or] at hu ⊢
    rw [hu]
    constructor
    · rintro (hdelivered | ⟨d', i, hi, rfl⟩)
      · exact .inr (.inl hdelivered)
      · by_cases heq : packet.uid = i.2
        · exact .inl heq
        · exact .inr (.inr ⟨d', i, ⟨hi, Ne.symm heq⟩, rfl⟩)
    · rintro (rfl | hdelivered | ⟨d', i, hi, heq⟩)
      · exact .inr ⟨d, (ptr, packet.uid), hids ▸ List.mem_cons_self, rfl⟩
      · exact .inl hdelivered
      · exact .inr ⟨d', i, hi.1, heq⟩
  lost u hu := by
    obtain rfl := Option.some.inj hu
    simp only [FlitView.dequeue, deliveredUids_concat, FlitEvent.deliveredUid, Option.toList,
      List.append_nil]
    refine ⟨h.notDelivered d (ptr, packet.uid) (hids ▸ List.mem_cons_self), fun d' i hi => ?_⟩
    exact ((h.mem_ids_dequeue hids).mp hi).2
  uid_lt := by simpa [FlitView.dequeue, FlitEvent.injectedUid] using h.uid_lt
  dropped := by simpa [FlitView.dequeue] using h.dropped
  fifo d' := by
    by_cases hd : d' = d
    · subst hd
      simp [FlitView.dequeue, FlitEvent.enqueuedUid, FlitEvent.dequeuedUid, h.fifo d', hids]
    · simp [FlitView.dequeue, FlitEvent.enqueuedUid, FlitEvent.dequeuedUid, h.fifo d', hd, Ne.symm hd]
  le_max d' := by
    have hle := h.le_max d'
    by_cases hd : d' = d
    · subst hd
      rw [hids, List.length_cons] at hle
      simp only [FlitView.dequeue, Function.update_self]
      omega
    · simpa [FlitView.dequeue, hd] using hle

end Placed

/-! ## Where flits are sent -/

section Addressed
variable {net} {v : FlitView δ γ} {d : δ} {packet : NocPacket}

omit [DecidableEq γ] in
theorem Addressed.log (h : Addressed v) {e : FlitEvent δ} (hfor : ∀ d uid, e.recordedFor d uid = none)
    (hsent : ∀ d packet srcDest, e = .sent d packet srcDest →
      recorded d packet.uid v.trace = some srcDest) : Addressed (v.log e) where
  ptr_lt := h.ptr_lt
  ptrNodup := h.ptrNodup
  fresh := h.fresh
  triple d i hi := by
    rw [FlitView.log, recorded_concat, hfor]
    exact h.triple d i hi
  sent := h.sent.concat hsent

omit [DecidableEq γ] in
theorem Addressed.enqueue (h : Addressed v) (hlost : ∀ i ∈ v.ids d, i.2 ≠ packet.uid)
    {srcDest : SrcDest δ} (hsrc : srcDest.src = srcDest.viaNetDevice)
    (hvia : srcDest.viaNetDevice.isSome) : Addressed (v.enqueue d packet srcDest) where
  ptr_lt d' i hi := by
    obtain hi | ⟨rfl, rfl⟩ := mem_ids_enqueue.mp hi
    · exact Nat.lt_succ_of_lt (h.ptr_lt d' i hi)
    · exact Nat.lt_succ_self _
  ptrNodup d' := by
    by_cases hd : d' = d
    · subst hd
      simp only [FlitView.enqueue, Function.update_self, List.map_append, List.map_cons,
        List.map_nil]
      rw [← List.concat_eq_append]
      refine (h.ptrNodup d').concat fun hmem => ?_
      obtain ⟨i, hi, heq⟩ := List.mem_map.mp hmem
      exact absurd heq (h.ptr_lt d' i hi).ne
    · simpa only [FlitView.enqueue, Function.update_of_ne hd] using h.ptrNodup d'
  fresh d' p hp := by
    have hne : p ≠ v.allocated := (Nat.lt_of_succ_le hp).ne'
    have hnone := h.fresh d' p (Nat.le_of_succ_le hp)
    by_cases hd : d' = d
    · subst hd
      simpa [FlitView.enqueue, hne] using hnone
    · simpa [FlitView.enqueue, hd] using hnone
  triple d' i hi := by
    obtain hi | ⟨rfl, rfl⟩ := mem_ids_enqueue.mp hi
    · obtain ⟨sd, hmap, hrecorded, hrest⟩ := h.triple d' i hi
      refine ⟨sd, ?_, ?_, hrest⟩
      · have hne := (h.ptr_lt d' i hi).ne
        by_cases hd : d' = d
        · subst hd
          simpa [FlitView.enqueue, hne] using hmap
        · simpa [FlitView.enqueue, hd] using hmap
      · rw [FlitView.enqueue, recorded_concat, FlitEvent.recordedFor]
        have hother : ¬(d = d' ∧ packet.uid = i.2) := fun heq => hlost i (heq.1 ▸ hi) heq.2.symm
        rw [if_neg hother]
        exact hrecorded
    · have hnone := h.fresh d' v.allocated (Nat.le_refl _)
      refine ⟨srcDest, ?_, ?_, hsrc, hvia⟩
      · simp [FlitView.enqueue, hnone]
      · rw [FlitView.enqueue, recorded_concat, FlitEvent.recordedFor, if_pos ⟨rfl, rfl⟩]
        rfl
  sent := h.sent.concat nofun

omit [DecidableEq γ] in
theorem Addressed.dequeue (h : Addressed v) {ptr : ℕ} {rest : List (ℕ × ℕ)}
    (hids : v.ids d = (ptr, packet.uid) :: rest) : Addressed (v.dequeue d ptr packet rest) := by
  have hptr := h.ptrNodup d
  rw [hids, List.map_cons, List.nodup_cons] at hptr
  have hmem {d' : δ} {i : ℕ × ℕ} (hi : i ∈ (v.dequeue d ptr packet rest).ids d') :
      i ∈ v.ids d' ∧ (d' = d → i.1 ≠ ptr) := by
    by_cases hd : d' = d
    · subst hd
      simp only [FlitView.dequeue, Function.update_self] at hi
      refine ⟨hids ▸ List.mem_cons_of_mem _ hi, fun _ heq => hptr.1 ?_⟩
      exact List.mem_map.mpr ⟨i, hi, heq⟩
    · simp only [FlitView.dequeue, Function.update_of_ne hd] at hi
      exact ⟨hi, fun heq => absurd heq hd⟩
  exact {
    ptr_lt := fun d' i hi => h.ptr_lt d' i (hmem hi).1
    ptrNodup := fun d' => by
      by_cases hd : d' = d
      · subst hd
        simpa only [FlitView.dequeue, Function.update_self] using hptr.2
      · simpa only [FlitView.dequeue, Function.update_of_ne hd] using h.ptrNodup d'
    fresh := fun d' p hp => by
      have hnone := h.fresh d' p hp
      by_cases hd : d' = d
      · subst hd
        by_cases hp : p = ptr
        · simp [FlitView.dequeue, hp]
        · simpa [FlitView.dequeue, hp] using hnone
      · simpa [FlitView.dequeue, hd] using hnone
    triple := fun d' i hi => by
      obtain ⟨sd, hmap, hrecorded, hrest⟩ := h.triple d' i (hmem hi).1
      refine ⟨sd, ?_, ?_, hrest⟩
      · by_cases hd : d' = d
        · have hne := (hmem hi).2 hd
          subst hd
          simpa [FlitView.dequeue, hne] using hmap
        · simpa [FlitView.dequeue, hd] using hmap
      · rw [FlitView.dequeue, recorded_concat]
        exact hrecorded
    sent := h.sent.concat nofun }

end Addressed

/-! ## Links -/

section Joined
variable {net} {v : FlitView δ γ} {hole : Option (γ × Fin 2)} {d : δ} {packet : NocPacket}
  {e : TransmitEndEvent δ γ} {w : γ × Fin 2}

omit [DecidableEq δ] [DecidableEq γ] in
theorem Joined.log (h : net.Joined hole v) (event : FlitEvent δ) :
    net.Joined hole (v.log event) where
  original := h.original
  pendingNodup := h.pendingNodup
  pending e he :=
    have ht := h.pending e he
    ⟨ht.channel, ht.dest, ht.propagating, ht.flit, ht.room⟩
  hole := h.hole

omit [DecidableEq γ] in
theorem Joined.enqueue (h : net.Joined hole v) (ha : Addressed v)
    (hd : ∀ e ∈ v.pending, e.destNocNetDevice ≠ d) (srcDest : SrcDest δ) :
    net.Joined hole (v.enqueue d packet srcDest) where
  original w uid d' horiginal := by
    obtain ⟨i, hi, huid, sd, hmap, hleaves⟩ := h.original w uid d' horiginal
    refine ⟨i, mem_ids_enqueue.mpr (.inl hi), huid, sd, ?_, hleaves⟩
    have hne := (ha.ptr_lt d' i hi).ne
    by_cases hd : d' = d
    · subst hd
      simpa [FlitView.enqueue, hne] using hmap
    · simpa [FlitView.enqueue, hd] using hmap
  pendingNodup := h.pendingNodup
  pending e he := by
    have ht := h.pending e he
    refine ⟨ht.channel, ht.dest, ht.propagating, ?_, ?_⟩
    · obtain ⟨p, d', ptr, rest, sd, hcurrent, horiginal, hids, hmap, haddress⟩ := ht.flit
      have hne := (ha.ptr_lt d' (ptr, p.uid) (hids ▸ List.mem_cons_self)).ne
      by_cases hd : d' = d
      · subst hd
        exact ⟨p, d', ptr, rest ++ [(v.allocated, packet.uid)], sd, hcurrent, horiginal,
          by simp [FlitView.enqueue, hids], by simpa [FlitView.enqueue, hne] using hmap, haddress⟩
      · exact ⟨p, d', ptr, rest, sd, hcurrent, horiginal, by simpa [FlitView.enqueue, hd] using hids,
          by simpa [FlitView.enqueue, hd] using hmap, haddress⟩
    · simpa [FlitView.enqueue, hd e he] using ht.room
  hole := h.hole

omit [DecidableEq δ] in
/-- A transmission is attempted, and the device of the flit remembered. -/
theorem Joined.attempt (h : net.Joined hole v)
    {i : ℕ × ℕ} (hi : i ∈ v.ids d) {srcDest : SrcDest δ}
    (hmap : v.pktSrcDestMap d i.1 = some srcDest) (hleaves : net.Leaves srcDest w)
    {link : ChannelLink δ} (hstate : link.state = (v.link w).state)
    (hcurrent : (v.link w).state = .idle ∨ link.currentPkt = (v.link w).currentPkt)
    (horiginal : link.packetOriginalDevice = Function.update (v.link w).packetOriginalDevice i.2
      (some (((v.link w).packetOriginalDevice i.2).getD d))) :
    net.Joined hole (v.setLink w link) := by
  have hkeep {uid : ℕ} {d' : δ} (huid : (v.link w).packetOriginalDevice uid = some d') :
      link.packetOriginalDevice uid = some d' := by
    rw [horiginal]
    by_cases heq : uid = i.2
    · subst heq
      rw [Function.update_self, huid, Option.getD_some]
    · rw [Function.update_of_ne heq, huid]
  exact {
    original := fun w' uid d' huid => by
      by_cases hw : w' = w
      · subst hw
        simp only [FlitView.setLink, Function.update_self] at huid
        rw [horiginal] at huid
        by_cases heq : uid = i.2
        · subst heq
          cases hold : (v.link w').packetOriginalDevice i.2 with
          | none =>
            rw [Function.update_self, hold, Option.getD_none, Option.some.injEq] at huid
            subst huid
            exact ⟨i, hi, rfl, srcDest, hmap, hleaves⟩
          | some old =>
            rw [Function.update_self, hold, Option.getD_some] at huid
            exact h.original w' i.2 d' (hold.trans huid)
        · rw [Function.update_of_ne heq] at huid
          exact h.original w' uid d' huid
      · simp only [FlitView.setLink, Function.update_of_ne hw] at huid
        exact h.original w' uid d' huid
    pendingNodup := h.pendingNodup
    pending := fun e he => by
      have ht := h.pending e he
      by_cases hw : net.eventWire e = w
      · have hpropagating := ht.propagating
        rw [hw] at hpropagating
        have hsame := hcurrent.resolve_left (by rw [hpropagating]; decide)
        obtain ⟨p, d', ptr, rest, sd, hp, hd, hrest⟩ := ht.flit
        rw [hw] at hp hd
        refine ⟨ht.channel, ht.dest, ?_, ⟨p, d', ptr, rest, sd, ?_, ?_, hrest⟩, ht.room⟩
        · simpa [FlitView.setLink, hw, hstate] using hpropagating
        · simpa [FlitView.setLink, hw, hsame] using hp
        · simpa [FlitView.setLink, hw] using hkeep hd
      · refine ⟨ht.channel, ht.dest, ?_, ?_, ht.room⟩
        · simpa [FlitView.setLink, hw] using ht.propagating
        · simpa [FlitView.setLink, hw] using ht.flit
    hole := fun w' hw' => by
      obtain ⟨hpropagating, hnone⟩ := h.hole w' hw'
      refine ⟨?_, hnone⟩
      by_cases hw : w' = w
      · subst hw
        simpa [FlitView.setLink, hstate] using hpropagating
      · simpa [FlitView.setLink, hw] using hpropagating }

omit [DecidableEq δ] in
/-- An idle link is taken. -/
theorem Joined.transmit (h : net.Joined hole v) (hidle : (v.link (net.eventWire e)).state = .idle)
    (hchannel : net.channel e.srcNocNetDevice = some e.channel)
    (hdest : e.destNocNetDevice = net.device e.channel (1 - net.deviceId e.srcNocNetDevice))
    {ptr : ℕ} {rest : List (ℕ × ℕ)} (hcurrent : (v.link (net.eventWire e)).currentPkt = some packet)
    (horiginal : (v.link (net.eventWire e)).packetOriginalDevice packet.uid = some d)
    (hids : v.ids d = (ptr, packet.uid) :: rest) {srcDest : SrcDest δ}
    (hmap : v.pktSrcDestMap d ptr = some srcDest)
    (hvia : srcDest.viaNetDevice = some e.srcNocNetDevice) (hdestination : srcDest.dest = e.destination)
    (hroom : (v.ids e.destNocNetDevice).length < net.maxPackets e.destNocNetDevice) :
    net.Joined hole { v.setLink (net.eventWire e)
      { v.link (net.eventWire e) with state := .propagating } with pending := v.pending ++ [e] } := by
  have hfree : ∀ e' ∈ v.pending, net.eventWire e' ≠ net.eventWire e := fun e' he' heq => by
    have hpropagating := (h.pending e' he').propagating
    rw [heq, hidle] at hpropagating
    cases hpropagating
  exact {
    original := fun w uid d' huid => by
      refine h.original w uid d' ?_
      by_cases hw : w = net.eventWire e
      · subst hw
        simpa [FlitView.setLink] using huid
      · simpa [FlitView.setLink, hw] using huid
    pendingNodup := by
      rw [List.map_append, List.map_singleton, ← List.concat_eq_append]
      refine h.pendingNodup.concat fun hmem => ?_
      obtain ⟨e', he', heq⟩ := List.mem_map.mp hmem
      exact hfree e' he' heq
    pending := fun e' he' => by
      obtain he' | he' := List.mem_append.mp he'
      · have ht := h.pending e' he'
        have hne := hfree e' he'
        refine ⟨ht.channel, ht.dest, ?_, ?_, ht.room⟩
        · simpa [FlitView.setLink, hne] using ht.propagating
        · simpa [FlitView.setLink, hne] using ht.flit
      · obtain rfl := List.mem_singleton.mp he'
        refine ⟨hchannel, hdest, ?_, ⟨packet, d, ptr, rest, srcDest, ?_, ?_, hids, hmap, hvia,
          hdestination⟩, hroom⟩
        · simp [FlitView.setLink]
        · simpa [FlitView.setLink] using hcurrent
        · simpa [FlitView.setLink] using horiginal
    hole := fun w hw => by
      obtain ⟨hpropagating, hnone⟩ := h.hole w hw
      have hne : w ≠ net.eventWire e := fun heq => by
        rw [heq, hidle] at hpropagating
        cases hpropagating
      refine ⟨by simpa [FlitView.setLink, hne] using hpropagating, fun e' he' => ?_⟩
      obtain he' | he' := List.mem_append.mp he'
      · exact hnone e' he'
      · obtain rfl := List.mem_singleton.mp he'
        exact hne.symm }

/-- The first flit of an in-queue takes an idle link. -/
theorem Joined.start (h : net.Joined hole v) {lost : Option ℕ} (hp : net.Placed lost v)
    (hidle : (v.link (net.eventWire e)).state = .idle)
    (hchannel : net.channel e.srcNocNetDevice = some e.channel)
    (hdest : e.destNocNetDevice = net.device e.channel (1 - net.deviceId e.srcNocNetDevice))
    {ptr : ℕ} {rest : List (ℕ × ℕ)} (hids : v.ids d = (ptr, packet.uid) :: rest)
    {srcDest : SrcDest δ} (hmap : v.pktSrcDestMap d ptr = some srcDest)
    (hvia : srcDest.viaNetDevice = some e.srcNocNetDevice) (hdestination : srcDest.dest = e.destination)
    (hroom : (v.ids e.destNocNetDevice).length < net.maxPackets e.destNocNetDevice)
    (w : γ × Fin 2) (hw : w = net.eventWire e) :
    net.Joined hole { v.setLink w
      { state := .propagating
        currentPkt := some packet
        currentDestDevice := some e.destNocNetDevice
        packetOriginalDevice := Function.update (v.link w).packetOriginalDevice packet.uid
          (some (((v.link w).packetOriginalDevice packet.uid).getD d)) } with
      pending := v.pending ++ [e] } := by
  subst hw
  have hmem : (ptr, packet.uid) ∈ v.ids d := hids ▸ List.mem_cons_self
  have hleaves : net.Leaves srcDest (net.eventWire e) :=
    ⟨e.srcNocNetDevice, e.channel, hvia, hchannel, rfl⟩
  have hattempt : net.Joined hole (v.setLink (net.eventWire e) { v.link (net.eventWire e) with
      currentPkt := some packet
      currentDestDevice := some e.destNocNetDevice
      packetOriginalDevice := Function.update (v.link (net.eventWire e)).packetOriginalDevice
        packet.uid (some (((v.link (net.eventWire e)).packetOriginalDevice packet.uid).getD d)) }) :=
    h.attempt hmem hmap hleaves rfl (.inl hidle) rfl
  have hown : ((v.link (net.eventWire e)).packetOriginalDevice packet.uid).getD d = d := by
    cases hold : (v.link (net.eventWire e)).packetOriginalDevice packet.uid with
    | none => rfl
    | some d' =>
      obtain ⟨i, hi, huid, -⟩ := h.original _ _ _ hold
      exact hp.apart d' d i _ hi hmem huid
  have hjoined := hattempt.transmit (by simpa [FlitView.setLink] using hidle) hchannel hdest
    (by simp [FlitView.setLink]) (by simp [FlitView.setLink, hown]) hids hmap hvia hdestination
    hroom
  simpa [FlitView.setLink] using hjoined

omit [DecidableEq δ] [DecidableEq γ] in
theorem Leaves.eq {srcDest : SrcDest δ} {w' : γ × Fin 2} (h : net.Leaves srcDest w)
    (h' : net.Leaves srcDest w') : w = w' := by
  obtain ⟨via, c, hvia, hc, rfl⟩ := h
  obtain ⟨via', c', hvia', hc', rfl⟩ := h'
  obtain rfl := Option.some.inj (hvia.symm.trans hvia')
  obtain rfl := Option.some.inj (hc.symm.trans hc')
  rfl

omit [DecidableEq δ] [DecidableEq γ] in
theorem Joined.eventWire_ne (h : net.Joined hole v) {n : ℕ} (hn : v.pending[n]? = some e)
    {e' : TransmitEndEvent δ γ} (he' : e' ∈ v.pending.eraseIdx n) :
    net.eventWire e' ≠ net.eventWire e := by
  obtain ⟨k, hk, hkn⟩ := List.mem_eraseIdx_iff_getElem?.mp he'
  intro heq
  have hlt : k < (v.pending.map net.eventWire).length := by
    rw [List.length_map]
    exact (List.getElem?_eq_some_iff.mp hkn).1
  refine hk ((List.getElem?_inj hlt h.pendingNodup).mp ?_)
  rw [List.getElem?_map, List.getElem?_map, hkn, hn, Option.map_some, Option.map_some, heq]

/-- The flit of a transmission is dequeued. No other link remembers its device, since the triple of
the flit names one link only. -/
theorem Joined.dequeue (h : net.Joined none v) (hp : net.Placed none v) (ha : Addressed v) {n : ℕ}
    (hn : v.pending[n]? = some e) {ptr : ℕ} {rest : List (ℕ × ℕ)}
    (horiginal : (v.link (net.eventWire e)).packetOriginalDevice packet.uid = some d)
    (hids : v.ids d = (ptr, packet.uid) :: rest) :
    net.Joined (some (net.eventWire e))
      (FlitView.setLink (FlitView.dequeue { v with pending := v.pending.eraseIdx n } d ptr packet rest)
        (net.eventWire e) { v.link (net.eventWire e) with
          packetOriginalDevice := Function.update
            (v.link (net.eventWire e)).packetOriginalDevice packet.uid none }) := by
  have hfirst : (ptr, packet.uid) ∈ v.ids d := hids ▸ List.mem_cons_self
  have honly {w : γ × Fin 2} {uid : ℕ} {d' : δ} (huid : (v.link w).packetOriginalDevice uid = some d')
      (heq : uid = packet.uid) : w = net.eventWire e := by
    obtain ⟨i, hi, rfl, sd, hmap, hleaves⟩ := h.original w uid d' huid
    obtain ⟨j, hj, hjuid, sd', hmap', hleaves'⟩ := h.original _ _ _ horiginal
    have hij : i.2 = j.2 := heq.trans hjuid.symm
    obtain rfl := hp.apart d' d i j hi hj hij
    obtain rfl := List.inj_on_of_nodup_map (hp.nodup d') hi hj hij
    obtain rfl := Option.some.inj (hmap.symm.trans hmap')
    exact hleaves.eq hleaves'
  have hother {e' : TransmitEndEvent δ γ} (he' : e' ∈ v.pending.eraseIdx n) : e' ∈ v.pending ∧
      net.eventWire e' ≠ net.eventWire e :=
    ⟨List.mem_of_mem_eraseIdx he', h.eventWire_ne hn he'⟩
  exact {
    original := fun w uid d' huid => by
      have hne : ¬(w = net.eventWire e ∧ uid = packet.uid) := by
        rintro ⟨rfl, rfl⟩
        simp [FlitView.setLink] at huid
      have hold : (v.link w).packetOriginalDevice uid = some d' := by
        by_cases hw : w = net.eventWire e
        · have hu : uid ≠ packet.uid := fun heq => hne ⟨hw, heq⟩
          subst hw
          simpa [FlitView.setLink, hu] using huid
        · simpa [FlitView.setLink, FlitView.dequeue, hw] using huid
      obtain ⟨i, hi, rfl, sd, hmap, hleaves⟩ := h.original w uid d' hold
      have huid' : i.2 ≠ packet.uid := fun heq => hne ⟨honly hold heq, heq⟩
      refine ⟨i, (hp.mem_ids_dequeue hids).mpr ⟨hi, huid'⟩, rfl, sd, ?_, hleaves⟩
      by_cases hd : d' = d
      · subst hd
        have hptr : i.1 ≠ ptr := fun heq => huid' (congrArg Prod.snd
          (List.inj_on_of_nodup_map (ha.ptrNodup d') hi hfirst heq))
        simpa [FlitView.setLink, FlitView.dequeue, hptr] using hmap
      · simpa [FlitView.setLink, FlitView.dequeue, hd] using hmap
    pendingNodup := ((List.eraseIdx_sublist _ _).map _).nodup h.pendingNodup
    pending := fun e' he' => by
      obtain ⟨hmem, hne⟩ := hother he'
      have ht := h.pending e' hmem
      refine ⟨ht.channel, ht.dest, ?_, ?_, ?_⟩
      · simpa [FlitView.setLink, FlitView.dequeue, hne] using ht.propagating
      · obtain ⟨p, d', ptr', rest', sd, hcurrent, hold, hids', hmap, haddress⟩ := ht.flit
        have hd : d' ≠ d := by
          rintro rfl
          rw [hids, List.cons.injEq, Prod.mk.injEq] at hids'
          exact hne (honly hold hids'.1.2.symm)
        refine ⟨p, d', ptr', rest', sd, ?_, ?_, ?_, ?_, haddress⟩
        · simpa [FlitView.setLink, FlitView.dequeue, hne] using hcurrent
        · simpa [FlitView.setLink, FlitView.dequeue, hne] using hold
        · simpa [FlitView.setLink, FlitView.dequeue, hd] using hids'
        · simpa [FlitView.setLink, FlitView.dequeue, hd] using hmap
      · refine lt_of_le_of_lt ?_ ht.room
        by_cases hd : e'.destNocNetDevice = d
        · simp [FlitView.setLink, FlitView.dequeue, hd, hids]
        · simp [FlitView.setLink, FlitView.dequeue, hd]
    hole := fun w hw => by
      obtain rfl := Option.some.inj hw
      refine ⟨?_, fun e' he' => (hother he').2⟩
      simpa [FlitView.setLink] using (h.pending e (List.mem_of_getElem? hn)).propagating }

omit [DecidableEq δ] in
/-- The link is idle again. -/
theorem Joined.close (h : net.Joined (some w) v) :
    net.Joined none (v.setLink w { v.link w with state := .idle }) where
  original w' uid d huid := by
    refine h.original w' uid d ?_
    by_cases hw : w' = w
    · subst hw
      simpa [FlitView.setLink] using huid
    · simpa [FlitView.setLink, hw] using huid
  pendingNodup := h.pendingNodup
  pending e he := by
    have ht := h.pending e he
    have hne := (h.hole w rfl).2 e he
    refine ⟨ht.channel, ht.dest, ?_, ?_, ht.room⟩
    · simpa [FlitView.setLink, hne] using ht.propagating
    · simpa [FlitView.setLink, hne] using ht.flit
  hole w' hw' := by cases hw'

end Joined

/-! ## Steps -/

section Steps
variable {net} {protocol : SwitchingProtocol σ} {s s' : NetworkState δ γ σ}
  {hole : Option (γ × Fin 2)} {lost : Option ℕ} {d : δ} {c : γ}

omit [DecidableEq γ] in
theorem indexOf_of_channel (h : net.channel d = some c) : net.indexOf c d = some (net.deviceId d) := by
  have hdevice := (net.channel_eq_some d c).mp h
  have hcases : ∀ i : Fin 2, i = 0 ∨ i = 1 := by decide
  rw [indexOf]
  obtain hzero | hone := hcases (net.deviceId d)
  · rw [hzero] at hdevice ⊢
    rw [if_pos hdevice]
  · have hne : net.device c 0 ≠ d := fun heq => by
      have hid := net.deviceId_device c 0
      rw [heq, hone] at hid
      exact absurd hid (by decide)
    rw [hone] at hdevice ⊢
    rw [if_neg hne, if_pos hdevice]

omit [DecidableEq γ] in
theorem view_markHeadPacketAsBlocked (s : NetworkState δ γ σ) (d : δ) (ptr : ℕ) :
    (s.markHeadPacketAsBlocked d ptr).view = s.view := by
  rw [NetworkState.view, NetworkState.view, NetworkState.markHeadPacketAsBlocked]
  congr 1
  funext d'
  by_cases hd : d' = d
  · subst hd
    simp only [Function.update_self, List.map_map]
    refine List.map_congr_left fun q _ => ?_
    simp only [Function.comp_apply]
    split <;> rfl
  · simp only [Function.update_of_ne hd]

omit [DecidableEq γ] in
theorem view_flowControl {via : Option δ} {packet : Option QueuedPacket} {answer : Bool}
    (h : net.flowControl protocol s d c via packet = some (answer, s')) : s'.view = s.view := by
  cases packet with
  | none =>
    obtain ⟨-, rfl⟩ := Prod.mk.inj (Option.some.inj h)
    rfl
  | some q =>
    obtain ⟨v, -, h⟩ := Option.bind_eq_some_iff.mp h
    obtain ⟨srcId, -, h⟩ := Option.bind_eq_some_iff.mp h
    obtain ⟨-, rfl⟩ := Prod.mk.inj (Option.some.inj h)
    dsimp only
    split
    · exact view_markHeadPacketAsBlocked s d q.ptr
    · rfl

/-- The first flit of an in-queue is handed to the channel, which may be busy or lead to a full
in-queue. -/
theorem Holds.transmitStart (h : net.Holds hole lost s.view) {p : NocPacket} {ptr : ℕ}
    {rest : List (ℕ × ℕ)} (hids : s.view.ids d = (ptr, p.uid) :: rest) {srcDest : SrcDest δ}
    (hmap : s.pktSrcDestMap d ptr = some srcDest) {via : δ} (hvia : srcDest.viaNetDevice = some via)
    (hc : net.channel via = some c) {answer : Bool}
    (hstart : net.transmitStart s d p c (net.deviceId via) = (answer, s')) :
    (answer = false → net.Holds hole lost s'.view) ∧
      (answer = true → ∀ t, net.send s' c srcDest = some t →
        net.Holds hole lost (t.log (.sent d p srcDest)).view) := by
  have hmem : (ptr, p.uid) ∈ s.view.ids d := hids ▸ List.mem_cons_self
  have hleaves : net.Leaves srcDest (net.wire c (net.deviceId via)) := ⟨via, c, hvia, hc, rfl⟩
  obtain ⟨sd, hsd, hrecorded, hsrc, -⟩ := h.addressed.triple d _ hmem
  obtain rfl := Option.some.inj (hmap.symm.trans hsd)
  rw [NocNetwork.transmitStart] at hstart
  dsimp only at hstart
  split_ifs at hstart with hbusy hfull
  · obtain ⟨rfl, rfl⟩ := Prod.mk.inj hstart
    refine ⟨fun _ => ⟨h.placed.congr rfl rfl, h.addressed.congr rfl rfl rfl rfl, ?_⟩, nofun⟩
    exact h.joined.attempt hmem hmap hleaves rfl (.inr rfl) rfl
  · obtain ⟨rfl, rfl⟩ := Prod.mk.inj hstart
    refine ⟨fun _ => ⟨h.placed.congr rfl rfl, h.addressed.congr rfl rfl rfl rfl, ?_⟩, nofun⟩
    exact h.joined.attempt hmem hmap hleaves rfl (.inl (not_not.mp hbusy)) rfl
  · obtain ⟨rfl, rfl⟩ := Prod.mk.inj hstart
    refine ⟨nofun, fun _ t hsend => ?_⟩
    obtain ⟨sender, hsender, hsend⟩ := Option.bind_eq_some_iff.mp hsend
    obtain rfl := Option.some.inj (hvia.symm.trans (hsrc.symm.trans hsender))
    obtain ⟨srcId, hid, hsend⟩ := Option.bind_eq_some_iff.mp hsend
    obtain rfl := Option.some.inj ((indexOf_of_channel hc).symm.trans hid)
    obtain ⟨dest, hdest, hsend⟩ := Option.bind_eq_some_iff.mp hsend
    simp only [NetworkState.setLink, Function.update_self, Option.some.injEq] at hdest hsend
    subst hdest
    simp only [if_true, Option.some.injEq] at hsend
    subst hsend
    refine ⟨(h.placed.sent d p srcDest).congr rfl rfl, ?_, ?_⟩
    · refine (h.addressed.log (e := .sent d p srcDest) (fun _ _ => rfl) ?_).congr rfl rfl rfl rfl
      rintro d' p' srcDest' heq
      obtain ⟨rfl, rfl, rfl⟩ := FlitEvent.sent.inj heq
      exact hrecorded
    · have hlength : (s.view.ids (net.device c (1 - net.deviceId via))).length <
          net.maxPackets (net.device c (1 - net.deviceId via)) := by
        refine lt_of_le_of_ne (h.placed.le_max _) ?_
        rw [NetworkState.view, List.length_map]
        exact hfull
      have hjoined := (h.joined.start
        (e := ⟨c, via, srcDest.dest, net.device c (1 - net.deviceId via)⟩) h.placed
        (not_not.mp hbusy) hc rfl hids hmap hvia rfl hlength _ rfl).log (.sent d p srcDest)
      simpa [NetworkState.view, NetworkState.log, FlitView.log, FlitView.setLink, eventWire]
        using hjoined

theorem Holds.processBufferedPackets (h : net.Holds hole lost s.view) {packet : Option QueuedPacket}
    (hstep : net.processBufferedPackets protocol s d packet = some s') :
    net.Holds hole lost s'.view := by
  rw [NocNetwork.processBufferedPackets] at hstep
  split at hstep
  · obtain rfl := Option.some.inj hstep
    exact h
  rename_i front rest hqueue
  have hids : s.view.ids d = (front.ptr, front.packet.uid) ::
      rest.map fun q => (q.ptr, q.packet.uid) :=
    congrArg (List.map fun q : QueuedPacket => (q.ptr, q.packet.uid)) hqueue
  obtain ⟨sd, hmap, -, -, hsome⟩ := h.addressed.triple d _ (hids ▸ List.mem_cons_self)
  obtain ⟨via, hvia⟩ := Option.isSome_iff_exists.mp hsome
  have hmap' : s.pktSrcDestMap d front.ptr = some sd := hmap
  simp only [hmap', Option.getD_some, hvia] at hstep
  obtain ⟨c, hc, hstep⟩ := Option.bind_eq_some_iff.mp hstep
  obtain ⟨⟨canDoRouting, t⟩, hflow, hstep⟩ := Option.bind_eq_some_iff.mp hstep
  have hview : t.view = s.view := by
    rw [view_flowControl hflow]
    have hsame : Function.update (s.pktSrcDestMap d) front.ptr (some sd) = s.pktSrcDestMap d := by
      rw [Function.update_eq_self_iff]
      exact hmap'.symm
    simp only [NetworkState.view, hsame, Function.update_eq_self]
  have ht : net.Holds hole lost t.view := hview.symm ▸ h
  have htmap : t.pktSrcDestMap d front.ptr = some sd :=
    (congrArg (fun v => v.pktSrcDestMap d front.ptr) hview).trans hmap
  dsimp only at hstep
  by_cases hrouting : canDoRouting = true
  · rw [if_pos hrouting] at hstep
    cases hstart : net.transmitStart t d front.packet c (net.deviceId via) with
    | mk canSend u =>
      have hstarted := ht.transmitStart (hview.symm ▸ hids) htmap hvia hc hstart
      rw [hstart] at hstep
      dsimp only at hstep
      split_ifs at hstep with hsend
      · obtain ⟨r, hr, rfl⟩ := Option.map_eq_some_iff.mp hstep
        exact hstarted.2 hsend r hr
      · obtain rfl := Option.some.inj hstep
        exact hstarted.1 (Bool.eq_false_iff.mpr hsend)
  · rw [if_neg hrouting, Option.some.injEq] at hstep
    rwa [← hstep]

/-- A flit enters an in-queue that has room for it. -/
theorem Holds.sendFrom {p : NocPacket} (h : net.Holds hole (some p.uid) s.view)
    (hroom : (s.inQueue d).length < net.maxPackets d)
    (hpending : ∀ e ∈ s.pending, e.destNocNetDevice ≠ d) {via dest : δ}
    (hvia : s.viaNetDevice d = some via) (hstep : net.sendFrom protocol s d p dest = some s') :
    net.Holds hole none s'.view := by
  rw [NocNetwork.sendFrom, if_pos hroom, hvia, Option.getD_some] at hstep
  have henqueued : net.Holds hole none (s.view.enqueue d p ⟨some via, some dest, some via⟩) := by
    refine ⟨h.placed.enqueue ?_ _, h.addressed.enqueue ((h.placed.lost _ rfl).2 d) rfl rfl,
      h.joined.enqueue h.addressed hpending _⟩
    rwa [NetworkState.view, List.length_map]
  have hview : (s.enqueue d p ⟨some via, some dest, some via⟩).view =
      s.view.enqueue d p ⟨some via, some dest, some via⟩ := by
    simp only [NetworkState.view, NetworkState.enqueue, FlitView.enqueue, FlitView.mk.injEq,
      and_self, and_true]
    funext d'
    by_cases hd : d' = d
    · subst hd
      simp
    · simp [hd]
  rw [← hview] at henqueued
  exact henqueued.processBufferedPackets hstep

theorem Holds.nodeSend {p : NocPacket} (h : net.Holds hole (some p.uid) s.view)
    (hroom : (s.inQueue d).length < net.maxPackets d)
    (hpending : ∀ e ∈ s.pending, e.destNocNetDevice ≠ d) {destination : ℕ} {route : RouteReply δ}
    (hstep : net.nodeSend protocol s d p destination route = some s') :
    net.Holds hole none s'.view := by
  rw [NocNetwork.nodeSend] at hstep
  split at hstep
  · cases hstep
  dsimp only at hstep
  have huid : (if p.packetType = .head then { p with header := route.header } else p).uid = p.uid := by
    split <;> rfl
  have h' : net.Holds hole (some (if p.packetType = .head then { p with header := route.header }
      else p).uid) s.view := by rwa [huid]
  exact Holds.sendFrom (s := { s with
    viaNetDevice := Function.update s.viaNetDevice d (some route.sourceDevice) }) h' hroom hpending
    (Function.update_self d _ s.viaNetDevice) hstep

theorem Holds.receive {p : NocPacket} (h : net.Holds hole (some p.uid) s.view)
    (hroom : (s.inQueue d).length < net.maxPackets d)
    (hpending : ∀ e ∈ s.pending, e.destNocNetDevice ≠ d) {dest : Option δ} {route : RouteReply δ}
    (hstep : net.receive protocol s d p dest route = some s') : net.Holds hole none s'.view := by
  obtain ⟨dest, -, hstep⟩ := Option.bind_eq_some_iff.mp hstep
  split at hstep
  · obtain rfl := Option.some.inj hstep
    exact ⟨h.placed.deliver d, h.addressed.log (fun _ _ => rfl) nofun, h.joined.log _⟩
  · exact h.nodeSend hroom hpending hstep

omit [DecidableEq δ] [DecidableEq γ] in
theorem channel_at_device (net : NocNetwork δ γ) (c : γ) (i : Fin 2) :
    net.channel (net.device c i) = some c := by
  rw [net.channel_eq_some, net.deviceId_device]

omit [DecidableEq δ] [DecidableEq γ] in
/-- A device is at the end of one link only. -/
theorem Transmits.eventWire_eq {v : FlitView δ γ} {e e' : TransmitEndEvent δ γ}
    (h : net.Transmits v e) (h' : net.Transmits v e')
    (heq : e'.destNocNetDevice = e.destNocNetDevice) : net.eventWire e' = net.eventWire e := by
  rw [h.dest, h'.dest] at heq
  have hchannel := congrArg net.channel heq
  have hid := congrArg net.deviceId heq
  rw [channel_at_device, channel_at_device, Option.some.injEq] at hchannel
  rw [net.deviceId_device, net.deviceId_device] at hid
  have hcases : ∀ i j : Fin 2, 1 - i = 1 - j → i = j := by decide
  rw [eventWire, eventWire, hchannel, hcases _ _ hid]

/-- `TransmitEnd` dequeues the flit that was transmitted. -/
theorem Holds.dequeueTransmitted (h : net.Holds none none s.view) {n : ℕ}
    {e : TransmitEndEvent δ γ} (hn : s.pending[n]? = some e) :
    ∃ t p d q, net.dequeueTransmitted { s with pending := s.pending.eraseIdx n } e =
        some (t, p, net.eventWire e) ∧ net.Holds (some (net.eventWire e)) (some p.uid) t.view ∧
      t.trace = s.trace ++ [.dequeued d q] ∧ q.uid = p.uid ∧ t.pending = s.pending.eraseIdx n ∧
      ∀ d', (t.inQueue d').length ≤ (s.inQueue d').length := by
  have ht := h.joined.pending e (List.mem_of_getElem? hn)
  obtain ⟨p, d, ptr, rest, sd, hcurrent, horiginal, hids, -⟩ := ht.flit
  obtain ⟨q, tail, hqueue, hq, hrest⟩ := List.map_eq_cons_iff.mp hids
  obtain ⟨rfl, huid⟩ := Prod.mk.inj hq
  let u : NetworkState δ γ σ := { s with
    pending := s.pending.eraseIdx n
    inQueue := Function.update s.inQueue d tail
    pktSrcDestMap := Function.update s.pktSrcDestMap d
      (Function.update (s.pktSrcDestMap d) q.ptr none)
    trace := s.trace ++ [.dequeued d q.packet] }
  have hdequeue : NetworkState.dequeuePacketFromInQueue
      { s with pending := s.pending.eraseIdx n } d = some (q, u) := by
    simp only [NetworkState.dequeuePacketFromInQueue, hqueue, u]
  refine ⟨u.setLink (net.eventWire e) { s.link (net.eventWire e) with
    packetOriginalDevice := Function.update (s.link (net.eventWire e)).packetOriginalDevice
      p.uid none }, p, d, q.packet, ?_, ?_, rfl, huid, rfl, fun d' => ?_⟩
  · rw [NocNetwork.dequeueTransmitted, indexOf_of_channel ht.channel]
    refine Option.bind_eq_some_iff.mpr ⟨_, rfl, Option.bind_eq_some_iff.mpr ⟨p, hcurrent, ?_⟩⟩
    refine Option.bind_eq_some_iff.mpr ⟨d, horiginal, ?_⟩
    refine Option.bind_eq_some_iff.mpr ⟨_, hdequeue, ?_⟩
    exact if_pos ⟨ht.propagating, huid.symm⟩
  · rw [← huid] at hids horiginal ⊢
    have hview : Function.update s.view.ids d rest = fun d' =>
        (Function.update s.inQueue d tail d').map fun q => (q.ptr, q.packet.uid) := by
      funext d'
      by_cases hd : d' = d
      · subst hd
        rw [Function.update_self, Function.update_self, hrest]
      · rw [Function.update_of_ne hd, Function.update_of_ne hd]
        rfl
    refine ⟨(h.placed.dequeue hids).congr hview.symm rfl,
      (h.addressed.dequeue hids).congr hview.symm rfl rfl rfl, ?_⟩
    have hjoined := h.joined.dequeue h.placed h.addressed hn horiginal hids
    rw [FlitView.dequeue] at hjoined
    dsimp only at hjoined
    rw [hview] at hjoined
    exact hjoined
  · by_cases hd : d' = d
    · subst hd
      simp [NetworkState.setLink, u, hqueue]
    · simp [NetworkState.setLink, u, hd]

omit [DecidableEq γ] in
/-- There is room where a transmitted flit arrives, and no other flit is under way to there. -/
theorem Holds.room_arrival (h : net.Holds none none s.view) {n : ℕ} {e : TransmitEndEvent δ γ}
    (hn : s.pending[n]? = some e) {t : NetworkState δ γ σ} (hpending : t.pending = s.pending.eraseIdx n)
    (hlength : ∀ d, (t.inQueue d).length ≤ (s.inQueue d).length) :
    (t.inQueue e.destNocNetDevice).length < net.maxPackets e.destNocNetDevice ∧
      ∀ e' ∈ t.pending, e'.destNocNetDevice ≠ e.destNocNetDevice := by
  have he := h.joined.pending e (List.mem_of_getElem? hn)
  have hroom := he.room
  rw [NetworkState.view, List.length_map] at hroom
  refine ⟨(hlength _).trans_lt hroom, fun e' he' heq => ?_⟩
  rw [hpending] at he'
  exact h.joined.eventWire_ne hn he' (he.eventWire_eq
    (h.joined.pending e' (List.mem_of_mem_eraseIdx he')) heq)

theorem Holds.transmitEnd (h : net.Holds none none s.view) {n : ℕ} {route : RouteReply δ}
    (hstep : net.transmitEnd protocol s n route = some s') : net.Holds none none s'.view := by
  obtain ⟨e, hn, hstep⟩ := Option.bind_eq_some_iff.mp hstep
  obtain ⟨t, p, d, q, hdequeue, ht, -, -, hpending, hlength⟩ := h.dequeueTransmitted hn
  rw [hdequeue, Option.bind_eq_bind, Option.bind_some] at hstep
  obtain ⟨u, hreceive, hstep⟩ := Option.bind_eq_some_iff.mp hstep
  obtain rfl := Option.some.inj hstep
  obtain ⟨hroom, hother⟩ := h.room_arrival hn hpending hlength
  have hu : net.Holds (some (net.eventWire e)) none u.view := ht.receive hroom hother hreceive
  exact ⟨hu.placed.congr rfl rfl, hu.addressed.congr rfl rfl rfl rfl, hu.joined.close⟩

theorem length_le_of_nodup {l : List ℕ} {n : ℕ} (h : l.Nodup) (hlt : ∀ x ∈ l, x < n) :
    l.length ≤ n := by
  have hsubset : l ⊆ List.range n := fun x hx => List.mem_range.mpr (hlt x hx)
  have hle := (List.subperm_of_subset h hsubset).length_le
  rwa [List.length_range] at hle

omit [DecidableEq γ] in
/-- An injection device never runs full, since there are not so many uids. -/
theorem Holds.room_injection (h : net.Holds none none s.view) {uid : ℕ} (hnone : net.channel d = none)
    (huid : uid ∉ s.injected) (hlt : uid < 2 ^ 32 - 1) :
    (s.inQueue d).length < net.maxPackets d ∧ ∀ e ∈ s.pending, e.destNocNetDevice ≠ d := by
  constructor
  · have hqueued : uid ∉ (s.view.ids d).map Prod.snd := fun hmem => by
      obtain ⟨i, hi, heq⟩ := List.mem_map.mp hmem
      exact huid ((h.placed.injected uid).mpr (.inr (.inr ⟨d, i, hi, heq⟩)))
    have hle := length_le_of_nodup (List.nodup_cons.mpr ⟨hqueued, h.placed.nodup d⟩)
      (n := 2 ^ 32 - 1) fun x hx => by
        obtain rfl | hx := List.mem_cons.mp hx
        · exact hlt
        · obtain ⟨i, hi, rfl⟩ := List.mem_map.mp hx
          exact h.placed.uid_lt _ ((h.placed.injected _).mpr (.inr (.inr ⟨d, i, hi, rfl⟩)))
    rw [net.maxPackets_internal d hnone]
    rw [List.length_cons, List.length_map, NetworkState.view, List.length_map] at hle
    exact hle
  · intro e he heq
    have hdest := (h.joined.pending e he).dest
    rw [heq] at hdest
    rw [hdest, channel_at_device] at hnone
    cases hnone

theorem Holds.injectPacket (h : net.Holds none none s.view) {new : NewPacket}
    {uid destination : ℕ} {route : RouteReply δ}
    (hstep : net.injectPacket protocol s d new uid destination route = some s') :
    net.Holds none none s'.view := by
  rw [NocNetwork.injectPacket] at hstep
  split at hstep
  · rename_i hnew
    obtain ⟨hnone, huid, hlt⟩ := hnew
    obtain ⟨hroom, hother⟩ := h.room_injection hnone huid hlt
    refine Holds.nodeSend (s := s.log (.injected d new uid)) ?_ hroom hother hstep
    rw [NewPacket.uid_build]
    exact ⟨h.placed.inject d new huid hlt, h.addressed.log (fun _ _ => rfl) nofun,
      h.joined.log _⟩
  · cases hstep

theorem Holds.step (h : net.Holds none none s.view) {l : NetworkStep δ}
    (hstep : net.step protocol s l = some s') : net.Holds none none s'.view := by
  cases l with
  | injectPacket d new uid destination route => exact h.injectPacket hstep
  | processBufferedPackets d => exact h.processBufferedPackets hstep
  | transmitEnd n route => exact h.transmitEnd hstep

omit [DecidableEq δ] [DecidableEq γ] in
theorem queued_eq (s : NetworkState δ γ σ) (d : δ) : s.queued d = (s.view.ids d).map Prod.snd := by
  rw [NetworkState.queued, NetworkState.view, List.map_map]
  rfl

theorem Holds.flitsConserved (h : net.Holds none none s.view) : net.Conserves s where
  place uid huid := by
    have hmem {d : δ} : uid ∈ s.queued d ↔ ∃ i ∈ s.view.ids d, i.2 = uid := by
      rw [queued_eq, List.mem_map]
    obtain hnone | hdelivered | ⟨d, i, hi, rfl⟩ := (h.placed.injected uid).mp huid
    · cases hnone
    · refine .inl ⟨List.count_eq_one_of_mem h.placed.deliveredNodup hdelivered, fun d hd => ?_⟩
      obtain ⟨i, hi, rfl⟩ := hmem.mp hd
      exact h.placed.notDelivered d i hi hdelivered
    · refine .inr ⟨h.placed.notDelivered d i hi, d, ?_, fun d' hd' hqueued => hd' ?_⟩
      · refine List.count_eq_one_of_mem ?_ (hmem.mpr ⟨i, hi, rfl⟩)
        rw [queued_eq]
        exact h.placed.nodup d
      · obtain ⟨j, hj, heq⟩ := hmem.mp hqueued
        exact h.placed.apart d' d j i hj hi heq
  injected uid huid := by
    refine (h.placed.injected uid).mpr (.inr ?_)
    obtain hdelivered | ⟨d, hd⟩ := huid
    · exact .inl hdelivered
    · rw [queued_eq, List.mem_map] at hd
      exact .inr ⟨d, hd⟩
  dropped := h.placed.dropped
  fifo d := by
    rw [queued_eq]
    exact h.placed.fifo d
  sent := h.addressed.sent
  transmitted n e hn := by
    obtain ⟨t, p, d, q, hdequeue, -, htrace, huid, -⟩ := h.dequeueTransmitted hn
    exact ⟨t, p, _, d, q, hdequeue, htrace, huid⟩

omit [DecidableEq γ] in
theorem holds_start (net : NocNetwork δ γ) (switching : ℕ → σ) :
    net.Holds none none ({ switching } : NetworkState δ γ σ).view where
  placed := by
    constructor <;> simp [NetworkState.view, injectedUids, deliveredUids, enqueuedUids, dequeuedUids]
  addressed := by
    constructor <;> simp [NetworkState.view, SentAsRecorded]
  joined := by
    constructor <;> simp [NetworkState.view]

/-- No flit is lost, duplicated or dropped, whatever the routing and switching protocols answer and
in whatever order things happen. -/
theorem always_conserves (net : NocNetwork δ γ) (protocol : SwitchingProtocol σ)
    (switching : ℕ → σ) (ls : List (NetworkStep δ)) :
    Always (net.step protocol) net.Conserves { switching } ls :=
  (Always.of_invariant (fun _ _ _ h _ hstep => Holds.step h hstep) (holds_start net switching)
    (Allowed.trivial _ _ ls)).mono fun _ h => h.flitsConserved

end Steps

end NocNetwork
end Ns3Noc
