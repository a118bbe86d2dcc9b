import Ns3Noc.MacRxMiddle
import Ns3Noc.PartialRuns

/-!
# Runs of defragmentation

The MSDUs of several originators, received fragment by fragment with losses and repetitions.
-/
namespace Ns3Noc.Wifi

open PartialRuns

/-- An originator numbers the MSDUs of each TID that it sends to one station as QoS data, and all
its other MSDUs together. -/
structure StreamKey where
  source : Mac48Address
  tid : Option ℕ
  deriving DecidableEq, Repr

structure Msdu where
  ctrlType : CtrlType
  ctrlSubtype : BitVec 4
  addr1 : Mac48Address
  qosTid : ℕ
  fragments : List Packet
  isData_or_isMgt : ctrlType ≠ .ctl
  length_pos : 0 < fragments.length
  length_le : fragments.length ≤ 16

namespace Msdu

variable (msdu : Msdu)

def tid : Option ℕ :=
  if msdu.ctrlType = .data ∧ msdu.ctrlSubtype &&& 0x08 ≠ 0 ∧ msdu.addr1.isGroup = false then
    some msdu.qosTid
  else none

end Msdu

/-- The MSDUs of one stream in the order of their sequence numbers. -/
structure Stream (key : StreamKey) where
  start : Fin 4096
  msdu : ℕ → Msdu
  tid : ∀ i, (msdu i).tid = key.tid

/-- A fragment that is received. -/
structure Reception where
  key : StreamKey
  index : ℕ
  fragment : Fin 16
  retry : Bool
  deriving DecidableEq, Repr

namespace Reception

variable (streams : ∀ key, Stream key) (r : Reception)

def msdu : Msdu := (streams r.key).msdu r.index

def hdr : WifiMacHeader where
  ctrlType := (r.msdu streams).ctrlType
  ctrlSubtype := (r.msdu streams).ctrlSubtype
  ctrlMoreFrag := r.fragment + 1 < (r.msdu streams).fragments.length
  ctrlRetry := r.retry
  addr1 := (r.msdu streams).addr1
  addr2 := r.key.source
  seqSeq := (streams r.key).start + Fin.ofNat 4096 r.index
  seqFrag := r.fragment
  qosTid := (r.msdu streams).qosTid

def packet : Packet := (r.msdu streams).fragments.getD r.fragment []

end Reception

/-- An MSDU that was forwarded, by the fragment with which it was. -/
structure Forwarded where
  key : StreamKey
  index : ℕ
  packet : Packet
  deriving DecidableEq, Repr

/-- The statuses of the originators, the MSDU that is being assembled in each, the fragments
received and the MSDUs forwarded. -/
structure RxRun where
  statuses : OriginatorKey → OriginatorRxStatus
  assembling : OriginatorKey → Option (StreamKey × ℕ)
  received : List (StreamKey × ℕ × Fin 16)
  forwarded : List Forwarded

namespace RxRun

variable (streams : ∀ key, Stream key)

def start : RxRun := ⟨fun _ => .create, fun _ => none, [], []⟩

def status (run : RxRun) (r : Reception) : OriginatorRxStatus :=
  run.statuses (MacRxMiddle.lookup (r.hdr streams))

def step (run : RxRun) (r : Reception) : Option RxRun :=
  let originator := MacRxMiddle.lookup (r.hdr streams)
  (MacRxMiddle.receive run.statuses (r.packet streams) (r.hdr streams)).map
    fun (statuses, agregate) =>
      { statuses := statuses
        assembling :=
          if (statuses originator).defragmenting && !(run.statuses originator).defragmenting then
            Function.update run.assembling originator (some (r.key, r.index))
          else run.assembling
        received := (r.key, r.index, r.fragment) :: run.received
        forwarded := agregate.toList.map (⟨r.key, r.index, ·⟩) ++ run.forwarded }

/-- A fragment of the MSDU that does not come before one received from the stream, and a
repetition carries the retry flag. -/
structure Legal (run : RxRun) (r : Reception) : Prop where
  fragment : r.fragment < (r.msdu streams).fragments.length
  order : ∀ p ∈ run.received, p.1 = r.key → p.2.1 < r.index ∨ p.2.1 = r.index ∧ p.2.2 ≤ r.fragment
  retry : (r.key, r.index, r.fragment) ∈ run.received → r.retry = true

/-- All fragments of the MSDU were received. -/
def Complete (run : RxRun) (key : StreamKey) (index : ℕ) : Prop :=
  ∀ f : Fin 16, f < ((streams key).msdu index).fragments.length → (key, index, f) ∈ run.received

instance (run : RxRun) (key : StreamKey) (index : ℕ) : Decidable (run.Complete streams key index) :=
  inferInstanceAs (Decidable (∀ _ : Fin 16, _ → _))

/-- Each complete MSDU was forwarded once, with its contents, and nothing else was. -/
structure Defragments (run : RxRun) : Prop where
  once : ∀ key index, run.forwarded.countP (fun p => p.key = key ∧ p.index = index) =
    if run.Complete streams key index then 1 else 0
  contents : ∀ p ∈ run.forwarded, p.packet = ((streams p.key).msdu p.index).fragments.flatten

/-- A frame that is taken for a duplicate was received before, if it is a fragment 0. A frame that
meets a status with an MSDU in assembly is a fragment of it, or is neither a fragment 0 nor numbered
as its next one. Any other frame is a fragment 0 that was not received before. -/
def Allows (run : RxRun) (r : Reception) : Prop :=
  let status := run.status streams r
  if MacRxMiddle.isDuplicate (r.hdr streams) status then
    r.fragment.val = 0 → (r.key, r.index, r.fragment) ∈ run.received
  else if status.defragmenting then
    run.assembling (MacRxMiddle.lookup (r.hdr streams)) = some (r.key, r.index) ∨
      r.fragment.val ≠ 0 ∧ status.isNextFragment (r.hdr streams).getSequenceControl = false
  else r.fragment.val = 0 ∧ (r.key, r.index, r.fragment) ∉ run.received

instance (run : RxRun) (r : Reception) : Decidable (run.Legal streams r) :=
  decidable_of_iff (r.fragment < (r.msdu streams).fragments.length ∧
    (∀ p ∈ run.received, p.1 = r.key →
      p.2.1 < r.index ∨ p.2.1 = r.index ∧ p.2.2 ≤ r.fragment) ∧
    ((r.key, r.index, r.fragment) ∈ run.received → r.retry = true))
    ⟨fun h => ⟨h.1, h.2.1, h.2.2⟩, fun h => ⟨h.fragment, h.order, h.retry⟩⟩

instance (run : RxRun) (r : Reception) : Decidable (run.Allows streams r) :=
  inferInstanceAs (Decidable (
    if MacRxMiddle.isDuplicate (r.hdr streams) (run.status streams r) then
      r.fragment.val = 0 → (r.key, r.index, r.fragment) ∈ run.received
    else if (run.status streams r).defragmenting then
      run.assembling (MacRxMiddle.lookup (r.hdr streams)) = some (r.key, r.index) ∨
        r.fragment.val ≠ 0 ∧
          (run.status streams r).isNextFragment (r.hdr streams).getSequenceControl = false
    else r.fragment.val = 0 ∧ (r.key, r.index, r.fragment) ∉ run.received))

/-! ## The key and the number of an MSDU -/

def originatorKey (key : StreamKey) (index : ℕ) : OriginatorKey :=
  let msdu := (streams key).msdu index
  if (msdu.ctrlType = .data && msdu.ctrlSubtype &&& 0x08 != 0) && !key.source.isGroup then
    .qos key.source msdu.qosTid
  else .other key.source

def sequenceNumber (key : StreamKey) (index : ℕ) : Fin 4096 :=
  (streams key).start + Fin.ofNat 4096 index

variable {streams} {run run' : RxRun} {r : Reception} {key : StreamKey} {index : ℕ}
  {st : OriginatorRxStatus} {agregate : Option Packet}

theorem lookup_hdr (r : Reception) :
    MacRxMiddle.lookup (r.hdr streams) = originatorKey streams r.key r.index := rfl

theorem getSequenceControl_hdr (r : Reception) : (r.hdr streams).getSequenceControl =
    16 * (sequenceNumber streams r.key r.index : ℕ) + r.fragment :=
  WifiMacHeader.getSequenceControl_eq _

theorem isData_or_isMgt_hdr (r : Reception) :
    ((r.hdr streams).isData || (r.hdr streams).isMgt) = true := by
  have hkind := (r.msdu streams).isData_or_isMgt
  cases h : (r.msdu streams).ctrlType with
  | ctl => exact absurd h hkind
  | mgt => simp [WifiMacHeader.isData, WifiMacHeader.isMgt, Reception.hdr, h]
  | data => simp [WifiMacHeader.isData, WifiMacHeader.isMgt, Reception.hdr, h]

/-- The run after a frame that leaves this status and forwards this packet. -/
def after (streams : ∀ key, Stream key) (run : RxRun) (r : Reception) (status : OriginatorRxStatus)
    (agregate : Option Packet) : RxRun where
  statuses := Function.update run.statuses (originatorKey streams r.key r.index) status
  assembling :=
    if status.defragmenting && !(run.status streams r).defragmenting then
      Function.update run.assembling (originatorKey streams r.key r.index) (some (r.key, r.index))
    else run.assembling
  received := (r.key, r.index, r.fragment) :: run.received
  forwarded := agregate.toList.map (⟨r.key, r.index, ·⟩) ++ run.forwarded

theorem step_eq (h : MacRxMiddle.receiveFrom (r.packet streams) (r.hdr streams)
    (run.status streams r) = some (st, agregate)) :
    run.step streams r = some (run.after streams r st agregate) := by
  rw [status] at h
  rw [step, MacRxMiddle.receive, h, Option.map_some, Option.map_some]
  simp only [Function.update_self]
  rfl

theorem mem_received_after {p : StreamKey × ℕ × Fin 16} :
    p ∈ (run.after streams r st agregate).received ↔
      p = (r.key, r.index, r.fragment) ∨ p ∈ run.received :=
  List.mem_cons

/-- Only the MSDU of the frame can become complete. -/
theorem complete_after_of_ne (hne : (key, index) ≠ (r.key, r.index)) :
    (run.after streams r st agregate).Complete streams key index ↔
      run.Complete streams key index := by
  apply forall_congr'
  intro f
  apply imp_congr_right
  intro _
  rw [mem_received_after]
  constructor
  · intro h
    refine h.resolve_left fun heq => hne ?_
    simp only [Prod.mk.injEq] at heq
    rw [heq.1, heq.2.1]
  · exact .inr

theorem Complete.after (h : run.Complete streams key index) :
    (run.after streams r st agregate).Complete streams key index :=
  fun f hf => List.mem_cons_of_mem _ (h f hf)

/-! ## What was forwarded -/

theorem Defragments.keep (h : run.Defragments streams)
    (hcomplete : (run.after streams r st none).Complete streams r.key r.index →
      run.Complete streams r.key r.index) :
    (run.after streams r st none).Defragments streams := by
  refine ⟨fun key index => ?_, h.contents⟩
  have hiff : (run.after streams r st none).Complete streams key index ↔
      run.Complete streams key index := by
    by_cases hne : (key, index) = (r.key, r.index)
    · obtain ⟨rfl, rfl⟩ := Prod.mk.inj hne
      exact ⟨hcomplete, Complete.after⟩
    · exact complete_after_of_ne hne
  rw [if_congr hiff rfl rfl]
  exact h.once key index

theorem Defragments.forward (h : run.Defragments streams) {packet : Packet}
    (hbefore : ¬run.Complete streams r.key r.index)
    (hafter : (run.after streams r st (some packet)).Complete streams r.key r.index)
    (hpacket : packet = (r.msdu streams).fragments.flatten) :
    (run.after streams r st (some packet)).Defragments streams := by
  have hforwarded : (run.after streams r st (some packet)).forwarded =
      ⟨r.key, r.index, packet⟩ :: run.forwarded := rfl
  constructor
  · intro key index
    have honce := h.once key index
    rw [hforwarded]
    by_cases hne : (key, index) = (r.key, r.index)
    · obtain ⟨rfl, rfl⟩ := Prod.mk.inj hne
      rw [if_neg hbefore] at honce
      rw [List.countP_cons_of_pos (by simp), honce, if_pos hafter]
    · rw [List.countP_cons_of_neg, honce, if_congr (complete_after_of_ne hne) rfl rfl]
      simp only [decide_eq_true_eq]
      rintro ⟨rfl, rfl⟩
      exact hne rfl
  · intro p hp
    rw [hforwarded] at hp
    rcases List.mem_cons.mp hp with rfl | hp
    · exact hpacket
    · exact h.contents p hp

/-! ## The assembly of an MSDU -/

/-- The fragments up to the last accumulated one were received, and the next one was not. -/
def Assembly (streams : ∀ key, Stream key) (run : RxRun) (status : OriginatorRxStatus)
    (key : StreamKey) (index : ℕ) : Prop :=
  let fragments := ((streams key).msdu index).fragments
  ∃ f, f + 1 < fragments.length ∧
    status.lastSequenceControl = 16 * (sequenceNumber streams key index : ℕ) + f ∧
    status.fragments = fragments.take (f + 1) ∧
    (∀ g : Fin 16, g ≤ f → (key, index, g) ∈ run.received) ∧
    ∀ g : Fin 16, g = f + 1 → (key, index, g) ∉ run.received

structure Inv (streams : ∀ key, Stream key) (run : RxRun) : Prop where
  idle : ∀ c, (run.statuses c).defragmenting = false → (run.statuses c).fragments = []
  assembly : ∀ c, (run.statuses c).defragmenting = true → ∃ key index,
    run.assembling c = some (key, index) ∧ originatorKey streams key index = c ∧
      run.Assembly streams (run.statuses c) key index
  begun : ∀ key index, (key, index, 0) ∈ run.received → run.Complete streams key index ∨
    (run.statuses (originatorKey streams key index)).defragmenting = true ∧
      run.assembling (originatorKey streams key index) = some (key, index)
  defragments : run.Defragments streams

theorem assembling_after_of_ne {c : OriginatorKey} (hc : c ≠ originatorKey streams r.key r.index) :
    (run.after streams r st agregate).assembling c = run.assembling c := by
  rw [after]
  dsimp only
  split
  · exact Function.update_of_ne hc _ _
  · rfl

theorem statuses_after_of_ne {c : OriginatorKey} (hc : c ≠ originatorKey streams r.key r.index) :
    (run.after streams r st agregate).statuses c = run.statuses c :=
  Function.update_of_ne hc _ _

theorem statuses_after_self :
    (run.after streams r st agregate).statuses (originatorKey streams r.key r.index) = st :=
  Function.update_self ..

/-- A frame other than the next fragment does not touch an assembly. -/
theorem Assembly.after (h : run.Assembly streams st key index) {st' : OriginatorRxStatus}
    (hnext : ∀ f, (key, index) = (r.key, r.index) →
      st.lastSequenceControl = 16 * (sequenceNumber streams key index : ℕ) + f →
      r.fragment.val ≠ f + 1) :
    (run.after streams r st' agregate).Assembly streams st key index := by
  obtain ⟨f, hf, hlast, hfragments, hreceived, hmissing⟩ := h
  refine ⟨f, hf, hlast, hfragments, fun g hg => ?_, fun g hg hmem => ?_⟩
  · exact List.mem_cons_of_mem _ (hreceived g hg)
  · rcases mem_received_after.mp hmem with heq | hmem
    · simp only [Prod.mk.injEq] at heq
      obtain ⟨rfl, rfl, rfl⟩ := heq
      exact hnext f rfl hlast hg
    · exact hmissing g hg hmem

/-- The frame ends or advances the assembly of its own MSDU. -/
theorem Inv.replace (h : Inv streams run)
    (hidle : st.defragmenting = false → st.fragments = [])
    (hassembly : st.defragmenting = true →
      (run.after streams r st agregate).assembling (originatorKey streams r.key r.index) =
        some (r.key, r.index) ∧
      (run.after streams r st agregate).Assembly streams st r.key r.index)
    (hown : st.defragmenting = false →
      (run.after streams r st agregate).Complete streams r.key r.index)
    (hothers : ∀ key index, (key, index) ≠ (r.key, r.index) →
      originatorKey streams key index = originatorKey streams r.key r.index →
      (key, index, 0) ∈ run.received → run.Complete streams key index)
    (hdefragments : (run.after streams r st agregate).Defragments streams) :
    Inv streams (run.after streams r st agregate) := by
  refine ⟨fun c => ?_, fun c => ?_, fun key index hmem => ?_, hdefragments⟩
  · by_cases hc : c = originatorKey streams r.key r.index
    · rw [hc, statuses_after_self]
      exact hidle
    · rw [statuses_after_of_ne hc]
      exact h.idle c
  · by_cases hc : c = originatorKey streams r.key r.index
    · rw [hc, statuses_after_self]
      intro hst
      exact ⟨r.key, r.index, (hassembly hst).1, rfl, (hassembly hst).2⟩
    · rw [statuses_after_of_ne hc, assembling_after_of_ne hc]
      intro hst
      obtain ⟨key, index, hcurrent, hkey, hasm⟩ := h.assembly c hst
      refine ⟨key, index, hcurrent, hkey, hasm.after fun f heq => ?_⟩
      obtain ⟨rfl, rfl⟩ := Prod.mk.inj heq
      exact absurd hkey.symm hc
  · by_cases hne : (key, index) = (r.key, r.index)
    · obtain ⟨rfl, rfl⟩ := Prod.mk.inj hne
      rw [statuses_after_self]
      cases hst : st.defragmenting with
      | true => exact .inr ⟨rfl, (hassembly hst).1⟩
      | false => exact .inl (hown hst)
    · have hmem : (key, index, 0) ∈ run.received := by
        refine (mem_received_after.mp hmem).resolve_left fun heq => hne ?_
        simp only [Prod.mk.injEq] at heq
        rw [heq.1, heq.2.1]
      by_cases hc : originatorKey streams key index = originatorKey streams r.key r.index
      · exact .inl (hothers key index hne hc hmem).after
      · rw [statuses_after_of_ne hc, assembling_after_of_ne hc]
        exact (h.begun key index hmem).imp_left Complete.after

/-- The frame is dropped. -/
theorem Inv.dropped (h : Inv streams run)
    (hcomplete : (run.after streams r (run.status streams r) none).Complete streams r.key r.index →
      run.Complete streams r.key r.index)
    (hnext : ∀ f, (run.status streams r).defragmenting = true →
      run.assembling (originatorKey streams r.key r.index) = some (r.key, r.index) →
      (run.status streams r).lastSequenceControl =
        16 * (sequenceNumber streams r.key r.index : ℕ) + f → r.fragment.val ≠ f + 1)
    (hbegun : r.fragment = 0 → (r.key, r.index, r.fragment) ∈ run.received) :
    Inv streams (run.after streams r (run.status streams r) none) := by
  have hstatuses : (run.after streams r (run.status streams r) none).statuses = run.statuses :=
    Function.update_eq_self _ _
  have hassembling : (run.after streams r (run.status streams r) none).assembling =
      run.assembling := by
    rw [after]
    dsimp only
    rw [Bool.and_not_self, if_neg Bool.false_ne_true]
  refine ⟨fun c => ?_, fun c hc => ?_, fun key index hmem => ?_, h.defragments.keep hcomplete⟩
  · rw [hstatuses]
    exact h.idle c
  · rw [hstatuses] at hc ⊢
    rw [hassembling]
    obtain ⟨key, index, hcurrent, hkey, hasm⟩ := h.assembly c hc
    refine ⟨key, index, hcurrent, hkey, hasm.after fun f heq hlast => ?_⟩
    obtain ⟨rfl, rfl⟩ := Prod.mk.inj heq
    subst hkey
    exact hnext f hc hcurrent hlast
  · rw [hstatuses, hassembling]
    have hmem : (key, index, 0) ∈ run.received := by
      rcases mem_received_after.mp hmem with heq | hmem
      · rw [heq]
        simp only [Prod.mk.injEq] at heq
        exact hbegun heq.2.2.symm
      · exact hmem
    exact (h.begun key index hmem).imp_left Complete.after

/-! ## One frame -/

/-- A repetition, or a fragment whose MSDU has lost its fragment 0, completes nothing. -/
theorem Inv.keep_complete (h : Inv streams run)
    (hcase : (r.key, r.index, r.fragment) ∈ run.received ∨ r.fragment ≠ 0 ∧
      ¬((run.status streams r).defragmenting = true ∧
        run.assembling (originatorKey streams r.key r.index) = some (r.key, r.index)))
    (hcomplete : (run.after streams r st none).Complete streams r.key r.index) :
    run.Complete streams r.key r.index := by
  rcases hcase with hmem | ⟨hne, hnot⟩
  · intro f hf
    rcases mem_received_after.mp (hcomplete f hf) with heq | hin
    · exact heq ▸ hmem
    · exact hin
  · have hzero := hcomplete 0 ((streams r.key).msdu r.index).length_pos
    have hzero := (mem_received_after.mp hzero).resolve_left fun heq => by
      simp only [Prod.mk.injEq] at heq
      exact hne heq.2.2.symm
    exact (h.begun r.key r.index hzero).resolve_right hnot

theorem isDuplicate_eq : MacRxMiddle.isDuplicate (r.hdr streams) st = true ↔
    r.retry = true ∧ st.lastSequenceControl =
      16 * (sequenceNumber streams r.key r.index : ℕ) + r.fragment := by
  rw [MacRxMiddle.isDuplicate, getSequenceControl_hdr, Bool.and_eq_true, decide_eq_true_eq]
  rfl

theorem isNextFragment_eq {f : ℕ}
    (hlast : st.lastSequenceControl = 16 * (sequenceNumber streams r.key r.index : ℕ) + f)
    (hf : f < 16) :
    st.isNextFragment (r.hdr streams).getSequenceControl = true ↔ r.fragment.val = f + 1 := by
  have hlt := r.fragment.isLt
  rw [MacRxMiddle.isNextFragment_iff, getSequenceControl_hdr, hlast]
  omega

theorem step_duplicate (h : Inv streams run)
    (hdup : MacRxMiddle.isDuplicate (r.hdr streams) (run.status streams r) = true)
    (hok : r.fragment = 0 → (r.key, r.index, r.fragment) ∈ run.received) :
    ∃ run', run.step streams r = some run' ∧ Inv streams run' := by
  refine ⟨_, step_eq (MacRxMiddle.receiveFrom_duplicate _ (isData_or_isMgt_hdr r) hdup), ?_⟩
  have hlast := (isDuplicate_eq.mp hdup).2
  refine h.dropped (h.keep_complete ?_) (fun f _ _ hf => by omega) hok
  by_cases hzero : r.fragment = 0
  · exact .inl (hok hzero)
  · by_cases hasm : (run.status streams r).defragmenting = true ∧
        run.assembling (originatorKey streams r.key r.index) = some (r.key, r.index)
    · obtain ⟨key, index, hcurrent, -, f, -, hf, -, hreceived, -⟩ := h.assembly _ hasm.1
      obtain ⟨rfl, rfl⟩ := Prod.mk.inj (Option.some.inj (hasm.2.symm.trans hcurrent))
      have heq := hf.symm.trans hlast
      exact .inl (hreceived r.fragment (by omega))
    · exact .inr ⟨hzero, hasm⟩

theorem step_other (h : Inv streams run)
    (hdup : MacRxMiddle.isDuplicate (r.hdr streams) (run.status streams r) = false)
    (hdefragmenting : (run.status streams r).defragmenting = true)
    (hnot : run.assembling (originatorKey streams r.key r.index) ≠ some (r.key, r.index))
    (hzero : r.fragment ≠ 0)
    (hnext : (run.status streams r).isNextFragment (r.hdr streams).getSequenceControl = false) :
    ∃ run', run.step streams r = some run' ∧ Inv streams run' := by
  refine ⟨_, step_eq (MacRxMiddle.receiveFrom_other _ (isData_or_isMgt_hdr r) hdup hdefragmenting
    hnext), ?_⟩
  refine h.dropped (h.keep_complete (.inr ⟨hzero, fun hasm => hnot hasm.2⟩))
    (fun f _ hcurrent => absurd hcurrent hnot) (fun hf => absurd hf hzero)

/-- What a frame that is not the first of its MSDU leaves of the others. -/
theorem Inv.others_of_assembling (h : Inv streams run)
    (hcurrent : run.assembling (originatorKey streams r.key r.index) = some (r.key, r.index)) :
    ∀ key index, (key, index) ≠ (r.key, r.index) →
      originatorKey streams key index = originatorKey streams r.key r.index →
      (key, index, 0) ∈ run.received → run.Complete streams key index := by
  intro key index hne hkey hmem
  refine (h.begun key index hmem).resolve_right fun hasm => hne ?_
  rw [hkey, hcurrent] at hasm
  exact (Option.some.inj hasm.2).symm

/-- A fragment of the MSDU in assembly that is not the last accumulated one comes after it. -/
theorem lt_fragment (hlegal : run.Legal streams r)
    (hdup : MacRxMiddle.isDuplicate (r.hdr streams) (run.status streams r) = false) {f : ℕ}
    (hf : f < 16)
    (hlast : (run.status streams r).lastSequenceControl =
      16 * (sequenceNumber streams r.key r.index : ℕ) + f)
    (hmem : (r.key, r.index, ⟨f, hf⟩) ∈ run.received) : f < r.fragment := by
  have horder := (hlegal.order _ hmem rfl).resolve_left (lt_irrefl _)
  have hle : f ≤ r.fragment := horder.2
  refine hle.lt_of_ne fun heq => ?_
  have hfragment : (⟨f, hf⟩ : Fin 16) = r.fragment := Fin.ext heq
  rw [hfragment] at hmem
  have hyes := isDuplicate_eq.mpr ⟨hlegal.retry hmem, hlast.trans (by rw [heq])⟩
  exact absurd (hyes.symm.trans hdup) (by simp)

/-- The fragments up to that of the frame were received. -/
def ReceivedUpTo (run : RxRun) (r : Reception) : Prop :=
  ∀ g : Fin 16, g < r.fragment → (r.key, r.index, g) ∈ run.received

theorem ReceivedUpTo.after (h : run.ReceivedUpTo r) {g : Fin 16} (hg : g.val ≤ r.fragment) :
    (r.key, r.index, g) ∈ (run.after streams r st agregate).received := by
  rw [mem_received_after]
  by_cases heq : g = r.fragment
  · exact .inl (by rw [heq])
  · exact .inr (h g (lt_of_le_of_ne hg heq))

/-- The assembly reaches the fragment of the frame. -/
theorem ReceivedUpTo.assembly (h : run.ReceivedUpTo r) (hlegal : run.Legal streams r)
    (hmore : r.fragment.val + 1 < (r.msdu streams).fragments.length)
    (hlast : st.lastSequenceControl = (r.hdr streams).getSequenceControl)
    (hfragments : st.fragments = (r.msdu streams).fragments.take (r.fragment + 1)) :
    (run.after streams r st agregate).Assembly streams st r.key r.index := by
  refine ⟨r.fragment, hmore, hlast.trans (getSequenceControl_hdr r), hfragments,
    fun g hg => h.after hg, fun g hg hmem => ?_⟩
  rcases mem_received_after.mp hmem with heq | hmem
  · simp only [Prod.mk.injEq] at heq
    omega
  · have horder := (hlegal.order _ hmem rfl).resolve_left (lt_irrefl _)
    have hle : g.val ≤ r.fragment := horder.2
    omega

theorem Assembly.not_complete (h : run.Assembly streams st key index) :
    ¬run.Complete streams key index := by
  obtain ⟨f, hf, -, -, -, hmissing⟩ := h
  have hlength := ((streams key).msdu index).length_le
  intro hcomplete
  exact hmissing ⟨f + 1, by omega⟩ rfl (hcomplete ⟨f + 1, by omega⟩ hf)

theorem ReceivedUpTo.complete (h : run.ReceivedUpTo r)
    (hmore : ¬r.fragment.val + 1 < (r.msdu streams).fragments.length) :
    (run.after streams r st agregate).Complete streams r.key r.index := by
  intro g hg
  apply h.after
  have hg : g.val < (r.msdu streams).fragments.length := hg
  omega

theorem take_append_packet (hlegal : run.Legal streams r) :
    (r.msdu streams).fragments.take r.fragment ++ [r.packet streams] =
      (r.msdu streams).fragments.take (r.fragment + 1) := by
  have hlt : r.fragment.val < (r.msdu streams).fragments.length := hlegal.fragment
  rw [List.take_succ_eq_append_getElem hlt, Reception.packet, List.getD_eq_getElem _ _ hlt]

theorem step_same (h : Inv streams run) (hlegal : run.Legal streams r)
    (hdup : MacRxMiddle.isDuplicate (r.hdr streams) (run.status streams r) = false)
    (hdefragmenting : (run.status streams r).defragmenting = true)
    (hcurrent : run.assembling (originatorKey streams r.key r.index) = some (r.key, r.index)) :
    ∃ run', run.step streams r = some run' ∧ Inv streams run' := by
  obtain ⟨key, index, hcurrent', -, hasm⟩ := h.assembly _ hdefragmenting
  obtain ⟨rfl, rfl⟩ := Prod.mk.inj (Option.some.inj (hcurrent.symm.trans hcurrent'))
  change run.Assembly streams (run.status streams r) r.key r.index at hasm
  obtain ⟨f, hf, hlast, hfragments, hreceived, hmissing⟩ := hasm
  have hlength := ((streams r.key).msdu r.index).length_le
  have hgt := lt_fragment hlegal hdup (by omega) hlast (hreceived ⟨f, by omega⟩ le_rfl)
  have hnext := isNextFragment_eq hlast (by omega)
  have hothers := h.others_of_assembling hcurrent
  by_cases hr : r.fragment.val = f + 1
  · have hupTo : run.ReceivedUpTo r := fun g hg => hreceived g (by omega)
    have htake : (run.status streams r).fragments ++ [r.packet streams] =
        (r.msdu streams).fragments.take (r.fragment + 1) := by
      rw [← take_append_packet hlegal, hr]
      exact congrArg (· ++ _) hfragments
    by_cases hmore : r.fragment.val + 1 < (r.msdu streams).fragments.length
    · have hstep := MacRxMiddle.receiveFrom_next (r.packet streams) (isData_or_isMgt_hdr r)
        hdup hdefragmenting (hnext.mpr hr) (decide_eq_true hmore)
      have hasm (agregate : Option Packet) :=
        @ReceivedUpTo.assembly streams run r ⟨true, (r.hdr streams).getSequenceControl, _⟩
          agregate hupTo hlegal hmore rfl htake
      refine ⟨_, step_eq hstep, h.replace (fun hno => absurd hno (by simp))
        (fun _ => ⟨?_, hasm none⟩) (fun hno => absurd hno (by simp)) hothers
        (h.defragments.keep fun hno => absurd hno (hasm none).not_complete)⟩
      rw [after, hdefragmenting]
      exact hcurrent
    · have hstep := MacRxMiddle.receiveFrom_last (r.packet streams) (isData_or_isMgt_hdr r)
        hdup hdefragmenting (hnext.mpr hr) (decide_eq_false hmore)
      refine ⟨_, step_eq hstep, h.replace (fun _ => rfl) (fun hno => absurd hno (by simp))
        (fun _ => hupTo.complete hmore) hothers
        (h.defragments.forward ?_ (hupTo.complete hmore) ?_)⟩
      · intro hbefore
        exact hmissing r.fragment hr (hbefore r.fragment hlegal.fragment)
      · rw [htake, List.take_of_length_le (by omega)]
  · have hno : (run.status streams r).isNextFragment (r.hdr streams).getSequenceControl = false := by
      rw [← Bool.not_eq_true, hnext]
      exact hr
    refine ⟨_, step_eq (MacRxMiddle.receiveFrom_other _ (isData_or_isMgt_hdr r) hdup hdefragmenting
      hno), h.dropped (fun hcomplete => ?_) (fun f' _ _ hf' => ?_) (fun hzero => ?_)⟩
    · have hmem := hcomplete ⟨f + 1, by omega⟩ hf
      refine absurd ((mem_received_after.mp hmem).resolve_left fun heq => ?_)
        (hmissing ⟨f + 1, by omega⟩ rfl)
      simp only [Prod.mk.injEq] at heq
      exact hr (congrArg Fin.val heq.2.2).symm
    · have heq := hf'.symm.trans hlast
      omega
    · rw [hzero] at hgt
      exact absurd hgt (Nat.not_lt_zero f)

/-- A fragment 0 that meets no assembly. -/
theorem step_first (h : Inv streams run) (hlegal : run.Legal streams r)
    (hdup : MacRxMiddle.isDuplicate (r.hdr streams) (run.status streams r) = false)
    (hdefragmenting : (run.status streams r).defragmenting = false)
    (hzero : r.fragment = 0) (hnew : (r.key, r.index, r.fragment) ∉ run.received) :
    ∃ run', run.step streams r = some run' ∧ Inv streams run' := by
  have hupTo : run.ReceivedUpTo r := by
    intro g hg
    rw [hzero] at hg
    exact absurd hg (Fin.not_lt_zero g)
  have hempty : (run.status streams r).fragments = [] := h.idle _ hdefragmenting
  have htake := take_append_packet hlegal
  rw [hzero, Fin.val_zero, List.take_zero] at htake
  have hothers : ∀ key index, (key, index) ≠ (r.key, r.index) →
      originatorKey streams key index = originatorKey streams r.key r.index →
      (key, index, 0) ∈ run.received → run.Complete streams key index := by
    intro key index _ hkey hmem
    refine (h.begun key index hmem).resolve_right fun hasm => ?_
    rw [hkey] at hasm
    exact absurd (hasm.1.symm.trans hdefragmenting) (by simp)
  by_cases hmore : r.fragment.val + 1 < (r.msdu streams).fragments.length
  · have hstep := MacRxMiddle.receiveFrom_first (r.packet streams) (isData_or_isMgt_hdr r) hdup
      hdefragmenting (decide_eq_true hmore)
    have hasm (agregate : Option Packet) :=
      @ReceivedUpTo.assembly streams run r
        ⟨true, (r.hdr streams).getSequenceControl, [] ++ [r.packet streams]⟩ agregate hupTo hlegal
        hmore rfl (by rw [hzero]; exact htake)
    rw [hempty] at hstep
    refine ⟨_, step_eq hstep, h.replace (fun hno => absurd hno (by simp))
      (fun _ => ⟨?_, hasm none⟩) (fun hno => absurd hno (by simp)) hothers
      (h.defragments.keep fun hno => absurd hno (hasm none).not_complete)⟩
    rw [after, hdefragmenting]
    exact Function.update_self ..
  · obtain ⟨last, hstep⟩ := MacRxMiddle.receiveFrom_whole (r.packet streams) (isData_or_isMgt_hdr r) hdup
      hdefragmenting (decide_eq_false hmore)
    refine ⟨_, step_eq hstep, h.replace (fun _ => hempty) (fun hno => absurd hno (by simp))
      (fun _ => hupTo.complete hmore) hothers
      (h.defragments.forward ?_ (hupTo.complete hmore) ?_)⟩
    · intro hbefore
      exact hnew (hbefore r.fragment hlegal.fragment)
    · have hlength : (r.msdu streams).fragments.length ≤ 0 + 1 := by
        rw [hzero] at hmore
        exact Nat.le_of_not_lt hmore
      rw [List.take_of_length_le hlength] at htake
      rw [← htake]
      simp

theorem step_inv (h : Inv streams run) (hlegal : run.Legal streams r)
    (hok : run.Allows streams r) : ∃ run', run.step streams r = some run' ∧ Inv streams run' := by
  have hzero : r.fragment.val = 0 ↔ r.fragment = 0 := (Fin.ext_iff (b := 0)).symm
  simp only [Allows, hzero, ne_eq] at hok
  cases hdup : MacRxMiddle.isDuplicate (r.hdr streams) (run.status streams r) with
  | true =>
    rw [hdup] at hok
    exact step_duplicate h hdup hok
  | false =>
    cases hdefragmenting : (run.status streams r).defragmenting with
    | true =>
      rw [hdup, hdefragmenting] at hok
      by_cases hcurrent : run.assembling (originatorKey streams r.key r.index) =
          some (r.key, r.index)
      · exact step_same h hlegal hdup hdefragmenting hcurrent
      · obtain ⟨hzero, hnext⟩ := hok.resolve_left hcurrent
        exact step_other h hdup hdefragmenting hcurrent hzero hnext
    | false =>
      rw [hdup, hdefragmenting] at hok
      exact step_first h hlegal hdup hdefragmenting hok.1 hok.2

theorem inv_start : Inv streams start := by
  refine ⟨fun _ _ => rfl, fun _ hc => absurd hc (by simp [start, OriginatorRxStatus.create]),
    fun _ _ hmem => absurd hmem List.not_mem_nil, fun key index => ?_, fun p hp => ?_⟩
  · rw [if_neg]
    · rfl
    · intro hcomplete
      have hmem := hcomplete 0 ((streams key).msdu index).length_pos
      exact absurd hmem List.not_mem_nil
  · exact absurd hp List.not_mem_nil

/-- Each originator sends an MSDU of two fragments and then whole ones. -/
def twoFragments (key : StreamKey) : Stream key where
  start := 0
  msdu i :=
    { ctrlType := .data
      ctrlSubtype := if key.tid.isSome then 8 else 0
      addr1 := 1
      qosTid := key.tid.getD 0
      fragments := if i = 0 then [[1, 2], [3]] else [[4]]
      isData_or_isMgt := CtrlType.noConfusion
      length_pos := by split <;> exact Nat.succ_pos _
      length_le := by split <;> exact Nat.le_add_left _ _ }
  tid i := by
    obtain ⟨source, tid⟩ := key
    cases tid with
    | none => simp [Msdu.tid]
    | some tid => simp [Msdu.tid, Mac48Address.isGroup]

end RxRun

end Ns3Noc.Wifi
