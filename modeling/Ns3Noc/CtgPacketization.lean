import Ns3Noc.CtgSending
import Ns3Noc.ChunkedLists

/-!
# How SendFlit cuts volumes into packets

The flits for each iteration and each destination are full packets followed by a packet that
is still open or by a last, possibly shorter one. All iterations share `m_numberOfFlits`, and
`SendFlit` only ever lowers it.
-/
namespace Ns3Noc
open Packets

namespace NocCtgApplication
open CtgState
variable {a : NocCtgApplication} {s s' : CtgState}

/-- The size of the packets for a destination. -/
def packetSize (a : NocCtgApplication) (d : DependentTaskData) : ℕ :=
  min a.numberOfFlits (a.upperValue d.data)

/-- Full packets and an open one, with less payload than the volume. -/
def Underfilled (a : NocCtgApplication) (flits : List InjectedFlit) (d : DependentTaskData) : Prop :=
  (∃ k, ∃ r < a.packetSize d, flits.map InjectedFlit.packetType =
    packets .head .data .tail k (a.packetSize d) ++ opened .head .data r) ∧
  (sentBytes flits * 8 : ℕ) < d.data

/-- Full packets and a last one, which may be shorter; the payload covers the volume and exceeds
it by less than a flit. -/
def Filled (a : NocCtgApplication) (flits : List InjectedFlit) (d : DependentTaskData) : Prop :=
  (∃ k, ∃ r ≤ a.packetSize d, 0 < r ∧ flits.map InjectedFlit.packetType =
    packets .head .data .tail k (a.packetSize d) ++ packet .head .data .tail r) ∧
  d.data ≤ (sentBytes flits * 8 : ℕ) ∧
  (sentBytes flits * 8 : ℕ) < d.data + (a.flitSize * 8 : ℕ)

/-- Every destination on another node has been sent its volume in packets, once `SendFlit` has
left it, and part of the volume until then. -/
def Packetized (a : NocCtgApplication) (s : CtgState) : Prop :=
  ∀ i j d, a.localTaskList[j]? = some d → a.nodeId ≠ d.receivingNodeId →
    if j < (s.iteration i).currentDestinationIndex then a.Filled (s.flitsFor i j) d
    else a.Underfilled (s.flitsFor i j) d

/-- At a `SendFlit` for another node the shared number of flits has not been lowered below the
packet size of the destination, and the counted bits fit into an `uint32_t`. -/
def SendsFullPackets (a : NocCtgApplication) (s : CtgState) (i : ℕ) : Prop :=
  ∀ d ∈ a.localTaskList[(s.iteration i).currentDestinationIndex]?, a.nodeId ≠ d.receivingNodeId →
    min s.numberOfFlits (a.upperValue d.data) = a.packetSize d ∧
    ((s.iteration i).totalTaskBytes + a.flitSize) * 8 < 2 ^ 32

instance (a : NocCtgApplication) (s : CtgState) (i : ℕ) : Decidable (a.SendsFullPackets s i) :=
  inferInstanceAs (Decidable (∀ _ ∈ _, _ → _))

/-- Every `SendFlit` event meets the condition. -/
def FiresFullPackets (a : NocCtgApplication) (s : CtgState) : CtgStep → Prop
  | .fire _ n => ∀ i ∈ s.pending[n]?.bind (fun e => e.2.sendIteration), a.SendsFullPackets s i
  | .flitReceived _ _ => True

instance (a : NocCtgApplication) (s : CtgState) :
    (l : CtgStep) → Decidable (a.FiresFullPackets s l)
  | .fire _ _ => inferInstanceAs (Decidable (∀ _ ∈ _, _))
  | .flitReceived _ _ => .isTrue True.intro

/-- The counters of an iteration describe the flits for the current destination. -/
def Packetizing (a : NocCtgApplication) (d : DependentTaskData) (flits : List InjectedFlit)
    (index bytes : ℕ) : Prop :=
  (∃ k, flits.map InjectedFlit.packetType =
    packets .head .data .tail k (a.packetSize d) ++ opened .head .data index) ∧
  index < a.packetSize d ∧ sentBytes flits = bytes ∧ (bytes * 8 : ℕ) < d.data

/-- `upperValue` is the least number of flits whose payload covers the volume, in a packet with
one header. -/
theorem upperValue_le_iff {data : ℚ} (hdata : 0 < data) (hheader : a.headerSize ≤ a.flitSize)
    (h64 : ⌈data / 8 / a.flitSize⌉₊ * a.flitSize < 2 ^ 64) (n : ℕ) :
    a.upperValue data ≤ n ↔ data / 8 ≤ n * a.flitSize - a.headerSize := by
  have hsize : (0 : ℚ) < a.flitSize := by exact_mod_cast a.flitSize_pos
  have hceil : ∀ m : ℕ, ⌈data / 8 / a.flitSize⌉₊ ≤ m ↔ data / 8 ≤ m * a.flitSize := by
    intro m
    rw [Nat.ceil_le, div_le_iff₀ hsize]
  have hpos : 0 < ⌈data / 8 / a.flitSize⌉₊ := Nat.ceil_pos.mpr (by positivity)
  unfold upperValue
  dsimp only
  generalize ⌈data / 8 / a.flitSize⌉₊ = u at hceil hpos h64 ⊢
  have hle : a.flitSize ≤ u * a.flitSize := Nat.le_mul_of_pos_left _ hpos
  have hroom : (((u : ℤ) - 1) * a.flitSize + a.flitSize - a.headerSize) % 2 ^ 64 =
      u * a.flitSize - a.headerSize := by
    rw [show ((u : ℤ) - 1) * a.flitSize + a.flitSize - a.headerSize =
      u * a.flitSize - a.headerSize by ring]
    apply Int.emod_eq_of_lt
    · have : (a.headerSize : ℤ) ≤ (u * a.flitSize : ℕ) := by exact_mod_cast hheader.trans hle
      push_cast at this
      omega
    · have : ((u * a.flitSize : ℕ) : ℤ) < 2 ^ 64 := by exact_mod_cast h64
      push_cast at this
      omega
  have hheader' : (a.headerSize : ℚ) ≤ a.flitSize := by exact_mod_cast hheader
  have hmono : ∀ m, m ≤ n → (m : ℚ) * a.flitSize ≤ n * a.flitSize := by
    intro m hm
    have : (m : ℚ) ≤ n := by exact_mod_cast hm
    exact mul_le_mul_of_nonneg_right this hsize.le
  rw [hroom]
  push_cast
  split
  · next hshort =>
    constructor
    · intro hn
      have := hmono (u + 1) hn
      have := (hceil u).mp le_rfl
      push_cast at *
      linarith
    · intro hn
      have hn' : u ≤ n := (hceil n).mpr (by linarith [(Nat.cast_nonneg a.headerSize : (0 : ℚ) ≤ _)])
      rcases Nat.lt_or_eq_of_le hn' with hlt | rfl
      · exact hlt
      · exact absurd hn (not_le.mpr hshort)
  · next hfits =>
    constructor
    · intro hn
      have := hmono u hn
      linarith [not_lt.mp hfits]
    · intro hn
      exact (hceil n).mpr (by linarith [(Nat.cast_nonneg a.headerSize : (0 : ℚ) ≤ _)])

theorem packetSize_pos {d : DependentTaskData} (hd : 0 < d.data) : 0 < a.packetSize d := by
  have hceil : 0 < ⌈d.data / 8 / a.flitSize⌉₊ := by
    have := a.flitSize_pos
    rw [Nat.ceil_pos]
    positivity
  have htwo := a.two_le_numberOfFlits
  unfold packetSize upperValue
  dsimp only
  split <;> omega

theorem packetizing_nil {d : DependentTaskData} (hd : 0 < d.data) : a.Packetizing d [] 0 0 :=
  ⟨⟨0, rfl⟩, packetSize_pos hd, rfl, by simpa using hd⟩

theorem Packetizing.eq_zero {d : DependentTaskData} {index bytes : ℕ}
    (h : a.Packetizing d [] index bytes) : index = 0 ∧ bytes = 0 := by
  obtain ⟨⟨k, htypes⟩, -, hbytes, -⟩ := h
  exact ⟨opened_eq_nil (List.append_eq_nil_iff.mp htypes.symm).2, hbytes.symm⟩

theorem Sending.packetizes (h : a.Sending a.Packetizing (fun d flits => a.Filled flits d) s)
    (hpos : ∀ d ∈ a.localTaskList, 0 < d.data) : a.Packetized s := by
  intro i j d hj hnode
  split
  · next hlt => exact h.done i j d hlt hj hnode
  · next hge =>
    rcases Nat.lt_or_eq_of_le (Nat.le_of_not_lt hge) with hlt | rfl
    · have hd := hpos d (List.mem_of_getElem? hj)
      rw [h.untouched i j hlt]
      exact ⟨⟨0, 0, packetSize_pos hd, rfl⟩, by simpa [sentBytes] using hd⟩
    · obtain ⟨⟨k, htypes⟩, hindex, hbytes, hless⟩ := h.current i d hj
      exact ⟨⟨k, _, hindex, htypes⟩, hbytes ▸ hless⟩

/-- The new flit continues the open packet, and it closes it where `SendFlit` stops counting. -/
theorem opened_append_createFlit {i : ℕ} {d : DependentTaskData}
    (h32 : ((s.iteration i).totalTaskBytes + a.flitSize) * 8 < 2 ^ 32) :
    opened .head .data (s.iteration i).currentFlitIndex ++ [(a.createFlit s i d).packetType] =
      if (s.iteration i).currentFlitIndex + 1 = s.numberOfFlits ∨
        d.data ≤ (((s.iteration i).totalTaskBytes + (a.createFlit s i d).payload) * 8 : ℕ) then
        packet .head .data .tail ((s.iteration i).currentFlitIndex + 1)
      else opened .head .data ((s.iteration i).currentFlitIndex + 1) := by
  have hadd : add32 (s.iteration i).totalTaskBytes a.flitSize =
      (s.iteration i).totalTaskBytes + a.flitSize := Nat.mod_eq_of_lt (by omega)
  by_cases hindex : (s.iteration i).currentFlitIndex = 0
  · -- a head flit looks the same in a packet of one flit
    have htype : (a.createFlit s i d).packetType = .head := by
      simp [createFlit, nextFlit, openPacket, hindex]
    rw [htype, hindex]
    split <;> rfl
  · have hopen : openPacket s i = s.iteration i := by rw [openPacket, if_neg hindex]
    have hpayload : (a.createFlit s i d).payload = a.flitSize := by
      simp only [createFlit, nextFlit, hopen, if_neg hindex]
      split <;> rfl
    have htype : (a.createFlit s i d).packetType =
        if (s.iteration i).currentFlitIndex + 1 = s.numberOfFlits ∨
          d.data ≤ (((s.iteration i).totalTaskBytes + a.flitSize) * 8 : ℕ) then .tail else .data := by
      simp only [createFlit, nextFlit, hopen, if_neg hindex, hadd, covers_iff d.data h32]
      split <;> rfl
    rw [htype, hpayload]
    split
    · exact opened_append_tail (Nat.pos_of_ne_zero hindex)
    · exact opened_append_data (Nat.pos_of_ne_zero hindex)

/-- A flit in a packet of the right size continues the sequence of packets. -/
theorem Packetizing.continues {i : ℕ} {d : DependentTaskData}
    (h : a.Packetizing d (s.flitsFor i (s.iteration i).currentDestinationIndex)
      (s.iteration i).currentFlitIndex (s.iteration i).totalTaskBytes)
    (hsize : s.numberOfFlits = a.packetSize d)
    (h32 : ((s.iteration i).totalTaskBytes + a.flitSize) * 8 < 2 ^ 32) :
    a.Continues a.Packetizing (fun d flits => a.Filled flits d) s i d := by
  obtain ⟨⟨k, htypes⟩, hindex, hbytes, hless⟩ := h
  have hle := payload_createFlit_le (a := a) s i d
  have hsent : sentBytes (s.flitsFor i (s.iteration i).currentDestinationIndex ++
      [a.createFlit s i d]) = (s.iteration i).totalTaskBytes + (a.createFlit s i d).payload := by
    rw [sentBytes, List.map_append, List.sum_append, ← sentBytes, hbytes]
    simp
  have htypes' : (s.flitsFor i (s.iteration i).currentDestinationIndex ++
      [a.createFlit s i d]).map InjectedFlit.packetType =
      packets .head .data .tail k (a.packetSize d) ++
        (opened .head .data (s.iteration i).currentFlitIndex ++
          [(a.createFlit s i d).packetType]) := by
    rw [List.map_append, htypes, List.append_assoc]
    rfl
  rw [opened_append_createFlit h32, hsize] at htypes'
  refine ⟨h32, ?_⟩
  dsimp only
  split
  · next hdone =>
    rw [if_pos (.inr hdone)] at htypes'
    refine ⟨⟨k, _, hindex, Nat.succ_pos _, htypes'⟩, by rwa [hsent], ?_⟩
    rw [hsent]
    push_cast at hless ⊢
    have : ((a.createFlit s i d).payload : ℚ) ≤ a.flitSize := by exact_mod_cast hle
    linarith
  · next hmore =>
    simp only [or_iff_left hmore] at htypes'
    refine ⟨?_, ?_, hsent, not_le.mp hmore⟩
    · rw [hsize]
      split at htypes'
      · next hlast =>
        refine ⟨k + 1, ?_⟩
        rw [if_pos hlast, packets_succ, htypes', hlast]
        simp [opened]
      · next hopen =>
        refine ⟨k, ?_⟩
        rw [if_neg hopen, htypes']
    · rw [hsize]
      split
      · omega
      · omega

/-- Whatever the order of the events of all iterations, the flits for each iteration and
destination form packets, as long as no destination has lowered the number of flits below the
packet size of another one. -/
theorem packetized (a : NocCtgApplication) (hpos : ∀ d ∈ a.localTaskList, 0 < d.data) (now : ℕ)
    (steps : List CtgStep)
    (hok : PartialRuns.Allowed a.step a.FiresFullPackets (a.startApplication now) steps)
    (s : CtgState) (hrun : PartialRuns.run a.step (a.startApplication now) steps = some s) :
    a.Packetized s := by
  have hstart : ∀ d ∈ a.localTaskList, a.Packetizing d [] 0 0 :=
    fun d hd => packetizing_nil (hpos d hd)
  have hstep : ∀ s l s', a.Sending a.Packetizing (fun d flits => a.Filled flits d) s →
      a.FiresFullPackets s l → a.step s l = some s' →
        a.Sending a.Packetizing (fun d flits => a.Filled flits d) s' := by
    intro s l s' h hok hs
    refine h.step hstart (fun _ _ _ h => h.eq_zero) hs ?_
    rintro now n i d rfl hpending hd hnode
    obtain ⟨hsize, h32⟩ := hok i hpending d hd hnode
    exact Packetizing.continues (h.current i d hd) hsize h32
  have h : a.Sending a.Packetizing (fun d flits => a.Filled flits d) s :=
    PartialRuns.invariant_of_allowed hstep (sending_startApplication a hstart now) hok hrun
  exact h.packetizes hpos

/-- A source that sends two volumes in packets of at most three flits. -/
def source (first second : ℚ) : NocCtgApplication :=
  { plain with
    taskList := [⟨"source", 0⟩]
    localTaskList := [⟨"source", 0, first, "sink", 1⟩, ⟨"source", 0, second, "sink", 1⟩] }

/-- Two packets of three flits and one of two flits, then a single head flit. -/
theorem packetized_source : ∃ s, PartialRuns.run (source 400 8).step
    ((source 400 8).startApplication 0) (List.replicate 10 (.fire 0 0)) = some s ∧
      (source 400 8).Packetized s := by
  have hsome : (PartialRuns.run (source 400 8).step ((source 400 8).startApplication 0)
      (List.replicate 10 (.fire 0 0))).isSome := by decide +kernel
  obtain ⟨s, hs⟩ := Option.isSome_iff_exists.mp hsome
  exact ⟨s, hs, packetized (source 400 8) (by decide +kernel) 0 _ (by decide +kernel) s hs⟩

/-- The first volume needs one flit, so the second one is sent in packets of one flit too. -/
theorem not_packetized_source : ∃ steps s, PartialRuns.run (source 8 160).step
    ((source 8 160).startApplication 0) steps = some s ∧ ¬(source 8 160).Packetized s := by
  have hrun : (PartialRuns.run (source 8 160).step ((source 8 160).startApplication 0)
      (List.replicate 4 (.fire 0 0))).map (fun s =>
        ((s.iteration 0).currentDestinationIndex, (s.flitsFor 0 1).map InjectedFlit.packetType)) =
      some (1, [.head, .head]) := by decide +kernel
  obtain ⟨s, hs, hstate⟩ := Option.map_eq_some_iff.mp hrun
  obtain ⟨hindex, htypes⟩ := Prod.mk.inj hstate
  refine ⟨_, s, hs, ?_⟩
  intro h
  have hsize : (source 8 160).packetSize ⟨"source", 0, 160, "sink", 1⟩ = 3 := by decide +kernel
  have hsecond := h 0 1 ⟨"source", 0, 160, "sink", 1⟩ rfl (by decide)
  rw [hindex, if_neg (by decide)] at hsecond
  obtain ⟨⟨k, r, hr, hpackets⟩, -⟩ := hsecond
  rw [htypes, hsize] at hpackets
  rw [hsize] at hr
  have hlength := congrArg List.length hpackets
  simp only [List.length_append, length_packets, length_opened, List.length_cons,
    List.length_nil] at hlength
  obtain ⟨rfl, rfl⟩ : k = 0 ∧ r = 2 := by omega
  exact absurd hpackets (by decide)

end NocCtgApplication
end Ns3Noc
