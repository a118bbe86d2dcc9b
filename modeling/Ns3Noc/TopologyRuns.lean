import Ns3Noc.TcMessages

/-!
# Runs of the topology set

Originators number their advertised sets in order, and the sequence numbers wrap.
-/
namespace Ns3Noc.Olsr

open PartialRuns

/-- The advertised sets of an originator in the order of their sequence numbers. Two that are less
than half the range apart are different. -/
structure Originator where
  start : UInt16
  advertised : ℕ → List Ipv4Address
  distinct : ∀ j k, j < k → k < j + 32768 → ¬∀ a, a ∈ advertised j ↔ a ∈ advertised k

namespace Originator

def ansn (originator : Originator) (k : ℕ) : UInt16 := incrementAnsn^[k] originator.start

theorem toNat_incrementAnsn (ansn : UInt16) : (incrementAnsn ansn).toNat = (ansn.toNat + 1) % 65536 := by
  simp [incrementAnsn, OLSR_MAX_SEQ_NUM, UInt16.toNat_ofNat']

theorem toNat_ansn (originator : Originator) (k : ℕ) :
    (originator.ansn k).toNat = (originator.start.toNat + k) % 65536 := by
  induction k with
  | zero => exact (Nat.mod_eq_of_lt originator.start.toNat_lt).symm
  | succ k ih =>
    rw [ansn, Function.iterate_succ_apply', toNat_incrementAnsn, ← ansn, ih]
    omega

theorem ansn_ne (originator : Originator) {j k : ℕ} (hjk : j < k) (hhalf : k < j + 32768) :
    (originator.ansn j).toNat ≠ (originator.ansn k).toNat := by
  rw [toNat_ansn, toNat_ansn]
  omega

end Originator

/-- A TC message of an originator, by its index. -/
structure TcEvent where
  now : Time
  linkSet : LinkSet
  senderIface : Ipv4Address
  vTime : Time
  originatorAddress : Ipv4Address
  index : ℕ

variable (originators : Ipv4Address → Originator)

def TcEvent.message (event : TcEvent) : TcMessage :=
  ⟨event.vTime, event.originatorAddress,
    (originators event.originatorAddress).ansn event.index,
    (originators event.originatorAddress).advertised event.index⟩

/-- The topology set and the newest index received from each originator. -/
structure TopologyRun where
  topologySet : TopologySet
  newest : Ipv4Address → Option ℕ

def TopologyRun.start : TopologyRun := ⟨[], fun _ => none⟩

def TopologyRun.step (run : TopologyRun) (event : TcEvent) : Option TopologyRun :=
  some ⟨processTc event.linkSet event.now run.topologySet (event.message originators)
      event.senderIface,
    Function.update run.newest event.originatorAddress
      (some (((run.newest event.originatorAddress).map (max event.index)).getD event.index))⟩

/-- The message comes through a symmetric link, within half the range of the newest one. -/
structure TcEvent.Legal (run : TopologyRun) (event : TcEvent) : Prop where
  link : (event.linkSet.findSymLinkTuple event.senderIface event.now).isSome
  half : ∀ m ∈ run.newest event.originatorAddress,
    event.index < m + 32768 ∧ m < event.index + 32768

/-- The tuples of each originator are what it advertised last. -/
def TopologyRun.Fresh (run : TopologyRun) : Prop :=
  ∀ o a, (∃ it ∈ run.topologySet, it.lastAddr = o ∧ it.destAddr = a) ↔
    ∃ m ∈ run.newest o, a ∈ (originators o).advertised m

/-- The numbers compare as the indices do, and nothing older comes after an empty set. -/
def TcEvent.InOrder (run : TopologyRun) (event : TcEvent) : Prop :=
  let originator := originators event.originatorAddress
  ∀ m ∈ run.newest event.originatorAddress,
    if originator.advertised m = [] then m ≤ event.index
    else (event.index < m → originator.ansn event.index < originator.ansn m) ∧
      (m < event.index → originator.ansn m < originator.ansn event.index)

instance (run : TopologyRun) (event : TcEvent) : Decidable (event.Legal run) :=
  decidable_of_iff ((event.linkSet.findSymLinkTuple event.senderIface event.now).isSome ∧
    ∀ m ∈ run.newest event.originatorAddress,
      event.index < m + 32768 ∧ m < event.index + 32768)
    ⟨fun h => ⟨h.1, h.2⟩, fun h => ⟨h.link, h.half⟩⟩

variable {originators} {run run' : TopologyRun} {event : TcEvent} {o : Ipv4Address}

/-- What is kept about one originator. -/
def TopologyRun.Current (originators : Ipv4Address → Originator) (run : TopologyRun)
    (o : Ipv4Address) : Prop :=
  match run.newest o with
  | some m => run.topologySet.Holds o ((originators o).ansn m) (· ∈ (originators o).advertised m)
  | none => run.topologySet.Holds o 0 (fun _ => False)

theorem TopologyRun.Current.fresh (h : ∀ o, run.Current originators o) : run.Fresh originators := by
  intro o a
  have ho := h o
  rw [Current] at ho
  cases hm : run.newest o with
  | none =>
    rw [hm] at ho
    rw [ho.addrs a]
    simp
  | some m =>
    rw [hm] at ho
    rw [ho.addrs a]
    simp

theorem TopologyRun.current_start (o : Ipv4Address) : TopologyRun.start.Current originators o :=
  ⟨fun _ hit => absurd hit List.not_mem_nil,
    fun _ => ⟨fun ⟨_, hit, _⟩ => absurd hit List.not_mem_nil, False.elim⟩⟩

namespace TcEvent

/-- The step changes one originator only. -/
theorem current_other (h : run.Current originators o) (ho : o ≠ event.originatorAddress)
    (hstep : run.step originators event = some run') : run'.Current originators o := by
  obtain rfl := Option.some.inj hstep
  have hsame := untouched_processTc (event.message originators) event.linkSet event.now
    run.topologySet event.senderIface ho
  rw [TopologyRun.Current] at h ⊢
  dsimp only
  rw [Function.update_of_ne ho]
  cases hm : run.newest o with
  | none =>
    rw [hm] at h
    exact h.of_untouched hsame
  | some m =>
    rw [hm] at h
    exact h.of_untouched hsame

theorem newest_step (hstep : run.step originators event = some run') :
    run'.newest event.originatorAddress =
      some (((run.newest event.originatorAddress).map (max event.index)).getD event.index) := by
  obtain rfl := Option.some.inj hstep
  exact Function.update_self ..

theorem topologySet_step (hstep : run.step originators event = some run') :
    run'.topologySet = processTc event.linkSet event.now run.topologySet
      (event.message originators) event.senderIface := by
  obtain rfl := Option.some.inj hstep
  rfl

/-- The first message of an originator is recorded. -/
theorem current_first (h : run.Current originators event.originatorAddress)
    (hlink : (event.linkSet.findSymLinkTuple event.senderIface event.now).isSome)
    (hnone : run.newest event.originatorAddress = none)
    (hstep : run.step originators event = some run') :
    run'.Current originators event.originatorAddress := by
  rw [TopologyRun.Current, hnone] at h
  rw [TopologyRun.Current, newest_step hstep, topologySet_step hstep, hnone]
  exact holds_processTc_newer (event.message originators) hlink h
    (fun hne => hne.elim fun _ => False.elim)

section

variable {m : ℕ} (hm : run.newest event.originatorAddress = some m)
  (h : run.topologySet.Holds event.originatorAddress
    ((originators event.originatorAddress).ansn m)
    (· ∈ (originators event.originatorAddress).advertised m))
  (hlink : (event.linkSet.findSymLinkTuple event.senderIface event.now).isSome)
  (hstep : run.step originators event = some run')

include h hlink hstep

/-- A message that compares as newer replaces the tuples. -/
theorem holds_of_newer
    (hnewer : (originators event.originatorAddress).advertised m ≠ [] →
      (originators event.originatorAddress).ansn m <
        (originators event.originatorAddress).ansn event.index) :
    run'.topologySet.Holds event.originatorAddress
      ((originators event.originatorAddress).ansn event.index)
      (· ∈ (originators event.originatorAddress).advertised event.index) := by
  rw [topologySet_step hstep]
  exact holds_processTc_newer (event.message originators) hlink h
    fun ⟨_, ha⟩ => hnewer (List.ne_nil_of_mem ha)

/-- A message that compares as older changes nothing. -/
theorem topologySet_of_older
    (hne : (originators event.originatorAddress).advertised m ≠ [])
    (holder : (originators event.originatorAddress).ansn event.index <
      (originators event.originatorAddress).ansn m) :
    run'.topologySet = run.topologySet := by
  rw [topologySet_step hstep]
  exact processTc_of_lt (event.message originators) hlink h holder
    (List.exists_mem_of_ne_nil _ hne)

include hm

theorem current_later (hok : event.InOrder originators run) :
    run'.Current originators event.originatorAddress := by
  have hnew := newest_step hstep
  have hok := hok m hm
  rw [hm, Option.map_some, Option.getD_some] at hnew
  rw [TopologyRun.Current, hnew]
  dsimp only at hok ⊢
  rcases lt_trichotomy event.index m with hlt | heq | hgt
  · rw [max_eq_right hlt.le]
    split at hok
    · omega
    · next hne =>
      rw [topologySet_of_older h hlink hstep hne (hok.1 hlt)]
      exact h
  · rw [heq, max_self, topologySet_step hstep]
    have hsame := holds_processTc_same (event.message originators) hlink h
      (by rw [message, heq])
    simpa only [message, heq, or_self] using hsame
  · rw [max_eq_left hgt.le]
    refine holds_of_newer h hlink hstep fun hne => ?_
    rw [if_neg hne] at hok
    exact hok.2 hgt

/-- Out of order, the tuples are those of the other message. -/
theorem not_fresh (hhalf : event.index < m + 32768 ∧ m < event.index + 32768)
    (hok : ¬event.InOrder originators run) : ¬run'.Fresh originators := by
  intro hfresh
  have hnew := newest_step hstep
  rw [hm, Option.map_some, Option.getD_some] at hnew
  have hfresh := hfresh event.originatorAddress
  simp only [hnew, Option.mem_some_iff, exists_eq_left'] at hfresh
  obtain ⟨m', hm', hbad⟩ : ∃ m' ∈ run.newest event.originatorAddress, ¬_ := by
    simpa only [InOrder, not_forall, exists_prop] using hok
  obtain rfl := Option.some.inj (hm.symm.trans hm')
  have hdistinct := (originators event.originatorAddress).distinct
  have hlt_of_not {j k : ℕ} (hjk : j < k) (hhalf : k < j + 32768)
      (hlt : ¬(originators event.originatorAddress).ansn j <
        (originators event.originatorAddress).ansn k) :
      (originators event.originatorAddress).ansn k <
        (originators event.originatorAddress).ansn j := by
    have hne := (originators event.originatorAddress).ansn_ne hjk hhalf
    rw [UInt16.lt_iff_toNat_lt] at hlt ⊢
    omega
  rcases lt_trichotomy event.index m with hlt | heq | hgt
  · rw [max_eq_right hlt.le] at hfresh
    have hholds := holds_of_newer h hlink hstep fun hne => by
      rw [if_neg hne, not_and_or] at hbad
      rcases hbad with hbad | hbad
      · exact hlt_of_not hlt hhalf.2 (fun hc => hbad fun _ => hc)
      · exact absurd (fun hgt => absurd hgt hlt.asymm) hbad
    exact hdistinct _ _ hlt hhalf.2 fun a => (hholds.addrs a).symm.trans (hfresh a)
  · subst heq
    exact absurd (by split <;> simp) hbad
  · rw [max_eq_left hgt.le] at hfresh
    split at hbad
    · exact absurd hgt.le hbad
    · next hne =>
      rw [not_and_or] at hbad
      have holder : (originators event.originatorAddress).ansn event.index <
          (originators event.originatorAddress).ansn m := by
        rcases hbad with hbad | hbad
        · exact absurd (fun hlt => absurd hlt hgt.asymm) hbad
        · exact hlt_of_not hgt hhalf.1 (fun hc => hbad fun _ => hc)
      rw [topologySet_of_older h hlink hstep hne holder] at hfresh
      exact hdistinct _ _ hgt hhalf.1 fun a => (h.addrs a).symm.trans (hfresh a)

end

theorem step_current (h : ∀ o, run.Current originators o) (hlegal : event.Legal run)
    (hok : event.InOrder originators run) (hstep : run.step originators event = some run') (o) :
    run'.Current originators o := by
  by_cases ho : o = event.originatorAddress
  · subst ho
    have hown := h event.originatorAddress
    cases hm : run.newest event.originatorAddress with
    | none => exact current_first hown hlegal.link hm hstep
    | some m =>
      rw [TopologyRun.Current, hm] at hown
      exact current_later hm hown hlegal.link hstep hok
  · exact current_other (h o) ho hstep

theorem step_not_fresh (h : ∀ o, run.Current originators o) (hlegal : event.Legal run)
    (hok : ¬event.InOrder originators run) :
    ∃ run', run.step originators event = some run' ∧ ¬run'.Fresh originators := by
  obtain ⟨run', hstep⟩ : ∃ run', run.step originators event = some run' := ⟨_, rfl⟩
  refine ⟨run', hstep, ?_⟩
  have hown := h event.originatorAddress
  cases hm : run.newest event.originatorAddress with
  | none =>
    refine absurd (fun m hm' => ?_) hok
    exact absurd (hm.symm.trans hm') (by simp)
  | some m =>
    rw [TopologyRun.Current, hm] at hown
    exact not_fresh hm hown hlegal.link hstep (hlegal.half m hm) hok

end TcEvent

/-- Over TC messages within half the range of the newest one, the topology set is always what each
originator advertised last exactly where no message overtakes across a wrap of the number and no
older message follows an empty set. -/
theorem TopologyRun.fresh_iff (originators : Ipv4Address → Originator) (events : List TcEvent)
    (hlegal : Allowed (TopologyRun.step originators) (fun run event => event.Legal run) .start
      events) :
    Always (TopologyRun.step originators) (TopologyRun.Fresh originators) .start events ↔
      Allowed (TopologyRun.step originators) (fun run event => event.InOrder originators run)
        .start events :=
  always_iff_allowed_of_legal (fun _ => Current.fresh)
    (fun _ _ _ h hlegal hok hstep => TcEvent.step_current h hlegal hok hstep)
    (fun _ _ h hlegal hok => TcEvent.step_not_fresh h hlegal hok) current_start hlegal

/-- Each message advertises one address, its index. -/
def counting (start : UInt16) : Originator where
  start := start
  advertised k := [BitVec.ofNat 32 k]
  distinct := by
    intro j k hjk hhalf hsame
    have hmem : BitVec.ofNat 32 j ∈ [BitVec.ofNat 32 k] :=
      (hsame _).mp (List.mem_singleton_self _)
    have heq := congrArg BitVec.toNat (List.mem_singleton.mp hmem)
    simp only [BitVec.toNat_ofNat] at heq
    omega

/-- The message of one originator with this index, over one link. -/
def TcEvent.fromNeighbor (index : ℕ) : TcEvent where
  now := 0
  linkSet := [⟨1, 2, 10, 10, 10⟩]
  senderIface := 2
  vTime := 15
  originatorAddress := 7
  index := index

theorem TopologyRun.fresh_counting :
    Always (step fun _ => counting 0) (Fresh fun _ => counting 0) .start
      (List.map TcEvent.fromNeighbor [0, 2, 1, 3]) ↔
    Allowed (step fun _ => counting 0)
      (fun run event => event.InOrder (fun _ => counting 0) run) .start
      (List.map TcEvent.fromNeighbor [0, 2, 1, 3]) :=
  fresh_iff (fun _ => counting 0) _ (by decide +kernel)

/-- The message with number 0 after the one with number 65535 is discarded. -/
theorem TopologyRun.stale_after_wrap :
    Allowed (step fun _ => counting 65535) (fun run event => event.Legal run) .start
      (List.map TcEvent.fromNeighbor [0, 1]) ∧
    ¬Always (step fun _ => counting 65535) (Fresh fun _ => counting 65535) .start
      (List.map TcEvent.fromNeighbor [0, 1]) := by
  refine ⟨by decide +kernel, fun h => ?_⟩
  have hlast := (h.last rfl 7 1).mpr ⟨1, rfl, List.mem_singleton_self _⟩
  exact absurd hlast (by decide +kernel)

end Ns3Noc.Olsr
