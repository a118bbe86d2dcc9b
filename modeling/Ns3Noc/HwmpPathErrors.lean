import Ns3Noc.HwmpProtocol
import Ns3Noc.HwmpPaths

/-!
# Path errors of HWMP

The paths that a lost peer takes with it, the receivers of the path error, and the elements of its
frame.
-/
namespace Ns3Noc.Hwmp

open KeyedTables PartialActs

/-! ## The element and the frame -/

structure IePerr where
  addressUnits : List FailedDestination
  deriving DecidableEq, Repr

namespace IePerr
variable (perr : IePerr)

/-- The result has eight bits. -/
def getInformationFieldSize : ℕ := (1 + 1 + (6 + 4) * perr.addressUnits.length) % 256

def getNumOfDest : ℕ := perr.addressUnits.length % 256

def isFull : Bool := perr.getInformationFieldSize + 2 + 10 > 255

def addAddressUnit (unit : FailedDestination) : IePerr :=
  if perr.addressUnits.any (·.destination = unit.destination) then perr
  else if (perr.addressUnits.length + 1) * 10 + 2 > 255 then perr
  else ⟨perr.addressUnits ++ [unit]⟩

def resetPerr (_ : IePerr) : IePerr := ⟨[]⟩

end IePerr

/-- All elements of the frame refer to the one element that is filled. -/
structure PerrFrame where
  perr : IePerr
  elements : ℕ
  deriving DecidableEq, Repr

namespace PerrFrame
variable (frame : PerrFrame)

/-- `WifiInformationElementVector::GetSize` -/
def getSize : ℕ := frame.elements * (frame.perr.getInformationFieldSize + 2)

def addInformationElement : PerrFrame :=
  if frame.perr.getInformationFieldSize + 2 + frame.getSize > 1500 then frame
  else { frame with elements := frame.elements + 1 }

/-- One turn of the loop of `ForwardPerr`. -/
def step (d : FailedDestination) : PerrFrame :=
  if frame.perr.isFull = false then { frame with perr := frame.perr.addAddressUnit d }
  else { frame.addInformationElement with perr := frame.perr.resetPerr }

/-- What the frame holds when it is sent. -/
def sent : List IePerr := List.replicate frame.elements frame.perr

end PerrFrame

/-- The elements of the frame that `HwmpProtocolMac::ForwardPerr` builds. -/
def forwardPerr (failedDestinations : List FailedDestination) : List IePerr :=
  let frame := failedDestinations.foldl PerrFrame.step ⟨⟨[]⟩, 0⟩
  (if frame.perr.getNumOfDest > 0 then frame.addInformationElement else frame).sent

/-! ## What path errors are to do -/

/-- No path uses the peer. -/
structure HwmpRtable.Avoids (t : HwmpRtable) (peer : Address) : Prop where
  reactive : ∀ d route, find t.routes d = some route → route.retransmitter ≠ peer
  proactive : t.root.retransmitter ≠ some peer

/-- A precursor of a failed destination that is not expired. -/
def HwmpRtable.Precedes (t : HwmpRtable) (now : ℕ) (destinations : List FailedDestination)
    (receiver : ℕ × Address) : Prop :=
  ∃ d ∈ destinations, ∃ route, find t.routes d.destination = some route ∧
    ∃ p ∈ route.precursors, now < p.whenExpire ∧ (p.interface, p.address) = receiver

/-- The address tells precursors apart. -/
structure Receives (t : HwmpRtable) (now : ℕ) (destinations : List FailedDestination)
    (receivers : List (ℕ × Address)) : Prop where
  precedes : ∀ receiver ∈ receivers, t.Precedes now destinations receiver
  complete : ∀ receiver, t.Precedes now destinations receiver →
    receiver.2 ∈ receivers.map Prod.snd
  nodup : (receivers.map Prod.snd).Nodup

/-- Each destination is in the elements exactly once. -/
structure Reports (failed : List FailedDestination) (elements : List IePerr) : Prop where
  once : ∀ d ∈ failed, (elements.flatMap IePerr.addressUnits).countP
    (·.destination = d.destination) = 1
  failed : ∀ unit ∈ elements.flatMap IePerr.addressUnits, unit ∈ failed
  length : ∀ perr ∈ elements, 2 + (1 + 1 + (6 + 4) * perr.addressUnits.length) ≤ 255

/-! ## Lost peers -/

namespace HwmpRtable
variable {t : HwmpRtable} {now : ℕ} {d : Address} {destinations : List FailedDestination}

/-- The paths to a destination are deleted. -/
def without (now : ℕ) (t : HwmpRtable) (d : FailedDestination) : HwmpRtable :=
  (t.deleteReactivePath d.destination).deleteProactivePathTo now d.destination

theorem routes_without (t : HwmpRtable) (d : FailedDestination) :
    (t.without now d).routes = remove t.routes d.destination := by
  rw [without, deleteProactivePathTo]
  split
  · rfl
  · rfl

theorem root_without (t : HwmpRtable) (d : FailedDestination) :
    (t.without now d).root.root = t.root.root ∧
      ((t.without now d).root.retransmitter = none ∨
        d.destination ≠ t.root.root ∧ (t.without now d).root = t.root) := by
  rw [without, deleteProactivePathTo]
  split
  next h => exact ⟨rfl, .inl rfl⟩
  next h => exact ⟨rfl, .inr ⟨fun he => h he.symm, rfl⟩⟩

theorem find_foldl_without (t : HwmpRtable) (destinations : List FailedDestination)
    {route : ReactiveRoute} (h : find (destinations.foldl (without now) t).routes d = some route) :
    find t.routes d = some route ∧ ∀ failed ∈ destinations, failed.destination ≠ d := by
  induction destinations generalizing t with
  | nil => exact ⟨h, fun failed hmem => absurd hmem List.not_mem_nil⟩
  | cons head rest ih =>
    obtain ⟨hfind, hrest⟩ := ih _ h
    rw [routes_without] at hfind
    by_cases hd : d = head.destination
    · rw [hd, OrderedTables.find_remove_self] at hfind
      cases hfind
    · rw [OrderedTables.find_remove_of_ne hd] at hfind
      refine ⟨hfind, fun failed hmem => ?_⟩
      rcases List.mem_cons.mp hmem with rfl | hmem
      · exact fun he => hd he.symm
      · exact hrest failed hmem

theorem root_foldl_without (t : HwmpRtable) (destinations : List FailedDestination) :
    (destinations.foldl (without now) t).root.root = t.root.root ∧
      ((destinations.foldl (without now) t).root.retransmitter = none ∨
        (∀ failed ∈ destinations, failed.destination ≠ t.root.root) ∧
          (destinations.foldl (without now) t).root = t.root) := by
  induction destinations generalizing t with
  | nil => exact ⟨rfl, .inr ⟨fun failed hmem => absurd hmem List.not_mem_nil, rfl⟩⟩
  | cons head rest ih =>
    obtain ⟨hroot, hfirst⟩ := @root_without now t head
    obtain ⟨hroot', hrest⟩ := ih (t.without now head)
    refine ⟨hroot'.trans hroot, ?_⟩
    rcases hrest with hnone | ⟨hne, hsame⟩
    · exact .inl hnone
    · rcases hfirst with hnone | ⟨hne', hsame'⟩
      · exact .inl (by rw [List.foldl_cons, hsame]; exact hnone)
      · refine .inr ⟨fun failed hmem => ?_, hsame.trans hsame'⟩
        rcases List.mem_cons.mp hmem with rfl | hmem
        · exact hne'
        · rw [← hroot]
          exact hne failed hmem

/-- The unreachable destinations are all that the peer leads to. -/
theorem avoids_without_unreachable (t : HwmpRtable) (peer : Address) :
    ((t.getUnreachableDestinations peer).1.foldl (without now)
      (t.getUnreachableDestinations peer).2).Avoids peer := by
  constructor
  · intro d route hfind hpeer
    obtain ⟨hfind', hfailed⟩ := find_foldl_without _ _ hfind
    obtain ⟨row, hrow, rfl⟩ := Option.map_eq_some_iff.mp hfind'
    have hmem := List.mem_of_find?_eq_some hrow
    have hkey : row.1 = d := by simpa using List.find?_some hrow
    refine hfailed ⟨row.1, row.2.seqnum⟩ ?_ hkey
    refine List.mem_append_left _ (List.mem_map.mpr ⟨row, ?_, rfl⟩)
    exact List.mem_filter.mpr ⟨hmem, by simpa using hpeer⟩
  · intro hpeer
    obtain ⟨-, hnone | ⟨hne, hsame⟩⟩ := @root_foldl_without now
      (t.getUnreachableDestinations peer).2 (t.getUnreachableDestinations peer).1
    · rw [hnone] at hpeer
      cases hpeer
    · rw [hsame] at hpeer
      have hroot : t.root.retransmitter = some peer := hpeer
      refine hne ⟨t.root.root, t.root.seqnum⟩ ?_ rfl
      refine List.mem_append_right _ ?_
      rw [if_pos hroot]
      exact List.mem_cons_self

end HwmpRtable

namespace HwmpProtocol
variable {s : HwmpProtocol} {destinations : List FailedDestination} {peer : Address}

theorem getPerrReceivers_eq (s : HwmpProtocol) (destinations : List FailedDestination) :
    getPerrReceivers destinations s =
      some (withoutDuplicates (failedPrecursors s.now s.rtable destinations).length
        (failedPrecursors s.now s.rtable destinations),
        { s with rtable := destinations.foldl (HwmpRtable.without s.now) s.rtable }) := rfl

theorem makePathError_eq (s : HwmpProtocol) (destinations : List FailedDestination) :
    ∃ perr, makePathError destinations s =
      some (perr, { s with rtable := destinations.foldl (HwmpRtable.without s.now) s.rtable }) := by
  have hrun : makePathError destinations s =
      (if (withoutDuplicates (failedPrecursors s.now s.rtable destinations).length
          (failedPrecursors s.now s.rtable destinations)).isEmpty then pure ([], [])
        else pure (destinations, withoutDuplicates
          (failedPrecursors s.now s.rtable destinations).length
          (failedPrecursors s.now s.rtable destinations)) :
        Do (List FailedDestination × List (ℕ × Address)))
      { s with rtable := destinations.foldl (HwmpRtable.without s.now) s.rtable } := rfl
  rw [hrun]
  split
  · exact ⟨_, rfl⟩
  · exact ⟨_, rfl⟩

/-- The paths are gone whether anyone is told or not. -/
theorem peerLinkStatus_avoids (s : HwmpProtocol) (peer : Address) :
    ∃ s', peerLinkStatus peer false s = some ((), s') ∧ s'.rtable.Avoids peer := by
  obtain ⟨perr, hperr⟩ := makePathError_eq
    { s with rtable := (s.rtable.getUnreachableDestinations peer).2 }
    (s.rtable.getUnreachableDestinations peer).1
  have hrun : peerLinkStatus peer false s =
      (makePathError (s.rtable.getUnreachableDestinations peer).1
        { s with rtable := (s.rtable.getUnreachableDestinations peer).2 }).bind
        fun r => initiatePathError r.1 r.2 := rfl
  rw [hrun, hperr, Option.bind_some]
  exact ⟨_, rfl, s.rtable.avoids_without_unreachable peer⟩

end HwmpProtocol

/-! ## Receivers -/

section Receivers
variable {t : HwmpRtable} {now : ℕ} {destinations : List FailedDestination}
  {r receiver : ℕ × Address} {rs : List (ℕ × Address)}

theorem HwmpRtable.mem_getPrecursors {d : Address} : receiver ∈ t.getPrecursors now d ↔
    ∃ route, find t.routes d = some route ∧
      ∃ p ∈ route.precursors, now < p.whenExpire ∧ (p.interface, p.address) = receiver := by
  rw [getPrecursors]
  cases find t.routes d with
  | none => simp
  | some route => simp [List.mem_map, List.mem_filter, and_assoc]

/-- Deleting the paths to a destination leaves the precursors of the others. -/
theorem HwmpRtable.getPrecursors_without {d : Address} {failed : FailedDestination}
    (h : d ≠ failed.destination) :
    (t.without now failed).getPrecursors now d = t.getPrecursors now d := by
  rw [getPrecursors, getPrecursors, routes_without, OrderedTables.find_remove_of_ne h]

theorem HwmpRtable.getPrecursors_without_self (failed : FailedDestination) :
    (t.without now failed).getPrecursors now failed.destination = [] := by
  rw [getPrecursors, routes_without, OrderedTables.find_remove_self]

theorem mem_failedPrecursors (t : HwmpRtable) (destinations : List FailedDestination) :
    receiver ∈ HwmpProtocol.failedPrecursors now t destinations ↔
      t.Precedes now destinations receiver := by
  have hall : receiver ∈ HwmpProtocol.failedPrecursors now t destinations ↔
      ∃ d ∈ destinations, receiver ∈ t.getPrecursors now d.destination := by
    induction destinations generalizing t with
    | nil => simp [HwmpProtocol.failedPrecursors]
    | cons head rest ih =>
      rw [HwmpProtocol.failedPrecursors, List.mem_append, ← HwmpRtable.without, ih]
      constructor
      · rintro (hhead | ⟨d, hd, hmem⟩)
        · exact ⟨head, List.mem_cons_self, hhead⟩
        · by_cases hne : d.destination = head.destination
          · rw [hne, HwmpRtable.getPrecursors_without_self] at hmem
            exact absurd hmem List.not_mem_nil
          · rw [HwmpRtable.getPrecursors_without hne] at hmem
            exact ⟨d, List.mem_cons_of_mem _ hd, hmem⟩
      · rintro ⟨d, hd, hmem⟩
        by_cases hne : d.destination = head.destination
        · exact .inl (hne ▸ hmem)
        · rcases List.mem_cons.mp hd with rfl | hd
          · exact absurd rfl hne
          · exact .inr ⟨d, hd, by rwa [HwmpRtable.getPrecursors_without hne]⟩
  rw [hall]
  exact exists_congr fun d => and_congr_right fun _ => HwmpRtable.mem_getPrecursors

/-- No two receivers that follow one another have the address. -/
def Apart (address : Address) (rs : List (ℕ × Address)) : Prop :=
  rs.IsChain fun a b => ¬(a.2 = address ∧ b.2 = address)

/-- The receivers with another address. -/
def others (r : ℕ × Address) (rs : List (ℕ × Address)) : List (ℕ × Address) :=
  rs.filter fun x => x.2 ≠ r.2

/-- What the search for duplicates finds: behind the first receiver with an address there are no
two with it that follow one another, when the addresses that came earlier are left out. -/
def Spread : List (ℕ × Address) → Prop
  | [] => True
  | r :: rs => Apart r.2 rs ∧ Spread (others r rs)
termination_by rs => rs.length
decreasing_by
  rw [List.length_cons]
  exact Nat.lt_succ_of_le (List.length_filter_le _ _)

theorem eraseDuplicates_sublist (r : ℕ × Address) (rs : List (ℕ × Address)) :
    (HwmpProtocol.eraseDuplicates r rs).Sublist rs := by
  induction rs using HwmpProtocol.eraseDuplicates.induct r with
  | case1 => exact .slnil
  | case2 x h => rw [HwmpProtocol.eraseDuplicates, if_pos h]; exact List.nil_sublist _
  | case3 x h => rw [HwmpProtocol.eraseDuplicates, if_neg h]
  | case4 x x' rest h ih =>
    rw [HwmpProtocol.eraseDuplicates, if_pos h]
    exact (ih.cons_cons x').cons x
  | case5 x x' rest h ih =>
    rw [HwmpProtocol.eraseDuplicates, if_neg h]
    exact ih.cons_cons x

theorem mem_eraseDuplicates {x : ℕ × Address} (hne : x.2 ≠ r.2) (hmem : x ∈ rs) :
    x ∈ HwmpProtocol.eraseDuplicates r rs := by
  induction rs using HwmpProtocol.eraseDuplicates.induct r with
  | case1 => exact hmem
  | case2 y h => exact absurd (List.mem_singleton.mp hmem ▸ h) hne
  | case3 y h => rwa [HwmpProtocol.eraseDuplicates, if_neg h]
  | case4 y y' rest h ih =>
    rw [HwmpProtocol.eraseDuplicates, if_pos h]
    rcases List.mem_cons.mp hmem with rfl | hmem
    · exact absurd h hne
    · rcases List.mem_cons.mp hmem with rfl | hmem
      · exact List.mem_cons_self
      · exact List.mem_cons_of_mem _ (ih hmem)
  | case5 y y' rest h ih =>
    rw [HwmpProtocol.eraseDuplicates, if_neg h]
    rcases List.mem_cons.mp hmem with rfl | hmem
    · exact List.mem_cons_self
    · exact List.mem_cons_of_mem _ (ih hmem)

theorem eraseDuplicates_of_apart (h : Apart r.2 rs) :
    HwmpProtocol.eraseDuplicates r rs = others r rs := by
  induction rs using HwmpProtocol.eraseDuplicates.induct r with
  | case1 => rfl
  | case2 x hx => simp [HwmpProtocol.eraseDuplicates, others, hx]
  | case3 x hx => simp [HwmpProtocol.eraseDuplicates, others, hx]
  | case4 x x' rest hx ih =>
    obtain ⟨hpair, htail⟩ := List.isChain_cons_cons.mp h
    have hx' : x'.2 ≠ r.2 := fun he => hpair ⟨hx, he⟩
    rw [HwmpProtocol.eraseDuplicates, if_pos hx, ih htail.tail]
    simp [others, hx, hx']
  | case5 x x' rest hx ih =>
    rw [HwmpProtocol.eraseDuplicates, if_neg hx, ih (List.isChain_cons_cons.mp h).2]
    exact (List.filter_cons_of_pos (by simpa using hx)).symm

/-- The second of two receivers is not looked at. -/
theorem exists_eraseDuplicates_of_not_apart (h : ¬Apart r.2 rs) :
    ∃ x ∈ HwmpProtocol.eraseDuplicates r rs, x.2 = r.2 := by
  induction rs using HwmpProtocol.eraseDuplicates.induct r with
  | case1 => exact absurd List.isChain_nil h
  | case2 x hx => exact absurd (List.isChain_singleton _) h
  | case3 x hx => exact absurd (List.isChain_singleton _) h
  | case4 x x' rest hx ih =>
    rw [HwmpProtocol.eraseDuplicates, if_pos hx]
    by_cases hx' : x'.2 = r.2
    · exact ⟨x', List.mem_cons_self, hx'⟩
    · have hrest : ¬Apart r.2 rest := by
        intro hrest
        apply h
        refine List.isChain_cons_cons.mpr ⟨fun he => hx' he.2, ?_⟩
        exact List.isChain_cons.mpr ⟨fun _ _ he => hx' he.1, hrest⟩
      obtain ⟨y, hy, heq⟩ := ih hrest
      exact ⟨y, List.mem_cons_of_mem _ hy, heq⟩
  | case5 x x' rest hx ih =>
    rw [HwmpProtocol.eraseDuplicates, if_neg hx]
    obtain ⟨y, hy, heq⟩ := ih fun hrest => h (List.isChain_cons_cons.mpr ⟨fun he => hx he.1, hrest⟩)
    exact ⟨y, List.mem_cons_of_mem _ hy, heq⟩

theorem withoutDuplicates_subset (n : ℕ) (rs : List (ℕ × Address)) :
    HwmpProtocol.withoutDuplicates n rs ⊆ rs := by
  induction n generalizing rs with
  | zero => exact fun _ h => h
  | succ n ih =>
    cases rs with
    | nil => exact fun _ h => h
    | cons r rs =>
      rw [HwmpProtocol.withoutDuplicates]
      exact List.cons_subset_cons r
        (List.Subset.trans (ih _) (eraseDuplicates_sublist r rs).subset)

/-- No address gets lost. -/
theorem address_mem_withoutDuplicates (n : ℕ) (hmem : receiver ∈ rs) :
    receiver.2 ∈ (HwmpProtocol.withoutDuplicates n rs).map Prod.snd := by
  induction n generalizing rs with
  | zero => exact List.mem_map_of_mem hmem
  | succ n ih =>
    cases rs with
    | nil => exact absurd hmem List.not_mem_nil
    | cons r rs =>
      rw [HwmpProtocol.withoutDuplicates, List.map_cons]
      by_cases hsame : receiver.2 = r.2
      · exact hsame ▸ List.mem_cons_self
      · have hrest : receiver ∈ rs := (List.mem_cons.mp hmem).resolve_left fun he =>
          hsame (congrArg Prod.snd he)
        exact List.mem_cons_of_mem _ (ih (mem_eraseDuplicates hsame hrest))

theorem nodup_withoutDuplicates_iff (n : ℕ) (hn : rs.length ≤ n) :
    ((HwmpProtocol.withoutDuplicates n rs).map Prod.snd).Nodup ↔ Spread rs := by
  induction n generalizing rs with
  | zero =>
    obtain rfl := List.length_eq_zero_iff.mp (Nat.le_zero.mp hn)
    rw [Spread]
    exact iff_of_true List.nodup_nil trivial
  | succ n ih =>
    cases rs with
    | nil =>
      rw [Spread]
      exact iff_of_true List.nodup_nil trivial
    | cons r rs =>
      rw [HwmpProtocol.withoutDuplicates, List.map_cons, List.nodup_cons, Spread]
      by_cases hapart : Apart r.2 rs
      · have hlength : (others r rs).length ≤ rs.length := List.length_filter_le _ _
        rw [List.length_cons] at hn
        rw [eraseDuplicates_of_apart hapart, ih (by omega)]
        refine and_congr_left fun _ => iff_of_true ?_ hapart
        intro hmem
        obtain ⟨x, hx, heq⟩ := List.mem_map.mp hmem
        have hfilter := withoutDuplicates_subset n _ hx
        simp [others, heq] at hfilter
      · obtain ⟨x, hx, heq⟩ := exists_eraseDuplicates_of_not_apart hapart
        refine iff_of_false (fun h => h.1 ?_) fun h => hapart h.1
        rw [← heq]
        exact address_mem_withoutDuplicates n hx

theorem receives_iff (s : HwmpProtocol) (destinations : List FailedDestination) :
    (∃ receivers s', HwmpProtocol.getPerrReceivers destinations s = some (receivers, s') ∧
      Receives s.rtable s.now destinations receivers) ↔
      Spread (HwmpProtocol.failedPrecursors s.now s.rtable destinations) := by
  rw [HwmpProtocol.getPerrReceivers_eq]
  constructor
  · rintro ⟨receivers, s', heq, hreceives⟩
    cases heq
    exact (nodup_withoutDuplicates_iff _ le_rfl).mp hreceives.nodup
  · intro hspread
    refine ⟨_, _, rfl, fun receiver hmem => ?_, fun receiver hpre => ?_, ?_⟩
    · exact (mem_failedPrecursors s.rtable destinations).mp (withoutDuplicates_subset _ _ hmem)
    · exact address_mem_withoutDuplicates _ ((mem_failedPrecursors s.rtable destinations).mpr hpre)
    · exact (nodup_withoutDuplicates_iff _ le_rfl).mpr hspread

end Receivers

/-! ## Frames -/

/-- The addresses of destinations. -/
def addresses (ds : List FailedDestination) : Finset Address :=
  (ds.map FailedDestination.destination).toFinset

/-- The element is not full before the last destination. -/
def FitsElement (failed : List FailedDestination) : Prop := (addresses failed.dropLast).card < 25

/-- What the units of an element always are. -/
structure Units (units : List FailedDestination) : Prop where
  nodup : (units.map FailedDestination.destination).Nodup
  length : units.length ≤ 25

section Frames
variable {units failed : List FailedDestination} {d : FailedDestination} {frame : PerrFrame}

theorem addresses_cons : addresses (d :: failed) = insert d.destination (addresses failed) := by
  rw [addresses, List.map_cons, List.toFinset_cons, ← addresses]

theorem Units.card (h : Units units) : (addresses units).card = units.length := by
  rw [addresses, List.toFinset_card_of_nodup h.nodup, List.length_map]

theorem isFull_iff (h : Units units) : (IePerr.mk units).isFull = true ↔ units.length = 25 := by
  have hlength := h.length
  have hsize : (IePerr.mk units).getInformationFieldSize = 2 + 10 * units.length := by
    rw [IePerr.getInformationFieldSize]
    exact Nat.mod_eq_of_lt (by change 1 + 1 + (6 + 4) * units.length < 256; omega)
  rw [IePerr.isFull, decide_eq_true_iff, hsize]
  omega

theorem addAddressUnit_mem (h : d.destination ∈ addresses units) :
    (IePerr.mk units).addAddressUnit d = ⟨units⟩ := by
  obtain ⟨unit, hunit, heq⟩ := List.mem_map.mp (List.mem_toFinset.mp h)
  exact if_pos (List.any_eq_true.mpr ⟨unit, hunit, by simpa using heq⟩)

theorem addAddressUnit_new (h : d.destination ∉ addresses units) (hlength : units.length < 25) :
    (IePerr.mk units).addAddressUnit d = ⟨units ++ [d]⟩ := by
  rw [IePerr.addAddressUnit, if_neg, if_neg (by change ¬(units.length + 1) * 10 + 2 > 255; omega)]
  intro hany
  obtain ⟨unit, hunit, heq⟩ := List.any_eq_true.mp hany
  exact h (List.mem_toFinset.mpr (List.mem_map.mpr ⟨unit, hunit, by simpa using heq⟩))

/-- A destination that is added to an element which is not full is in it. -/
theorem exists_addAddressUnit (h : Units units) (hlength : units.length < 25)
    (d : FailedDestination) :
    ∃ units', (IePerr.mk units).addAddressUnit d = ⟨units'⟩ ∧ Units units' ∧
      addresses units' = insert d.destination (addresses units) ∧ units' ⊆ units ++ [d] := by
  by_cases hmem : d.destination ∈ addresses units
  · exact ⟨units, addAddressUnit_mem hmem, h, (Finset.insert_eq_of_mem hmem).symm,
      List.subset_append_left _ _⟩
  · refine ⟨units ++ [d], addAddressUnit_new hmem hlength, ⟨?_, ?_⟩, ?_, fun _ hm => hm⟩
    · rw [List.map_append, List.map_singleton, List.nodup_append]
      refine ⟨h.nodup, List.nodup_singleton _, fun a ha b hb heq => hmem ?_⟩
      rw [List.mem_singleton.mp hb] at heq
      exact List.mem_toFinset.mpr (heq ▸ ha)
    · rw [List.length_append, List.length_singleton]
      exact hlength
    · rw [addresses, List.map_append, List.toFinset_append, ← addresses, Finset.union_comm]
      rfl

/-- What the loop keeps: elements that were added stay, and units are of the destinations. -/
structure Filled (seen : List FailedDestination) (frame : PerrFrame) : Prop where
  units : Units frame.perr.addressUnits
  seen : frame.perr.addressUnits ⊆ seen

theorem le_addInformationElement (frame : PerrFrame) :
    frame.elements ≤ frame.addInformationElement.elements := by
  rw [PerrFrame.addInformationElement]
  split
  · exact le_rfl
  · exact Nat.le_succ _

theorem le_step (frame : PerrFrame) (d : FailedDestination) :
    frame.elements ≤ (frame.step d).elements := by
  rw [PerrFrame.step]
  split
  · exact le_rfl
  · exact le_addInformationElement frame

theorem le_foldl_step (frame : PerrFrame) (failed : List FailedDestination) :
    frame.elements ≤ (failed.foldl PerrFrame.step frame).elements := by
  induction failed generalizing frame with
  | nil => exact le_rfl
  | cons d rest ih => exact (le_step frame d).trans (ih _)

theorem Filled.step {seen : List FailedDestination} (h : Filled seen frame)
    (d : FailedDestination) : Filled (seen ++ [d]) (frame.step d) := by
  obtain ⟨⟨units⟩, elements⟩ := frame
  rw [PerrFrame.step]
  split
  next hfull =>
    have hlength : units.length < 25 := by
      refine lt_of_le_of_ne h.units.length fun heq => ?_
      rw [(isFull_iff h.units).mpr heq] at hfull
      cases hfull
    obtain ⟨units', heq, hunits, -, hsubset⟩ := exists_addAddressUnit h.units hlength d
    refine ⟨?_, ?_⟩
    · change Units ((IePerr.mk units).addAddressUnit d).addressUnits
      rw [heq]
      exact hunits
    · change ((IePerr.mk units).addAddressUnit d).addressUnits ⊆ _
      rw [heq]
      refine List.Subset.trans hsubset (List.append_subset.mpr ⟨?_, List.subset_append_right _ _⟩)
      exact List.Subset.trans h.seen (List.subset_append_left _ _)
  next => exact ⟨⟨List.nodup_nil, Nat.zero_le _⟩, List.nil_subset _⟩

theorem Filled.foldl {seen : List FailedDestination} (h : Filled seen frame)
    (failed : List FailedDestination) :
    Filled (seen ++ failed) (failed.foldl PerrFrame.step frame) := by
  induction failed generalizing frame seen with
  | nil => rwa [List.append_nil]
  | cons d rest ih =>
    have hrest := ih (h.step d)
    rwa [List.append_assoc, List.singleton_append] at hrest

/-- Nothing is put into the frame as long as no destination meets a full element. -/
theorem foldl_step_of_fits (h : Units units)
    (hfits : (addresses units ∪ addresses failed.dropLast).card < 25) :
    ∃ units', failed.foldl PerrFrame.step ⟨⟨units⟩, 0⟩ = ⟨⟨units'⟩, 0⟩ ∧ Units units' ∧
      addresses units' = addresses units ∪ addresses failed := by
  induction failed generalizing units with
  | nil => exact ⟨units, rfl, h, (Finset.union_empty _).symm⟩
  | cons d rest ih =>
    have hcard := h.card
    have hlength : units.length < 25 := by
      have hle : (addresses units).card ≤
          (addresses units ∪ addresses (d :: rest).dropLast).card :=
        Finset.card_le_card Finset.subset_union_left
      omega
    have hfull : (IePerr.mk units).isFull = false := by
      rw [← Bool.not_eq_true, isFull_iff h]
      omega
    obtain ⟨units', heq, hunits, haddresses, -⟩ := exists_addAddressUnit h hlength d
    have hstep : PerrFrame.step ⟨⟨units⟩, 0⟩ d = ⟨⟨units'⟩, 0⟩ := by
      rw [PerrFrame.step, if_pos hfull, heq]
    rw [List.foldl_cons, hstep]
    cases rest with
    | nil =>
      refine ⟨units', rfl, hunits, ?_⟩
      rw [haddresses, addresses_cons, Finset.union_insert]
      exact congrArg _ (Finset.union_empty _).symm
    | cons next later =>
      rw [List.dropLast_cons_cons, addresses_cons, Finset.union_insert] at hfits
      have hnext : (addresses units' ∪ addresses (next :: later).dropLast).card < 25 := by
        rw [haddresses, Finset.insert_union]
        exact hfits
      obtain ⟨units'', hfold, hunits'', haddresses''⟩ := ih hunits hnext
      refine ⟨units'', hfold, hunits'', ?_⟩
      rw [haddresses'', haddresses, Finset.insert_union, ← Finset.union_insert, ← addresses_cons]

/-- A destination that meets a full element is lost, and the element is in the frame. -/
theorem elements_pos_of_not_fits (h : Units units) (hfailed : failed ≠ [])
    (hfits : ¬(addresses units ∪ addresses failed.dropLast).card < 25) :
    0 < (failed.foldl PerrFrame.step ⟨⟨units⟩, 0⟩).elements := by
  induction failed generalizing units with
  | nil => exact absurd rfl hfailed
  | cons d rest ih =>
    by_cases hfull : (IePerr.mk units).isFull = true
    · have hlength := (isFull_iff h).mp hfull
      have hsize : (IePerr.mk units).getInformationFieldSize = 252 := by
        rw [IePerr.getInformationFieldSize, hlength]
      have hstep : (PerrFrame.step ⟨⟨units⟩, 0⟩ d).elements = 1 := by
        rw [PerrFrame.step, if_neg (by rw [hfull]; decide), PerrFrame.addInformationElement,
          PerrFrame.getSize, if_neg (by rw [hsize]; change ¬252 + 2 + 0 * (252 + 2) > 1500; decide)]
      have hle := le_foldl_step (PerrFrame.step ⟨⟨units⟩, 0⟩ d) rest
      rw [List.foldl_cons]
      omega
    · have hlength : units.length < 25 :=
        lt_of_le_of_ne h.length fun heq => hfull ((isFull_iff h).mpr heq)
      obtain ⟨units', heq, hunits, haddresses, -⟩ := exists_addAddressUnit h hlength d
      have hstep : PerrFrame.step ⟨⟨units⟩, 0⟩ d = ⟨⟨units'⟩, 0⟩ := by
        rw [PerrFrame.step, if_pos (Bool.eq_false_iff.mpr hfull), heq]
      rw [List.foldl_cons, hstep]
      cases rest with
      | nil =>
        refine absurd ?_ hfits
        rw [show ([d] : List FailedDestination).dropLast = [] from rfl,
          show addresses [] = ∅ from rfl, Finset.union_empty, h.card]
        exact hlength
      | cons next later =>
        refine ih hunits (List.cons_ne_nil _ _) ?_
        rw [List.dropLast_cons_cons, addresses_cons, Finset.union_insert] at hfits
        rw [haddresses, Finset.insert_union]
        exact hfits

theorem countP_address (h : Units units) (hmem : d.destination ∈ addresses units) :
    units.countP (·.destination = d.destination) = 1 := by
  have hcount := List.count_eq_one_of_mem h.nodup (List.mem_toFinset.mp hmem)
  rw [List.count, List.countP_map] at hcount
  exact hcount

theorem perr_addInformationElement (frame : PerrFrame) :
    frame.addInformationElement.perr = frame.perr := by
  rw [PerrFrame.addInformationElement]
  split
  · rfl
  · rfl

theorem flatMap_replicate (n : ℕ) (perr : IePerr) :
    (List.replicate n perr).flatMap IePerr.addressUnits =
      (List.replicate n perr.addressUnits).flatten := by
  rw [List.flatMap_def, List.map_replicate]

theorem filled_foldl (failed : List FailedDestination) :
    Filled failed (failed.foldl PerrFrame.step ⟨⟨[]⟩, 0⟩) := by
  have hstart : Filled [] ⟨⟨[]⟩, 0⟩ := ⟨⟨List.nodup_nil, Nat.zero_le _⟩, List.nil_subset _⟩
  have hfilled := hstart.foldl failed
  rwa [List.nil_append] at hfilled

/-- An element that was put into the frame twice is there with the same units. -/
theorem not_reports_of_elements (hfailed : failed ≠ [])
    (helements : 0 < (failed.foldl PerrFrame.step ⟨⟨[]⟩, 0⟩).elements) :
    ¬Reports failed (forwardPerr failed) := by
  intro hreports
  have hfilled := filled_foldl failed
  rw [forwardPerr] at hreports
  generalize failed.foldl PerrFrame.step ⟨⟨[]⟩, 0⟩ = frame at hreports hfilled helements
  obtain ⟨⟨units⟩, elements⟩ := frame
  obtain ⟨⟨hnodup, hlength⟩, hseen⟩ := hfilled
  change units.length ≤ 25 at hlength
  change 0 < elements at helements
  cases units with
  | nil =>
    obtain ⟨d, hd⟩ := List.exists_mem_of_ne_nil _ hfailed
    have honce := hreports.once d hd
    rw [if_neg (by change ¬0 > 0; decide), PerrFrame.sent, flatMap_replicate,
      List.flatten_replicate_nil] at honce
    cases honce
  | cons unit rest =>
    have hsize : (IePerr.mk (unit :: rest)).getInformationFieldSize = 12 + 10 * rest.length := by
      rw [IePerr.getInformationFieldSize]
      change (1 + 1 + (6 + 4) * (rest.length + 1)) % 256 = _
      rw [List.length_cons] at hlength
      omega
    have hpos : (IePerr.mk (unit :: rest)).getNumOfDest > 0 := by
      change (rest.length + 1) % 256 > 0
      rw [List.length_cons] at hlength
      omega
    have htwo : 2 ≤ (PerrFrame.mk ⟨unit :: rest⟩ elements).addInformationElement.elements := by
      by_cases hone : elements = 1
      · rw [PerrFrame.addInformationElement, PerrFrame.getSize, if_neg]
        · exact Nat.succ_le_succ helements
        · rw [hsize, hone]
          rw [List.length_cons] at hlength
          change ¬12 + 10 * rest.length + 2 + 1 * (12 + 10 * rest.length + 2) > 1500
          omega
      · have hle := le_addInformationElement (PerrFrame.mk ⟨unit :: rest⟩ elements)
        change elements ≤ _ at hle
        omega
    have honce := hreports.once unit (hseen List.mem_cons_self)
    rw [if_pos hpos, PerrFrame.sent, flatMap_replicate, perr_addInformationElement,
      List.countP_flatten, List.map_replicate, List.sum_replicate, smul_eq_mul,
      mul_eq_one] at honce
    omega

theorem reports_of_fits (h : FitsElement failed) : Reports failed (forwardPerr failed) := by
  obtain ⟨units, hfold, hunits, haddresses⟩ := foldl_step_of_fits
    (show Units [] from ⟨List.nodup_nil, Nat.zero_le _⟩)
    (show (∅ ∪ addresses failed.dropLast).card < 25 by rwa [Finset.empty_union])
  have hfilled := filled_foldl failed
  rw [hfold] at hfilled
  have hlength := hunits.length
  have hsize : (IePerr.mk units).getInformationFieldSize = 2 + 10 * units.length := by
    rw [IePerr.getInformationFieldSize]
    exact Nat.mod_eq_of_lt (by change 1 + 1 + (6 + 4) * units.length < 256; omega)
  have hadd : (PerrFrame.mk ⟨units⟩ 0).addInformationElement = ⟨⟨units⟩, 1⟩ := by
    rw [PerrFrame.addInformationElement, PerrFrame.getSize, if_neg]
    rw [hsize]
    change ¬2 + 10 * units.length + 2 + 0 * _ > 1500
    omega
  have hmem {d : FailedDestination} (hd : d ∈ failed) : d.destination ∈ addresses units := by
    rw [haddresses]
    exact Finset.mem_union_right _ (List.mem_toFinset.mpr (List.mem_map_of_mem hd))
  cases hunits' : units with
  | nil =>
    have hempty : failed = [] := by
      rw [List.eq_nil_iff_forall_not_mem]
      intro d hd
      have haddress := hmem hd
      rw [hunits'] at haddress
      exact absurd haddress (Finset.notMem_empty _)
    rw [hempty]
    exact ⟨fun d hd => absurd hd List.not_mem_nil, fun unit hunit => absurd hunit List.not_mem_nil,
      fun perr hperr => absurd hperr List.not_mem_nil⟩
  | cons unit rest =>
    have hpos : (IePerr.mk units).getNumOfDest > 0 := by
      rw [IePerr.getNumOfDest]
      change units.length % 256 > 0
      rw [hunits', List.length_cons] at hlength ⊢
      omega
    have hsent : forwardPerr failed = [⟨units⟩] := by
      rw [forwardPerr, hfold, if_pos hpos, hadd]
      rfl
    have hflat : (forwardPerr failed).flatMap IePerr.addressUnits = units := by
      rw [hsent, List.flatMap_singleton]
    refine ⟨fun d hd => ?_, fun unit hunit => ?_, fun perr hperr => ?_⟩
    · rw [hflat]
      exact countP_address hunits (hmem hd)
    · rw [hflat] at hunit
      exact hfilled.seen hunit
    · rw [hsent] at hperr
      rw [List.mem_singleton.mp hperr]
      change 2 + (1 + 1 + (6 + 4) * units.length) ≤ 255
      omega

theorem reports_iff_fitsElement (failed : List FailedDestination) :
    Reports failed (forwardPerr failed) ↔ FitsElement failed := by
  refine ⟨fun hreports => ?_, reports_of_fits⟩
  by_contra hfits
  have hne : failed ≠ [] := by
    rintro rfl
    exact hfits (by rw [FitsElement]; decide)
  refine not_reports_of_elements hne (elements_pos_of_not_fits
    (show Units [] from ⟨List.nodup_nil, Nat.zero_le _⟩) hne fun hlt => hfits ?_) hreports
  rw [show addresses [] = ∅ from rfl, Finset.empty_union] at hlt
  exact hlt

end Frames

/-- No path uses a lost peer in any case. Which receivers are found depends on their order, and
what the frame reports on how many destinations there are. -/
theorem complete_iff (s : HwmpProtocol) (peer : Address)
    (destinations failed : List FailedDestination) :
    ((∃ s', HwmpProtocol.peerLinkStatus peer false s = some ((), s') ∧ s'.rtable.Avoids peer) ∧
      (∃ receivers s', HwmpProtocol.getPerrReceivers destinations s = some (receivers, s') ∧
        Receives s.rtable s.now destinations receivers) ∧
      Reports failed (forwardPerr failed)) ↔
      Spread (HwmpProtocol.failedPrecursors s.now s.rtable destinations) ∧
        FitsElement failed := by
  rw [receives_iff, reports_iff_fitsElement]
  exact and_iff_right (HwmpProtocol.peerLinkStatus_avoids s peer)

/-- The last of twenty-six destinations is lost. -/
theorem not_complete : ¬∀ (s : HwmpProtocol) (peer : Address)
    (destinations failed : List FailedDestination),
    (∃ s', HwmpProtocol.peerLinkStatus peer false s = some ((), s') ∧ s'.rtable.Avoids peer) ∧
      (∃ receivers s', HwmpProtocol.getPerrReceivers destinations s = some (receivers, s') ∧
        Receives s.rtable s.now destinations receivers) ∧
      Reports failed (forwardPerr failed) := by
  intro hall
  have hreports := (hall (.init ⟨0, 0, [], 255, 3, by decide, 0, 0, 32⟩) 1 []
    ((List.range 26).map fun k => ⟨k, 0⟩)).2.2
  rw [reports_iff_fitsElement] at hreports
  exact absurd hreports (by rw [FitsElement]; decide +kernel)

end Ns3Noc.Hwmp
