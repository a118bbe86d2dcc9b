import Ns3Noc.Ipv6Reassembly
import Ns3Noc.PartialRuns

/-!
# Runs of IPv6 reassembly

Deliveries of the fragments of several packets, in any order and each any number of times.
-/
namespace Ns3Noc.ReassemblyRuns

open OffsetCuts Ipv6 PartialRuns

variable {ι : Type*} [DecidableEq ι] {originals : ι → Original}

/-- A fragment that is delivered. -/
structure Delivery (originals : ι → Original) where
  original : ι
  piece : Fin (originals original).pieces.length
  nextHeader : UInt8
  length : UInt8

/-- Every piece of the original is among the delivered ones. -/
def Complete (o : Original) (delivered : List ℕ) : Prop := ∀ j < o.pieces.length, j ∈ delivered

instance (o : Original) (delivered : List ℕ) : Decidable (Complete o delivered) :=
  inferInstanceAs (Decidable (∀ j < o.pieces.length, j ∈ delivered))

/-- A call of `Process`: the original of its fragment, which pieces of it had been delivered, and
the outcome. -/
structure Call (ι : Type*) where
  original : ι
  before : List ℕ
  piece : ℕ
  packet : Bytes
  isDropped : Bool

/-- The call that delivers the last missing fragment returns the original, every earlier one
drops, and nothing but the original is returned. -/
structure Call.Correct (originals : ι → Original) (call : Call ι) : Prop where
  last : Complete (originals call.original) (call.piece :: call.before) →
    ¬Complete (originals call.original) call.before →
    call.packet = (originals call.original).packet ∧ call.isDropped = false
  earlier : ¬Complete (originals call.original) (call.piece :: call.before) → call.isDropped = true
  noOther : call.isDropped = false → call.packet = (originals call.original).packet

instance (originals : ι → Original) (call : Call ι) : Decidable (call.Correct originals) :=
  decidable_of_iff
    ((Complete (originals call.original) (call.piece :: call.before) →
        ¬Complete (originals call.original) call.before →
        call.packet = (originals call.original).packet ∧ call.isDropped = false) ∧
      (¬Complete (originals call.original) (call.piece :: call.before) → call.isDropped = true) ∧
      (call.isDropped = false → call.packet = (originals call.original).packet))
    ⟨fun h => ⟨h.1, h.2.1, h.2.2⟩, fun h => ⟨h.last, h.earlier, h.noOther⟩⟩

/-- The receiver, the pieces delivered so far and the last call. -/
structure ReassemblyRun (originals : ι → Original) where
  fragments : MapFragments
  delivered : ι → List ℕ
  last : Option (Call ι)

namespace ReassemblyRun

variable {r r' : ReassemblyRun originals} {d : Delivery originals}

def start (originals : ι → Original) : ReassemblyRun originals :=
  ⟨fun _ => none, fun _ => [], none⟩

/-- The run after a call for the delivered fragment. -/
def record (r : ReassemblyRun originals) (d : Delivery originals) (processed : Processed) :
    ReassemblyRun originals where
  fragments := processed.fragments
  delivered := Function.update r.delivered d.original (d.piece :: r.delivered d.original)
  last := some ⟨d.original, r.delivered d.original, d.piece, processed.packet, processed.isDropped⟩

def step (r : ReassemblyRun originals) (d : Delivery originals) :
    Option (ReassemblyRun originals) :=
  let o := originals d.original
  (process r.fragments (o.fragment d.piece d.nextHeader d.length)
    (UInt8.ofNat o.unfragmentable.length) o.source).map (r.record d)

/-- The last call did what it should. -/
def Good (r : ReassemblyRun originals) : Prop := ∀ call ∈ r.last, call.Correct originals

instance : DecidablePred (@Good _ originals) := fun r =>
  inferInstanceAs (Decidable (∀ call ∈ r.last, call.Correct originals))

/-- This is not the last missing fragment of a packet one of whose fragments, with something in
it, has been delivered twice. -/
def NoneTwice (r : ReassemblyRun originals) (d : Delivery originals) : Prop :=
  Complete (originals d.original) (d.piece :: r.delivered d.original) →
    ¬Complete (originals d.original) (r.delivered d.original) →
    ∀ j < (originals d.original).pieces.length,
      (originals d.original).pieces.getD j [] ≠ [] → (r.delivered d.original).count j ≤ 1

instance : Decidable (r.NoneTwice d) := by
  unfold NoneTwice
  infer_instance

/-- What holds between calls. -/
structure Holds (r : ReassemblyRun originals) : Prop where
  collects : ∀ i, ∃ js, js.Perm (r.delivered i) ∧
    Collects (originals i) js ((r.fragments (originals i).fragmentsId).getD {})
  last : r.Good

omit [DecidableEq ι] in
theorem start_holds (originals : ι → Original) : (start originals).Holds :=
  ⟨fun _ => ⟨[], List.Perm.nil, collects_nil _⟩, fun _ h => absurd h (Option.not_mem_none _)⟩

/-- What a call leaves after which the original's fragments are `fr`. -/
def outcome (r : ReassemblyRun originals) (d : Delivery originals) (fr : Fragments) : Processed where
  fragments := Function.update r.fragments (originals d.original).fragmentsId (some fr)
  packet :=
    if fr.isEntire then (originals d.original).packet
    else (originals d.original).fragment d.piece d.nextHeader d.length
  nextHeader := d.nextHeader
  isDropped := !fr.isEntire

/-- Each call adds its fragment to those of its original. -/
theorem Holds.step_eq (h : r.Holds) (d : Delivery originals) :
    ∃ fr js, js.Perm (d.piece.val :: r.delivered d.original) ∧
      Collects (originals d.original) js fr ∧ r.step d = some (r.record d (r.outcome d fr)) := by
  obtain ⟨js, hjs, hcollects⟩ := h.collects d.original
  obtain ⟨fr, hfr, hprocess⟩ := process_fragment
    hcollects d.piece.isLt
  refine ⟨fr, place d.piece js, (place_perm d.piece js).trans (hjs.cons _), hfr, ?_⟩
  rw [step, hprocess, Option.map_some, outcome]

/-- The fragments of the other originals are left alone. -/
theorem Holds.collects_record (h : r.Holds)
    (hid : Function.Injective fun i => (originals i).fragmentsId) {fr : Fragments} {js : List ℕ}
    (hjs : js.Perm (d.piece.val :: r.delivered d.original))
    (hfr : Collects (originals d.original) js fr) (i : ι) :
    ∃ js, js.Perm ((r.record d (r.outcome d fr)).delivered i) ∧
      Collects (originals i) js
        (((r.record d (r.outcome d fr)).fragments (originals i).fragmentsId).getD {}) := by
  rw [record, outcome]
  dsimp only
  by_cases hi : i = d.original
  · subst hi
    rw [Function.update_self, Function.update_self, Option.getD_some]
    exact ⟨js, hjs, hfr⟩
  · rw [Function.update_of_ne hi, Function.update_of_ne fun heq => hi (hid heq)]
    exact h.collects i

/-- A packet is entire if and only if every piece has been delivered, and none with something in
it twice. -/
theorem entire_iff {o : Original} {js ds : List ℕ} {fr : Fragments} (h : Collects o js fr)
    (hperm : js.Perm ds) :
    fr.isEntire = true ↔ Complete o ds ∧
      ∀ j < o.pieces.length, o.pieces.getD j [] ≠ [] → ds.count j ≤ 1 := by
  rw [h.isEntire_iff, whole_iff_count o.fits h.sorted h.lt]
  simp only [hperm.mem_iff, hperm.count_eq, Complete]

theorem Holds.step (h : r.Holds) (hid : Function.Injective fun i => (originals i).fragmentsId)
    (hok : r.NoneTwice d) (hr : r.step d = some r') : r'.Holds := by
  obtain ⟨fr, js, hperm, hfr, hstep⟩ := h.step_eq d
  obtain rfl := Option.some.inj (hr.symm.trans hstep)
  have hentire := entire_iff hfr hperm
  refine ⟨h.collects_record hid hperm hfr, fun call hcall => ?_⟩
  rw [record, Option.mem_some_iff] at hcall
  subst hcall
  rw [outcome]
  refine ⟨fun hafter hbefore => ?_, fun hafter => ?_, fun hdropped => ?_⟩
  · have honce := hok hafter hbefore
    have hnew : d.piece.val ∉ r.delivered d.original := by
      intro hmem
      refine hbefore fun j hj => ?_
      rcases List.mem_cons.mp (hafter j hj) with rfl | hj
      · exact hmem
      · exact hj
    have hyes : fr.isEntire = true := by
      refine hentire.mpr ⟨hafter, fun j hj hne => ?_⟩
      rw [List.count_cons]
      split
      · next heq =>
        rw [beq_iff_eq] at heq
        rw [← heq, List.count_eq_zero_of_not_mem hnew]
      · exact honce j hj hne
    dsimp only
    rw [hyes, if_pos rfl]
    exact ⟨rfl, rfl⟩
  · dsimp only
    rw [Bool.not_eq_true']
    exact Bool.eq_false_iff.mpr fun hyes => hafter (hentire.mp hyes).1
  · dsimp only at hdropped ⊢
    rw [Bool.not_eq_false'] at hdropped
    rw [if_pos hdropped]

/-- A fragment that came twice keeps its packet from ever being entire. -/
theorem Holds.step_broken (h : r.Holds) (hok : ¬r.NoneTwice d) :
    ∃ r', r.step d = some r' ∧ ¬r'.Good := by
  obtain ⟨fr, js, hperm, hfr, hstep⟩ := h.step_eq d
  rw [NoneTwice] at hok
  push Not at hok
  obtain ⟨hafter, hbefore, j, hj, hne, htwice⟩ := hok
  refine ⟨_, hstep, fun hgood => ?_⟩
  have hreturned : (!fr.isEntire) = false := ((hgood _ rfl).last hafter hbefore).2
  rw [Bool.not_eq_false'] at hreturned
  have honce := ((entire_iff hfr hperm).mp hreturned).2 j hj hne
  have hle : (r.delivered d.original).count j ≤ (d.piece.val :: r.delivered d.original).count j :=
    List.count_le_count_cons
  omega

/-- The runs in which every call is correct are exactly those in which no packet gets its last
missing fragment after another one, with something in it, has come twice. -/
theorem correct_iff_noneTwice (hid : Function.Injective fun i => (originals i).fragmentsId)
    (deliveries : List (Delivery originals)) :
    Always step Good (start originals) deliveries ↔
      Allowed step NoneTwice (start originals) deliveries :=
  always_iff_allowed (fun _ h => h.last) (fun _ _ _ h hok hr => h.step hid hok hr)
    (fun _ _ h hok => h.step_broken hok) (start_holds originals) deliveries

/-- Two bytes and a third one, in two fragments. -/
def threeBytes : Original where
  source := Vector.replicate 16 1
  identification := 7
  unfragmentable := [60]
  pieces := [[1, 2], [3]]
  identification_lt := by decide
  unfragmentable_lt := by decide
  ne_nil := by decide
  proper j hj piece hpiece := by
    have hzero : j = 0 := Nat.lt_one_iff.mp (Nat.lt_of_succ_lt_succ hj)
    subst hzero
    cases hpiece
    exact List.cons_ne_nil _ _
  offset_lt := by decide
  offset_even := by decide
  piece_lt := by decide

def firstPiece : Delivery fun _ : Unit => threeBytes := ⟨(), ⟨0, by decide⟩, 17, 0⟩

def lastPiece : Delivery fun _ : Unit => threeBytes := ⟨(), ⟨1, by decide⟩, 17, 0⟩

/-- Both fragments, the last one first. -/
theorem correct_threeBytes : Always step Good (start _) [lastPiece, firstPiece] :=
  (correct_iff_noneTwice (fun _ _ _ => rfl) _).mpr (by decide +kernel)

/-- The first fragment is delivered twice, then the last one. -/
theorem duplicate_blocks : ¬Always step Good (start _) [firstPiece, firstPiece, lastPiece] := by
  decide +kernel

end ReassemblyRun

end Ns3Noc.ReassemblyRuns
