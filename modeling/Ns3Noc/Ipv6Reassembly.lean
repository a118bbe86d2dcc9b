import Ns3Noc.Ipv6Headers
import Ns3Noc.OffsetCuts
import Mathlib.Logic.Function.Basic

/-!
# IPv6 reassembly

`Ipv6ExtensionFragment::Process` and the lists of fragments it keeps. Packets are rows of bytes.
-/
namespace Ns3Noc.Ipv6

open OffsetCuts

/-- `Ipv6ExtensionFragment::Fragments` -/
structure Fragments where
  moreFragment : Bool := false
  fragments : List (Bytes × ℕ) := []
  unfragmentable : Option Bytes := none
  deriving DecidableEq, Repr

namespace Fragments

/-- The fragment goes in front of the first one with a larger offset; only behind all of them
does its flag count. -/
def addFragment (self : Fragments) (fragment : Bytes) (fragmentOffset : ℕ) (moreFragment : Bool) :
    Fragments :=
  let after := self.fragments.dropWhile (·.2 ≤ fragmentOffset)
  { self with
    moreFragment := if after = [] then moreFragment else self.moreFragment
    fragments := self.fragments.takeWhile (·.2 ≤ fragmentOffset) ++
      (fragment, fragmentOffset) :: after }

def setUnfragmentablePart (self : Fragments) (unfragmentablePart : Bytes) : Fragments :=
  { self with unfragmentable := some unfragmentablePart }

/-- The end of the fragments so far is a `uint16_t`. -/
def isEntire (self : Fragments) : Bool :=
  !self.moreFragment && 0 < self.fragments.length && contiguous 65536 0 self.fragments

/-- Fails on a null pointer if no unfragmentable part has been set. -/
def getPacket (self : Fragments) : Option Bytes :=
  self.unfragmentable.map (· ++ (self.fragments.map Prod.fst).flatten)

end Fragments

/-- `m_fragments`: the fragments of each source address and identification. -/
abbrev MapFragments := Ipv6Address × ℕ → Option Fragments

/-- What a call of `Process` leaves in its reference parameters and in `m_fragments`. -/
structure Processed where
  fragments : MapFragments
  packet : Bytes
  nextHeader : UInt8
  isDropped : Bool

/-- `Ipv6ExtensionFragment::Process`. Fails where the fragment header cannot be read or a null
packet is copied. -/
def process (map : MapFragments) (packet : Bytes) (offset : UInt8) (src : Ipv6Address) :
    Option Processed := do
  let p := packet.drop offset.toNat
  let fragmentHeader ← FragmentHeader.deserialize p
  let p := p.drop 8
  let fragmentsId := (src, fragmentHeader.identification)
  let fragments := (map fragmentsId).getD {}
  let fragments :=
    if fragmentHeader.getOffset = 0 then
      fragments.setUnfragmentablePart (packet.take offset.toNat)
    else fragments
  let fragments := fragments.addFragment p fragmentHeader.getOffset fragmentHeader.getMoreFragment
  let map := Function.update map fragmentsId (some fragments)
  if fragments.isEntire then
    let entire ← fragments.getPacket
    return ⟨map, entire, fragmentHeader.nextHeader, false⟩
  else return ⟨map, packet, fragmentHeader.nextHeader, true⟩

/-! ## Original packets -/

/-- A packet as it is cut: the part in front of the fragment headers, whose length is a
`uint8_t`, and the pieces behind them. Offsets are read off the upper fifteen bits of a field of
sixteen, and what a fragment carries fits the sixteen bits of a payload length. -/
structure Original where
  source : Ipv6Address
  identification : ℕ
  unfragmentable : Bytes
  pieces : List Bytes
  identification_lt : identification < 4294967296
  unfragmentable_lt : unfragmentable.length < 256
  ne_nil : pieces ≠ []
  proper : Proper pieces
  offset_lt : ∀ j < pieces.length, OffsetCuts.offset pieces j < 65536
  offset_even : ∀ j < pieces.length, OffsetCuts.offset pieces j % 2 = 0
  piece_lt : ∀ piece ∈ pieces, piece.length < 65536

namespace Original

variable (o : Original)

def fragmentsId : Ipv6Address × ℕ := (o.source, o.identification)

/-- The unfragmentable part followed by all payloads. -/
def packet : Bytes := o.unfragmentable ++ o.pieces.flatten

def header (j : ℕ) (nextHeader length : UInt8) : FragmentHeader :=
  { nextHeader, length, identification := o.identification
    offset := OffsetCuts.offset o.pieces j + if j + 1 < o.pieces.length then 1 else 0 }

def fragment (j : ℕ) (nextHeader length : UInt8) : Bytes :=
  o.unfragmentable ++ ((o.header j nextHeader length).serialize ++ o.pieces.getD j [])

theorem fits : Fits 65536 o.pieces := ⟨o.ne_nil, o.proper, o.offset_lt, o.piece_lt⟩

variable {o} {j : ℕ} {nextHeader length : UInt8}

theorem header_getOffset (hj : j < o.pieces.length) :
    (o.header j nextHeader length).getOffset = OffsetCuts.offset o.pieces j := by
  have heven := o.offset_even j hj
  rw [FragmentHeader.getOffset, header]
  dsimp only
  split <;> omega

theorem header_getMoreFragment (hj : j < o.pieces.length) :
    (o.header j nextHeader length).getMoreFragment = decide (j + 1 < o.pieces.length) := by
  have heven := o.offset_even j hj
  rw [FragmentHeader.getMoreFragment, header]
  dsimp only
  split
  · next h => rw [decide_eq_true h, decide_eq_true (by omega)]
  · next h => rw [decide_eq_false h, decide_eq_false (by omega)]

theorem header_offset_lt (hj : j < o.pieces.length) :
    (o.header j nextHeader length).offset < 65536 := by
  have heven := o.offset_even j hj
  have hlt := o.offset_lt j hj
  rw [header]
  dsimp only
  split <;> omega

end Original

/-! ## Collected pieces -/

/-- The fragments `js` of the original have been added, in the order of their offsets. -/
structure Collects (o : Original) (js : List ℕ) (fr : Fragments) : Prop where
  sorted : js.Pairwise (· ≤ ·)
  lt : ∀ j ∈ js, j < o.pieces.length
  fragments : fr.fragments = row o.pieces js
  moreFragment : ∀ j ∈ js.getLast?, fr.moreFragment = decide (j + 1 < o.pieces.length)
  unfragmentable : 0 ∈ js → fr.unfragmentable = some o.unfragmentable

variable {o : Original} {js : List ℕ} {j : ℕ} {fr : Fragments} {map : MapFragments}
  {nextHeader length : UInt8}

theorem collects_nil (o : Original) : Collects o [] {} where
  sorted := List.Pairwise.nil
  lt _ h := absurd h List.not_mem_nil
  fragments := rfl
  moreFragment _ h := absurd h (Option.not_mem_none _)
  unfragmentable h := absurd h List.not_mem_nil

/-- The fragments found for a fragment, with the unfragmentable part of the first one. -/
def prepared (fr : Fragments) (fragmentOffset : ℕ) (unfragmentable : Bytes) : Fragments :=
  if fragmentOffset = 0 then fr.setUnfragmentablePart unfragmentable else fr

@[simp] theorem prepared_fragments (fr : Fragments) (fragmentOffset : ℕ) (unfragmentable : Bytes) :
    (prepared fr fragmentOffset unfragmentable).fragments = fr.fragments := by
  rw [prepared]
  split <;> rfl

@[simp] theorem prepared_moreFragment (fr : Fragments) (fragmentOffset : ℕ)
    (unfragmentable : Bytes) :
    (prepared fr fragmentOffset unfragmentable).moreFragment = fr.moreFragment := by
  rw [prepared]
  split <;> rfl

/-- The fragments of the original after piece `j` has been added. -/
def added (o : Original) (fr : Fragments) (j : ℕ) : Fragments :=
  (prepared fr (OffsetCuts.offset o.pieces j) o.unfragmentable).addFragment (o.pieces.getD j [])
    (OffsetCuts.offset o.pieces j) (decide (j + 1 < o.pieces.length))

theorem added_fragments (o : Original) (fr : Fragments) (j : ℕ) :
    (added o fr j).fragments =
      fr.fragments.takeWhile (·.2 ≤ OffsetCuts.offset o.pieces j) ++
        (o.pieces.getD j [], OffsetCuts.offset o.pieces j) ::
          fr.fragments.dropWhile (·.2 ≤ OffsetCuts.offset o.pieces j) := by
  rw [added, Fragments.addFragment, prepared_fragments]

theorem added_moreFragment (o : Original) (fr : Fragments) (j : ℕ) :
    (added o fr j).moreFragment =
      if fr.fragments.dropWhile (·.2 ≤ OffsetCuts.offset o.pieces j) = [] then
        decide (j + 1 < o.pieces.length)
      else fr.moreFragment := by
  rw [added, Fragments.addFragment, prepared_fragments, prepared_moreFragment]

theorem added_unfragmentable (o : Original) (fr : Fragments) (j : ℕ) :
    (added o fr j).unfragmentable =
      if OffsetCuts.offset o.pieces j = 0 then some o.unfragmentable else fr.unfragmentable := by
  rw [added, Fragments.addFragment, prepared]
  split <;> rfl

theorem Collects.added (h : Collects o js fr) (hj : j < o.pieces.length) :
    Collects o (place j js) (added o fr j) := by
  have hmem : ∀ i, i ∈ place j js ↔ i = j ∨ i ∈ js := by
    intro i
    rw [(place_perm j js).mem_iff, List.mem_cons]
  refine ⟨place_sorted j h.sorted, fun i hi => ?_, ?_, fun last hlast => ?_, fun hzero => ?_⟩
  · rcases (hmem i).mp hi with rfl | hi
    · exact hj
    · exact h.lt i hi
  · rw [added_fragments, h.fragments, row_place o.proper h.lt]
  · have hdrop : row o.pieces (js.dropWhile (· ≤ j)) = [] ↔ js.dropWhile (· ≤ j) = [] := by
      rw [row, List.map_eq_nil_iff]
    rw [added_moreFragment, h.fragments, dropWhile_row o.proper h.lt]
    rw [getLast?_place] at hlast
    by_cases hnil : js.dropWhile (· ≤ j) = []
    · rw [if_pos hnil, Option.mem_some_iff] at hlast
      rw [if_pos (hdrop.mpr hnil), hlast]
    · rw [if_neg hnil] at hlast
      rw [if_neg (fun hrow => hnil (hdrop.mp hrow)), h.moreFragment last hlast]
  · rw [added_unfragmentable]
    rcases (hmem 0).mp hzero with rfl | hzero
    · rw [if_pos (OffsetCuts.offset_zero _)]
    · rw [h.unfragmentable hzero, ite_self]

theorem Collects.isEntire_iff (h : Collects o js fr) :
    fr.isEntire = true ↔ Whole o.pieces js := by
  have hpos := o.fits.length_pos
  rw [whole_iff_contiguous o.fits h.sorted h.lt, Fragments.isEntire, h.fragments, Bool.and_eq_true,
    Bool.and_eq_true, Bool.not_eq_true', decide_eq_true_eq, row, List.length_map]
  refine and_congr ?_ Iff.rfl
  cases hlast : js.getLast? with
  | none =>
    rw [List.getLast?_eq_none_iff.mp hlast]
    simp
  | some last =>
    have hlen : 0 < js.length := List.length_pos_of_mem (List.mem_of_getLast? hlast)
    have hlt := h.lt last (List.mem_of_getLast? hlast)
    rw [h.moreFragment last hlast, decide_eq_false_iff_not, Option.some_inj]
    omega

theorem Collects.getPacket (h : Collects o js fr) (hwhole : Whole o.pieces js) :
    fr.getPacket = some o.packet := by
  have hall := ((whole_iff_count o.fits h.sorted h.lt).mp hwhole).1
  rw [Fragments.getPacket, h.unfragmentable (hall 0 o.fits.length_pos), h.fragments, Option.map_some,
    hwhole.flatten, Original.packet]

/-- What a call does that is given a fragment of the original. -/
theorem process_fragment (h : Collects o js ((map o.fragmentsId).getD {}))
    (hj : j < o.pieces.length) :
    ∃ fr, Collects o (place j js) fr ∧
      process map (o.fragment j nextHeader length) (UInt8.ofNat o.unfragmentable.length) o.source =
        some ⟨Function.update map o.fragmentsId (some fr),
          if fr.isEntire then o.packet else o.fragment j nextHeader length,
          nextHeader, !fr.isEntire⟩ := by
  have hfr := h.added hj
  refine ⟨_, hfr, ?_⟩
  have hlen : (UInt8.ofNat o.unfragmentable.length).toNat = o.unfragmentable.length :=
    UInt8.toNat_ofNat_of_lt' o.unfragmentable_lt
  have hdrop : (o.fragment j nextHeader length).drop o.unfragmentable.length =
      (o.header j nextHeader length).serialize ++ o.pieces.getD j [] := List.drop_left
  have htake : (o.fragment j nextHeader length).take o.unfragmentable.length = o.unfragmentable :=
    List.take_left
  have hpiece : ((o.header j nextHeader length).serialize ++ o.pieces.getD j []).drop 8 =
      o.pieces.getD j [] := List.drop_left' (FragmentHeader.length_serialize _)
  rw [process, hlen, hdrop, htake, hpiece, FragmentHeader.deserialize_serialize
    (Original.header_offset_lt hj) o.identification_lt, Option.bind_eq_bind, Option.bind_some,
    Original.header_getOffset hj, Original.header_getMoreFragment hj]
  change (if (added o ((map o.fragmentsId).getD {}) j).isEntire = true then _ else _) = _
  cases hentire : (added o ((map o.fragmentsId).getD {}) j).isEntire with
  | false => rfl
  | true =>
    have hpacket := hfr.getPacket (hfr.isEntire_iff.mp hentire)
    rw [if_pos rfl, if_pos rfl]
    change Option.bind (added o ((map o.fragmentsId).getD {}) j).getPacket _ = _
    rw [hpacket]
    rfl

end Ns3Noc.Ipv6
