import Ns3Noc.BigEndian
import Ns3Noc.WhileLoops
import Mathlib

/-!
# Ipv6Options

The walk over the options of an IPv6 extension header. The size of an option and the size of what has
been processed are kept in eight bits. A read beyond the end of the packet fails.
-/
namespace Ns3Noc.Ipv6Options
open BigEndian WhileLoops

abbrev Bytes : Type := List UInt8

section Options
variable (packet : Bytes) (offset : UInt8)

/-- `Ipv6OptionPad1::Process` -/
def pad1Process : Option UInt8 := do
  let _ ← readNumber 1 (packet.drop offset.toNat)
  return 1

/-- The `Process` of an option with a length field, which is followed by a field of so many bytes. -/
def processLength (field : ℕ) : Option UInt8 := do
  let (_, i) ← readNumber 1 (packet.drop offset.toNat)
  let (length, i) ← readNumber 1 i
  let _ ← readNumber field i
  return UInt8.ofNat (length + 2)

/-- `Ipv6OptionPadn::Process` -/
def padnProcess : Option UInt8 := processLength packet offset 0

/-- `Ipv6OptionJumbogram::Process` -/
def jumbogramProcess : Option UInt8 := processLength packet offset 2

/-- `Ipv6OptionRouterAlert::Process` -/
def routerAlertProcess : Option UInt8 := processLength packet offset 2

end Options

/-- `Ipv6OptionDemux::GetOption` with the options that `RegisterOptions` inserts. -/
def getOption (optionNumber : UInt8) : Option (Bytes → UInt8 → Option UInt8) :=
  if optionNumber = 0 then some pad1Process
  else if optionNumber = 60 then some padnProcess
  else if optionNumber = 44 then some jumbogramProcess
  else if optionNumber = 43 then some routerAlertProcess
  else none

/-- The variables of the loop, and the pointers of the ICMPv6 parameter errors and the number of
drops that it has reported. -/
structure OptionsState where
  processedSize : UInt8
  isDropped : Bool
  sendErrors : List ℕ
  dropTraces : ℕ
  deriving DecidableEq

/-- What `ProcessOptions` gets. -/
structure OptionsInput where
  packet : Bytes
  offset : UInt8
  length : UInt8
  multicast : Bool
  deriving DecidableEq

namespace OptionsInput
variable (x : OptionsInput)

/-- The copy of the packet from the offset on. -/
def data : Bytes := x.packet.drop x.offset.toNat

/-- An option that is dropped, with or without an error to the source. -/
def dropOption (s : OptionsState) (sendError : Bool) : OptionsState :=
  { s with
    isDropped := true
    sendErrors := s.sendErrors ++
      if sendError then [x.offset.toNat + s.processedSize.toNat] else []
    dropTraces := s.dropTraces + 1 }

/-- One turn of the loop of `ProcessOptions`. -/
def turn (s : OptionsState) : Turn OptionsState :=
  if x.length > s.processedSize ∧ !s.isDropped then
    match x.data[s.processedSize.toNat]? with
    | none => .fails
    | some optionType =>
      match getOption optionType with
      | none =>
        if optionType >>> 6 = 0 then
          match x.data[s.processedSize.toNat + 1]? with
          | none => .fails
          | some length =>
            .again { s with processedSize := s.processedSize + UInt8.ofNat (length.toNat + 2) }
        else if optionType >>> 6 = 1 then .again (x.dropOption s false)
        else if optionType >>> 6 = 2 then .again (x.dropOption s true)
        else .again (x.dropOption s (!x.multicast))
      | some process =>
        match process x.packet (UInt8.ofNat (x.offset.toNat + s.processedSize.toNat)) with
        | none => .fails
        | some optionLength =>
          .again { s with isDropped := false, processedSize := s.processedSize + optionLength }
  else .ends s

def start (isDropped : Bool) : OptionsState := ⟨0, isDropped, [], 0⟩

/-- What is found at a position, in exact arithmetic. -/
inductive Found
  | incomplete
  | unknown
  | takes (size : ℕ)
  deriving DecidableEq

/-- The number of bytes that are read from an option with a length field. -/
def headerBytes (optionType : UInt8) : ℕ :=
  if optionType = 44 ∨ optionType = 43 then 4 else 2

def found (position : ℕ) : Found :=
  match x.data[position]? with
  | none => .incomplete
  | some optionType =>
    if optionType = 0 then .takes 1
    else if 64 ≤ optionType.toNat then .unknown
    else if x.data.length < position + headerBytes optionType then .incomplete
    else .takes ((x.data.getD (position + 1) 0).toNat + 2)

/-- The positions of the options, in exact arithmetic. -/
inductive Met : ℕ → Prop
  | start : Met 0
  | next {position size : ℕ} (hmet : Met position) (hlt : position < x.length.toNat)
      (hfound : x.found position = .takes size) : Met (position + size)

/-- The walk in exact arithmetic stays within eight bits. The packet does not end within an option, or
ends before the declared length. -/
structure WithinBytes : Prop where
  size : ∀ position size, x.Met position → position < x.length.toNat →
    x.found position = .takes size → position + size < 256
  offset : ∀ position, x.Met position → position < x.length.toNat →
    x.data[position]? ∈ [some 60, some 44, some 43] → x.offset.toNat + position < 256
  complete : ∀ position, x.Met position → position < x.length.toNat →
    x.found position = .incomplete → x.data.length < x.length.toNat

section Turns
variable {x : OptionsInput}

theorem processLength_eq (packet : Bytes) (offset : UInt8) (field : ℕ) :
    processLength packet offset field =
      if (packet.drop offset.toNat).length < 2 + field then none
      else some (UInt8.ofNat (((packet.drop offset.toNat).getD 1 0).toNat + 2)) := by
  rw [processLength]
  rcases packet.drop offset.toNat with _ | ⟨t, _ | ⟨l, rest⟩⟩
  · simp [readNumber]
  · rw [if_pos (by simp only [List.length_cons, List.length_nil]; omega)]
    simp [readNumber]
  · by_cases h : field ≤ rest.length
    · rw [if_neg (by simp only [List.length_cons]; omega)]
      simp [readNumber, ofBytes, ofBytesFrom, h]
    · rw [if_pos (by simp only [List.length_cons]; omega)]
      simp [readNumber, h]

theorem getOption_of_ge {t : UInt8} (h : 64 ≤ t.toNat) : getOption t = none := by
  have hne (n : UInt8) (hn : n.toNat < 64) : t ≠ n := fun heq => by
    rw [heq] at h
    omega
  rw [getOption, if_neg (hne 0 (by decide)), if_neg (hne 60 (by decide)), if_neg (hne 44 (by decide)),
    if_neg (hne 43 (by decide))]

theorem shift_eq_zero_iff (t : UInt8) : t >>> 6 = 0 ↔ t.toNat < 64 := by
  rw [← UInt8.toNat_inj, UInt8.toNat_shiftRight]
  change t.toNat >>> 6 = 0 ↔ t.toNat < 64
  rw [Nat.shiftRight_eq_div_pow]
  omega

/-- The process function of an option with a length field reads it where it has been found. -/
theorem process_of_length {t : UInt8} (ht : t = 60 ∨ t = 44 ∨ t = 43) {position : ℕ}
    (hoffset : x.offset.toNat + position < 256) :
    ∃ process, getOption t = some process ∧
      process x.packet (UInt8.ofNat (x.offset.toNat + position)) =
        if x.data.length < position + headerBytes t then none
        else some (UInt8.ofNat ((x.data.getD (position + 1) 0).toNat + 2)) := by
  have hdrop : x.packet.drop (UInt8.ofNat (x.offset.toNat + position)).toNat = x.data.drop position := by
    rw [UInt8.toNat_ofNat', Nat.mod_eq_of_lt hoffset, data, List.drop_drop]
  have hget : (x.data.drop position).getD 1 0 = x.data.getD (position + 1) 0 := by
    simp [List.getD_eq_getElem?_getD]
  have hprocess (field : ℕ) : processLength x.packet (UInt8.ofNat (x.offset.toNat + position)) field =
      if x.data.length < position + (2 + field) then none
      else some (UInt8.ofNat ((x.data.getD (position + 1) 0).toNat + 2)) := by
    rw [processLength_eq, hdrop, hget, List.length_drop]
    exact if_congr (by omega) rfl rfl
  rcases ht with rfl | rfl | rfl
  · exact ⟨padnProcess, rfl, hprocess 0⟩
  · exact ⟨jumbogramProcess, rfl, hprocess 2⟩
  · exact ⟨routerAlertProcess, rfl, hprocess 2⟩

/-- What a turn does with the option that it finds. -/
theorem turn_found {s : OptionsState} (hlt : x.length > s.processedSize)
    (hdropped : s.isDropped = false)
    (hoffset : x.data[s.processedSize.toNat]? ∈ [some 60, some 44, some 43] →
      x.offset.toNat + s.processedSize.toNat < 256) :
    match x.found s.processedSize.toNat with
    | .incomplete => x.turn s = .fails
    | .unknown => ∃ s', x.turn s = .again s' ∧ s'.isDropped = true
    | .takes size =>
      x.turn s = .again { s with processedSize := s.processedSize + UInt8.ofNat size } := by
  have hcond : x.length > s.processedSize ∧ !s.isDropped := ⟨hlt, by rw [hdropped]; rfl⟩
  rw [found, turn, if_pos hcond]
  cases hdata : x.data[s.processedSize.toNat]? with
  | none => rfl
  | some t =>
    have hps : s.processedSize.toNat < x.data.length := (List.getElem?_eq_some_iff.mp hdata).1
    have hsame (n : UInt8) : { s with isDropped := false, processedSize := n } =
        { s with processedSize := n } := by
      rw [← hdropped]
    rw [hdata] at hoffset
    dsimp only
    by_cases hpad : t = 0
    · have hprocess : pad1Process x.packet (UInt8.ofNat (x.offset.toNat + s.processedSize.toNat)) =
          some 1 := by
        have hle : 1 ≤ (x.packet.drop
            (UInt8.ofNat (x.offset.toNat + s.processedSize.toNat)).toNat).length := by
          rw [data, List.length_drop] at hps
          rw [List.length_drop, UInt8.toNat_ofNat']
          omega
        rw [pad1Process, readNumber, if_pos hle]
        rfl
      rw [if_pos hpad, hpad]
      change (match pad1Process x.packet _ with | none => _ | some _ => _) = _
      rw [hprocess]
      exact congrArg Turn.again (hsame _)
    · rw [if_neg hpad]
      by_cases hge : 64 ≤ t.toNat
      · have hshift : t >>> 6 ≠ 0 := fun h => by
          have := (shift_eq_zero_iff t).mp h
          omega
        rw [if_pos hge, getOption_of_ge hge]
        dsimp only
        rw [if_neg hshift]
        split_ifs
        · exact ⟨_, rfl, rfl⟩
        · exact ⟨_, rfl, rfl⟩
        · exact ⟨_, rfl, rfl⟩
      · rw [if_neg hge]
        by_cases hlength : t = 60 ∨ t = 44 ∨ t = 43
        · obtain ⟨process, hget, hprocess⟩ := process_of_length hlength
            (hoffset (by rcases hlength with rfl | rfl | rfl <;> simp))
          rw [hget]
          dsimp only
          rw [hprocess]
          split_ifs
          · rfl
          · exact congrArg Turn.again (hsame _)
        · have hnone : getOption t = none := by
            rw [getOption, if_neg hpad, if_neg (fun h => hlength (Or.inl h)),
              if_neg (fun h => hlength (Or.inr (Or.inl h))),
              if_neg (fun h => hlength (Or.inr (Or.inr h)))]
          have hbytes : headerBytes t = 2 := if_neg fun h => hlength (Or.inr h)
          rw [hnone, hbytes]
          dsimp only
          rw [if_pos ((shift_eq_zero_iff t).mpr (by omega))]
          cases hnext : x.data[s.processedSize.toNat + 1]? with
          | none =>
            rw [if_pos (by rw [List.getElem?_eq_none_iff] at hnext; omega)]
          | some l =>
            have hlt' := (List.getElem?_eq_some_iff.mp hnext).1
            rw [if_neg (by omega), List.getD_eq_getElem?_getD, hnext]
            rfl

end Turns

section Runs
variable {x : OptionsInput}

theorem found_pos {position size : ℕ} (h : x.found position = .takes size) : 0 < size := by
  rw [found] at h
  split at h
  · cases h
  · split_ifs at h
    · obtain rfl := Found.takes.inj h
      norm_num
    · obtain rfl := Found.takes.inj h
      omega

theorem turn_ends {s r : OptionsState} (h : x.turn s = .ends r) :
    r.isDropped = true ∨ x.length ≤ r.processedSize := by
  rw [turn] at h
  split_ifs at h with hcond
  · split at h
    · cases h
    · split at h
      · split_ifs at h
        split at h <;> cases h
      · split at h <;> cases h
  · obtain rfl := Turn.ends.inj h
    rw [not_and_or] at hcond
    rcases hcond with hcond | hcond
    · exact Or.inr (UInt8.not_lt.mp hcond)
    · exact Or.inl (by simpa using hcond)

/-- A loop that ends has dropped the packet or processed the declared length. -/
theorem ends_exit {s r : OptionsState} (h : Ends x.turn s r) :
    r.isDropped = true ∨ x.length ≤ r.processedSize := by
  revert h
  apply Ends.induct
  · intro s h
    exact turn_ends h
  · intro s s' h ih
    exact ih

/-- The walk from a position that is met in exact arithmetic. -/
theorem walk_outcome (hwithin : x.WithinBytes) {s : OptionsState} (hdropped : s.isDropped = false)
    (hmet : x.Met s.processedSize.toNat) :
    (∃ r, Ends x.turn s r) ∨ (Fails x.turn s ∧ x.data.length < x.length.toNat) := by
  induction hn : x.length.toNat - s.processedSize.toNat using Nat.strong_induction_on generalizing s with
  | _ n ih =>
    by_cases hlt : x.length > s.processedSize
    · have hlt' : s.processedSize.toNat < x.length.toNat := UInt8.lt_iff_toNat_lt.mp hlt
      have hturn := turn_found hlt hdropped (hwithin.offset _ hmet hlt')
      cases hfound : x.found s.processedSize.toNat with
      | incomplete =>
        rw [hfound] at hturn
        exact Or.inr ⟨Fails.here hturn, hwithin.complete _ hmet hlt' hfound⟩
      | unknown =>
        rw [hfound] at hturn
        obtain ⟨s', hturn, hs'⟩ := hturn
        refine Or.inl ⟨s', Ends.again hturn (Ends.here ?_)⟩
        rw [turn, if_neg (by rw [hs']; simp)]
      | takes size =>
        rw [hfound] at hturn
        have hpos := found_pos hfound
        have hsize := hwithin.size _ _ hmet hlt' hfound
        have hnext : (s.processedSize + UInt8.ofNat size).toNat = s.processedSize.toNat + size := by
          rw [UInt8.toNat_add, UInt8.toNat_ofNat']
          omega
        have hmet' : x.Met (s.processedSize + UInt8.ofNat size).toNat := by
          rw [hnext]
          exact hmet.next hlt' hfound
        have hless : x.length.toNat - (s.processedSize + UInt8.ofNat size).toNat < n := by
          omega
        rcases ih _ hless (s := { s with processedSize := s.processedSize + UInt8.ofNat size })
          hdropped hmet' rfl with ⟨r, hr⟩ | ⟨hfails, hshort⟩
        · exact Or.inl ⟨r, hr.again hturn⟩
        · exact Or.inr ⟨hfails.again hturn, hshort⟩
    · refine Or.inl ⟨s, Ends.here ?_⟩
      rw [turn, if_neg fun h => hlt h.1]

/-- A loop that halts comes past every position that is met in eight bits. -/
theorem halts_of_met (hoffset : x.offset.toNat + x.length.toNat ≤ 256)
    (hhalts : Halts x.turn (start false)) {position : ℕ} (hmet : x.Met position)
    (hlt : position < 256) : Halts x.turn ⟨UInt8.ofNat position, false, [], 0⟩ := by
  induction hmet with
  | start => exact hhalts
  | @next position size hmet hlength hfound ih =>
    have hnat : (UInt8.ofNat position).toNat = position := by
      rw [UInt8.toNat_ofNat']
      omega
    have hturn := turn_found (s := ⟨UInt8.ofNat position, false, [], 0⟩)
      (UInt8.lt_iff_toNat_lt.mpr (hnat.symm ▸ hlength)) rfl (fun _ => by rw [hnat]; omega)
    rw [hnat, hfound] at hturn
    rw [UInt8.ofNat_add]
    exact (ih (by omega)).next hturn

/-- An option whose length byte is 254 keeps the loop going forever, wherever it is met. -/
theorem not_halts_of_full_turn (hoffset : x.offset.toNat + x.length.toNat ≤ 256) {position : ℕ}
    (hmet : x.Met position) (hlength : position < x.length.toNat)
    (hfound : x.found position = .takes 256) : ¬Halts x.turn (start false) := by
  intro hhalts
  have hlt : position < 256 := by
    have := x.length.toNat_lt
    omega
  have hnat : (UInt8.ofNat position).toNat = position := by
    rw [UInt8.toNat_ofNat']
    omega
  have hturn := turn_found (s := ⟨UInt8.ofNat position, false, [], 0⟩)
    (UInt8.lt_iff_toNat_lt.mpr (hnat.symm ▸ hlength)) rfl (fun _ => by rw [hnat]; omega)
  rw [hnat, hfound] at hturn
  have hzero : UInt8.ofNat position + UInt8.ofNat 256 = UInt8.ofNat position := by
    rw [← UInt8.toNat_inj, UInt8.toNat_add, UInt8.toNat_ofNat', UInt8.toNat_ofNat']
    omega
  dsimp only at hturn
  rw [hzero] at hturn
  apply not_halts_of_invariant (I := (· = ⟨UInt8.ofNat position, false, [], 0⟩)) _ rfl
    (halts_of_met hoffset hhalts hmet hlt)
  rintro _ rfl
  exact ⟨_, hturn, rfl⟩

end Runs

end OptionsInput

end Ns3Noc.Ipv6Options
