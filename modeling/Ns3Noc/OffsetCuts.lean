import Mathlib.Data.List.Basic
import Mathlib.Data.List.Range
import Mathlib.Data.List.Sort
import Mathlib.Order.Nat

/-!
# Cuts of a list

A list cut into pieces, and where each piece starts. A row of pieces with their offsets is
contiguous if each starts where the one before it ends.
-/
namespace Ns3Noc.OffsetCuts

variable {α : Type*} (pieces : List (List α)) {i j k : ℕ}

/-- Where piece `j` starts, and where the last one ends. -/
def offset (j : ℕ) : ℕ := (pieces.take j).flatten.length

@[simp] theorem offset_zero : offset pieces 0 = 0 := rfl

variable {pieces}

theorem offset_succ (hj : j < pieces.length) :
    offset pieces (j + 1) = offset pieces j + (pieces[j]).length := by
  rw [offset, offset, List.take_succ_eq_append_getElem hj, List.flatten_append, List.length_append,
    List.flatten_singleton]

theorem offset_length (h : pieces.length ≤ j) : offset pieces j = pieces.flatten.length := by
  rw [offset, List.take_of_length_le h]

theorem offset_mono (h : i ≤ j) : offset pieces i ≤ offset pieces j := by
  obtain ⟨k, rfl⟩ := Nat.exists_eq_add_of_le h
  rw [offset, offset, List.take_add, List.flatten_append, List.length_append]
  exact Nat.le_add_right _ _

/-- No piece but the last one is empty. -/
def Proper (pieces : List (List α)) : Prop :=
  ∀ j, j + 1 < pieces.length → ∀ piece ∈ pieces[j]?, piece ≠ []

theorem Proper.offset_lt (h : Proper pieces) (hij : i < j) (hj : j < pieces.length) :
    offset pieces i < offset pieces j := by
  have hi : i < pieces.length := hij.trans hj
  have hne : pieces[i] ≠ [] :=
    h i (Nat.lt_of_le_of_lt hij hj) pieces[i] (List.getElem?_eq_getElem hi)
  have hpos := List.length_pos_iff.mpr hne
  have hsucc := offset_succ hi
  have hmono : offset pieces (i + 1) ≤ offset pieces j := offset_mono hij
  omega

theorem Proper.offset_lt_iff (h : Proper pieces) (hj : j < pieces.length) :
    offset pieces i < offset pieces j ↔ i < j := by
  refine ⟨fun hlt => ?_, fun hlt => h.offset_lt hlt hj⟩
  by_contra hge
  exact absurd hlt (Nat.not_lt.mpr (offset_mono (Nat.not_lt.mp hge)))

theorem Proper.offset_inj (h : Proper pieces) (hi : i < pieces.length) (hj : j < pieces.length)
    (heq : offset pieces i = offset pieces j) : i = j := by
  rcases Nat.lt_trichotomy i j with hlt | rfl | hgt
  · exact absurd heq (h.offset_lt hlt hj).ne
  · rfl
  · exact absurd heq (h.offset_lt hgt hi).ne'

/-! ## Rows of pieces -/

/-- The pieces `js` beside their offsets, in this order. -/
def row (pieces : List (List α)) (js : List ℕ) : List (List α × ℕ) :=
  js.map fun j => (pieces.getD j [], offset pieces j)

/-- Each piece starts where the one before it ends, with offsets counted modulo `w`. -/
def contiguous (w : ℕ) : ℕ → List (List α × ℕ) → Bool
  | _, [] => true
  | start, (piece, o) :: rest => start == o && contiguous w ((start + piece.length) % w) rest

/-- All pieces in order, and copies of the last one behind them if it is empty. -/
def Whole (pieces : List (List α)) (js : List ℕ) : Prop :=
  ∃ k, js = List.range pieces.length ++ List.replicate k (pieces.length - 1) ∧
    (0 < k → pieces.getD (pieces.length - 1) [] = [])

/-- The offsets of the pieces and their lengths are below `w`. -/
structure Fits (w : ℕ) (pieces : List (List α)) : Prop where
  ne_nil : pieces ≠ []
  proper : Proper pieces
  offset_lt : ∀ j < pieces.length, offset pieces j < w
  piece_lt : ∀ piece ∈ pieces, piece.length < w

variable {w m c : ℕ} {js : List ℕ}

@[simp] theorem row_nil : row pieces [] = [] := rfl

@[simp] theorem row_cons : row pieces (j :: js) =
    (pieces.getD j [], offset pieces j) :: row pieces js := rfl

theorem getD_of_lt (hj : j < pieces.length) : pieces.getD j [] = pieces[j] := by
  rw [List.getD_eq_getElem?_getD, List.getElem?_eq_getElem hj, Option.getD_some]

theorem offset_add_length (hj : j < pieces.length) :
    offset pieces j + (pieces.getD j []).length = offset pieces (j + 1) := by
  rw [getD_of_lt hj, offset_succ hj]

theorem Fits.length_pos (h : Fits w pieces) : 0 < pieces.length := List.length_pos_iff.mpr h.ne_nil

theorem Fits.getD_ne_nil (h : Fits w pieces) (hj : j + 1 < pieces.length) :
    pieces.getD j [] ≠ [] := by
  have hlt : j < pieces.length := Nat.lt_of_succ_lt hj
  rw [getD_of_lt hlt]
  exact h.proper j hj _ (List.getElem?_eq_getElem hlt)

/-- A row that goes on with the pieces in order is contiguous if what follows them is. -/
theorem contiguous_range' (js : List ℕ) (h : Fits w pieces) (hc : m + c ≤ pieces.length) :
    contiguous w (offset pieces m % w) (row pieces (List.range' m c ++ js)) =
      contiguous w (offset pieces (m + c) % w) (row pieces js) := by
  induction c generalizing m with
  | zero => rfl
  | succ c ih =>
    have hm : m < pieces.length := by omega
    have hmod : offset pieces m % w = offset pieces m := Nat.mod_eq_of_lt (h.offset_lt m hm)
    have hnext := ih (m := m + 1) (by omega)
    rw [List.range'_succ, List.cons_append, row_cons, contiguous, Nat.mod_add_mod,
      offset_add_length hm, hnext, hmod, beq_self_eq_true, Bool.true_and]
    congr 3
    omega

/-- Behind the last piece only an empty last piece follows. -/
theorem last_empty_of_contiguous (h : Fits w pieces)
    (hcont : contiguous w (offset pieces pieces.length % w) (row pieces (j :: js)) = true)
    (hj : j = pieces.length - 1) : pieces.getD (pieces.length - 1) [] = [] := by
  have hpos := h.length_pos
  have hlt : j < pieces.length := by omega
  have hsucc : j + 1 = pieces.length := by omega
  rw [row_cons, contiguous, Bool.and_eq_true, beq_iff_eq, ← hsucc, ← offset_add_length hlt]
    at hcont
  have hw := h.offset_lt j hlt
  have hpiece : (pieces.getD j []).length < w := by
    rw [getD_of_lt hlt]
    exact h.piece_lt _ (List.getElem_mem hlt)
  rw [← hj, ← List.length_eq_zero_iff]
  rcases Nat.lt_or_ge (offset pieces j + (pieces.getD j []).length) w with hsmall | hbig
  · rw [Nat.mod_eq_of_lt hsmall] at hcont
    omega
  · rw [Nat.mod_eq_sub_mod hbig, Nat.mod_eq_of_lt (by omega)] at hcont
    omega

theorem contiguous_replicate (h : Fits w pieces) (k : ℕ)
    (hempty : 0 < k → pieces.getD (pieces.length - 1) [] = []) :
    contiguous w (offset pieces pieces.length % w)
      (row pieces (List.replicate k (pieces.length - 1))) = true := by
  induction k with
  | zero => rfl
  | succ k ih =>
    have hlast := hempty (Nat.succ_pos k)
    have hpos := h.length_pos
    have hlt : pieces.length - 1 < pieces.length := by omega
    have hoff := offset_add_length hlt
    rw [hlast, List.length_nil, Nat.add_zero, Nat.sub_add_cancel hpos] at hoff
    have hmod := Nat.mod_eq_of_lt (h.offset_lt _ hlt)
    have hrest := ih fun _ => hlast
    rw [List.replicate_succ, row_cons, contiguous, hlast, List.length_nil, Nat.add_zero, ← hoff,
      hmod, hmod, beq_self_eq_true, Bool.true_and]
    rw [← hoff, hmod] at hrest
    exact hrest

/-- A contiguous row of sorted pieces has the pieces in order, and behind the last one only
copies of it. -/
theorem exists_range'_of_contiguous (h : Fits w pieces) (hm : m ≤ pieces.length)
    (hsorted : js.Pairwise (· ≤ ·)) (hlt : ∀ j ∈ js, j < pieces.length) (hge : ∀ j ∈ js, m ≤ j + 1)
    (hcont : contiguous w (offset pieces m % w) (row pieces js) = true) :
    ∃ c k, js = List.range' m c ++ List.replicate k (pieces.length - 1) ∧ m + c ≤ pieces.length ∧
      (0 < k → m + c = pieces.length ∧ pieces.getD (pieces.length - 1) [] = []) := by
  induction js generalizing m with
  | nil => exact ⟨0, 0, rfl, hm, fun hk => absurd hk (Nat.lt_irrefl 0)⟩
  | cons j js ih =>
    have hj : j < pieces.length := hlt j List.mem_cons_self
    rcases Nat.eq_or_lt_of_le hm with rfl | hmlt
    · have hall : ∀ i ∈ j :: js, i = pieces.length - 1 := by
        intro i hi
        have hi₁ := hlt i hi
        have hi₂ := hge i hi
        omega
      have hlast := last_empty_of_contiguous h hcont (hall j List.mem_cons_self)
      exact ⟨0, (j :: js).length, List.eq_replicate_of_mem hall, hm, fun _ => ⟨rfl, hlast⟩⟩
    · have hmod : offset pieces m % w = offset pieces m := Nat.mod_eq_of_lt (h.offset_lt m hmlt)
      rw [row_cons, contiguous, Bool.and_eq_true, beq_iff_eq, hmod] at hcont
      obtain rfl := h.proper.offset_inj hmlt hj hcont.1
      obtain ⟨hle, hsorted⟩ := List.pairwise_cons.mp hsorted
      have hrest := hcont.2
      rw [offset_add_length hj] at hrest
      obtain ⟨c, k, rfl, hc, hk⟩ := ih hj hsorted (fun i hi => hlt i (List.mem_cons_of_mem _ hi))
        (fun i hi => Nat.succ_le_succ (hle i hi)) hrest
      refine ⟨c + 1, k, ?_, by omega, fun hpos => ?_⟩
      · rw [List.range'_succ, List.cons_append]
      · have hend := (hk hpos).1
        exact ⟨by omega, (hk hpos).2⟩

/-- A sorted row that ends with the last piece is contiguous if and only if it is whole. -/
theorem whole_iff_contiguous (h : Fits w pieces) (hsorted : js.Pairwise (· ≤ ·))
    (hlt : ∀ j ∈ js, j < pieces.length) :
    Whole pieces js ↔
      js.getLast? = some (pieces.length - 1) ∧ contiguous w 0 (row pieces js) = true := by
  have hpos := h.length_pos
  constructor
  · rintro ⟨k, rfl, hk⟩
    constructor
    · cases k with
      | zero =>
        rw [List.replicate_zero, List.append_nil, List.getLast?_range, if_neg hpos.ne']
      | succ k => rw [List.getLast?_append, List.getLast?_replicate, if_neg (Nat.succ_ne_zero k),
          Option.some_or]
    · have hrange := contiguous_range' (List.replicate k (pieces.length - 1)) (m := 0) h
        (Nat.zero_add _).le
      rw [Nat.zero_add, offset_zero, Nat.zero_mod, ← List.range_eq_range'] at hrange
      rw [hrange]
      exact contiguous_replicate h k hk
  · rintro ⟨hlast, hcont⟩
    obtain ⟨c, k, rfl, hc, hk⟩ := exists_range'_of_contiguous (m := 0) h (Nat.zero_le _) hsorted hlt
      (fun j _ => Nat.zero_le _) (by rwa [offset_zero, Nat.zero_mod])
    rw [Nat.zero_add] at hc hk
    have hall : c = pieces.length := by
      cases k with
      | zero =>
        rw [List.replicate_zero, List.append_nil, ← List.range_eq_range', List.getLast?_range]
          at hlast
        split at hlast
        · cases hlast
        · have hc₁ := Option.some.inj hlast
          omega
      | succ k => exact (hk (Nat.succ_pos k)).1
    subst hall
    exact ⟨k, by rw [List.range_eq_range'], fun hpos => (hk hpos).2⟩

/-- A sorted row is whole if and only if it has every piece, and none with something in it
twice. -/
theorem whole_iff_count (h : Fits w pieces) (hsorted : js.Pairwise (· ≤ ·))
    (hlt : ∀ j ∈ js, j < pieces.length) :
    Whole pieces js ↔ (∀ j < pieces.length, j ∈ js) ∧
      ∀ j < pieces.length, pieces.getD j [] ≠ [] → js.count j ≤ 1 := by
  have hpos := h.length_pos
  constructor
  · rintro ⟨k, rfl, hk⟩
    refine ⟨fun j hj => List.mem_append_left _ (List.mem_range.mpr hj), fun j _ hne => ?_⟩
    have hrange := List.nodup_iff_count_le_one.mp (List.nodup_range (n := pieces.length)) j
    rw [List.count_append, List.count_replicate]
    split
    · next heq =>
      rw [beq_iff_eq] at heq
      subst heq
      have hk₀ : k = 0 := by
        by_contra hk₁
        exact hne (hk (Nat.pos_of_ne_zero hk₁))
      omega
    · exact hrange
  · rintro ⟨hall, honce⟩
    have hlast := hall (pieces.length - 1) (by omega)
    refine ⟨js.count (pieces.length - 1) - 1, ?_, fun hk => ?_⟩
    · refine List.Perm.eq_of_pairwise (fun a b _ _ => Nat.le_antisymm) hsorted ?_ ?_
      · rw [List.pairwise_append]
        refine ⟨List.pairwise_le_range, List.pairwise_replicate.mpr (.inr le_rfl), ?_⟩
        intro a ha b hb
        rw [List.eq_of_mem_replicate hb]
        have := List.mem_range.mp ha
        omega
      · rw [List.perm_iff_count]
        intro j
        rw [List.count_append, List.count_replicate,
          List.nodup_range.count (a := j)]
        simp only [List.mem_range, beq_iff_eq]
        by_cases hj : j < pieces.length
        · have hcount := List.count_pos_iff.mpr (hall j hj)
          rw [if_pos hj]
          split
          · next heq =>
            subst heq
            omega
          · next hne =>
            have hle := honce j hj (h.getD_ne_nil (by omega))
            omega
        · have hnot : j ∉ js := fun hmem => hj (hlt j hmem)
          rw [if_neg hj, List.count_eq_zero_of_not_mem hnot, if_neg (by omega)]
    · by_contra hne
      have := honce _ (by omega) hne
      omega

theorem Whole.flatten (h : Whole pieces js) :
    ((row pieces js).map Prod.fst).flatten = pieces.flatten := by
  obtain ⟨k, rfl, hk⟩ := h
  have hrange : (List.range pieces.length).map (pieces.getD · []) = pieces := by
    apply List.ext_getElem
    · rw [List.length_map, List.length_range]
    · intro j hj₁ hj₂
      rw [List.getElem_map, List.getElem_range, getD_of_lt hj₂]
  have hcopies : ((List.replicate k (pieces.length - 1)).map (pieces.getD · [])).flatten = [] := by
    rw [List.flatten_eq_nil_iff]
    intro piece hpiece
    rw [List.map_replicate, List.mem_replicate] at hpiece
    rw [hpiece.2]
    exact hk (Nat.pos_of_ne_zero hpiece.1)
  rw [row, List.map_map, List.map_append, List.flatten_append]
  show ((List.range pieces.length).map (pieces.getD · [])).flatten ++
    ((List.replicate k (pieces.length - 1)).map (pieces.getD · [])).flatten = _
  rw [hrange, hcopies, List.append_nil]

/-! ## Placing a piece -/

/-- `j` before the first larger piece. -/
def place (j : ℕ) (js : List ℕ) : List ℕ := js.takeWhile (· ≤ j) ++ j :: js.dropWhile (· ≤ j)

theorem place_perm (j : ℕ) (js : List ℕ) : (place j js).Perm (j :: js) := by
  have hmiddle := @List.perm_middle _ j (js.takeWhile (· ≤ j)) (js.dropWhile (· ≤ j))
  rwa [List.takeWhile_append_dropWhile] at hmiddle

theorem place_sorted (j : ℕ) (hsorted : js.Pairwise (· ≤ ·)) : (place j js).Pairwise (· ≤ ·) := by
  induction js with
  | nil => exact List.pairwise_singleton _ _
  | cons i js ih =>
    obtain ⟨hle, hsorted⟩ := List.pairwise_cons.mp hsorted
    by_cases hi : i ≤ j
    · have hplace : place j (i :: js) = i :: place j js := by
        rw [place, List.takeWhile_cons_of_pos (by simpa using hi),
          List.dropWhile_cons_of_pos (by simpa using hi), List.cons_append, place]
      rw [hplace, List.pairwise_cons]
      refine ⟨fun k hk => ?_, ih hsorted⟩
      rcases List.mem_cons.mp ((place_perm j js).mem_iff.mp hk) with rfl | hk
      · exact hi
      · exact hle k hk
    · have hplace : place j (i :: js) = j :: i :: js := by
        rw [place, List.takeWhile_cons_of_neg (by simpa using hi),
          List.dropWhile_cons_of_neg (by simpa using hi), List.nil_append]
      have hlt := Nat.not_le.mp hi
      rw [hplace, List.pairwise_cons]
      refine ⟨fun k hk => ?_, List.pairwise_cons.mpr ⟨hle, hsorted⟩⟩
      rcases List.mem_cons.mp hk with rfl | hk
      · exact hlt.le
      · exact hlt.le.trans (hle k hk)

theorem getLast?_place (j : ℕ) (js : List ℕ) :
    (place j js).getLast? = if js.dropWhile (· ≤ j) = [] then some j else js.getLast? := by
  have hsplit : js.takeWhile (· ≤ j) ++ js.dropWhile (· ≤ j) = js := List.takeWhile_append_dropWhile
  rw [place, List.getLast?_append, List.getLast?_cons]
  split
  · next hnil =>
    rw [hnil]
    rfl
  · next hne =>
    have hlast := List.getLast?_eq_some_getLast hne
    conv_rhs => rw [← hsplit, List.getLast?_append, hlast]
    rw [hlast]
    rfl

theorem Proper.offset_le_iff (h : Proper pieces) (hi : i < pieces.length) :
    offset pieces i ≤ offset pieces j ↔ i ≤ j := by
  rw [← Nat.not_lt, h.offset_lt_iff hi, Nat.not_lt]

theorem takeWhile_row (h : Proper pieces) (hlt : ∀ i ∈ js, i < pieces.length) :
    (row pieces js).takeWhile (·.2 ≤ offset pieces j) = row pieces (js.takeWhile (· ≤ j)) := by
  induction js with
  | nil => rfl
  | cons i js ih =>
    have hrest := ih fun k hk => hlt k (List.mem_cons_of_mem _ hk)
    have hi : decide (offset pieces i ≤ offset pieces j) = decide (i ≤ j) :=
      decide_eq_decide.mpr (h.offset_le_iff (hlt i List.mem_cons_self))
    rw [row_cons, List.takeWhile_cons, List.takeWhile_cons, hrest, hi]
    split <;> rfl

theorem dropWhile_row (h : Proper pieces) (hlt : ∀ i ∈ js, i < pieces.length) :
    (row pieces js).dropWhile (·.2 ≤ offset pieces j) = row pieces (js.dropWhile (· ≤ j)) := by
  induction js with
  | nil => rfl
  | cons i js ih =>
    have hrest := ih fun k hk => hlt k (List.mem_cons_of_mem _ hk)
    have hi : decide (offset pieces i ≤ offset pieces j) = decide (i ≤ j) :=
      decide_eq_decide.mpr (h.offset_le_iff (hlt i List.mem_cons_self))
    rw [row_cons, List.dropWhile_cons, List.dropWhile_cons, hrest, hi]
    split <;> rfl

/-- Offsets tell the same place as the pieces. -/
theorem row_place (h : Proper pieces) (hlt : ∀ i ∈ js, i < pieces.length) :
    row pieces (place j js) =
      (row pieces js).takeWhile (·.2 ≤ offset pieces j) ++
        (pieces.getD j [], offset pieces j) ::
          (row pieces js).dropWhile (·.2 ≤ offset pieces j) := by
  rw [takeWhile_row h hlt, dropWhile_row h hlt, place, row, List.map_append, List.map_cons]
  rfl

end Ns3Noc.OffsetCuts
