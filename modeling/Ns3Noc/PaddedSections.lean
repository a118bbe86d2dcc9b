import Mathlib
import Ns3Noc.ByteSlices

/-!
# PaddedSections

Sections written one behind the other, each in a room of its own that it need not fill, and streams
of frames with filling before a frame so that it starts at a multiple of some number.
-/
namespace Ns3Noc.PaddedSections
open ByteSlices

structure Padded (α : Type*) where
  values : List α
  room : ℕ
  fits : values.length ≤ room

variable {α : Type*} {f g : ℕ → α} {a k : ℕ} {x : Padded α} {l : List (Padded α)}

def total (l : List (Padded α)) : ℕ := (l.map Padded.room).sum

@[simp] theorem total_nil : total ([] : List (Padded α)) = 0 := rfl

@[simp] theorem total_cons (x : Padded α) (l : List (Padded α)) :
    total (x :: l) = x.room + total l := rfl

/-- The memory with the sections written from address `a` on. -/
def lay (f : ℕ → α) (a : ℕ) : List (Padded α) → ℕ → α
  | [] => f
  | x :: l => lay (overwrite f a x.values) (a + x.room) l

/-- An address that is written. The others are padding, or outside. -/
def Written (a : ℕ) : List (Padded α) → ℕ → Prop
  | [], _ => False
  | x :: l, k => a ≤ k ∧ k < a + x.values.length ∨ Written (a + x.room) l k

theorem lay_of_lt (h : k < a) : lay f a l k = f k := by
  induction l generalizing f a with
  | nil => rfl
  | cons x l ih => rw [lay, ih (Nat.lt_add_right _ h), overwrite_of_lt h]

theorem Written.bounds (h : Written a l k) : a ≤ k ∧ k < a + total l := by
  induction l generalizing a with
  | nil => exact h.elim
  | cons x l ih =>
    have hfits := x.fits
    rw [total_cons]
    cases h with
    | inl h => omega
    | inr h =>
      obtain ⟨h1, h2⟩ := ih h
      omega

theorem lay_of_not_written (h : ¬Written a l k) : lay f a l k = f k := by
  induction l generalizing f a with
  | nil => rfl
  | cons x l ih =>
    obtain ⟨hx, hl⟩ := not_or.mp h
    rw [lay, ih hl]
    by_cases ha : a ≤ k
    · exact overwrite_of_ge (by omega)
    · exact overwrite_of_lt (by omega)

theorem lay_of_ge (h : a + total l ≤ k) : lay f a l k = f k :=
  lay_of_not_written fun hk => (hk.bounds.2.trans_le h).false

/-- What is written does not depend on what was there before. -/
theorem lay_of_written (h : Written a l k) : lay f a l k = lay g a l k := by
  induction l generalizing f g a with
  | nil => exact h.elim
  | cons x l ih =>
    rw [lay, lay]
    by_cases hl : Written (a + x.room) l k
    · exact ih hl
    · obtain ⟨h1, h2⟩ := h.resolve_right hl
      have hlt : k - a < x.values.length := by omega
      rw [lay_of_not_written hl, lay_of_not_written hl, overwrite, overwrite, if_pos h1, if_pos h1,
        List.getElem?_eq_getElem hlt, Option.getD_some, Option.getD_some]

theorem lay_congr (h : f k = g k) : lay f a l k = lay g a l k := by
  by_cases hk : Written a l k
  · exact lay_of_written hk
  · rw [lay_of_not_written hk, lay_of_not_written hk, h]

theorem total_append (l l' : List (Padded α)) : total (l ++ l') = total l + total l' := by
  rw [total, List.map_append, List.sum_append]
  rfl

theorem lay_append (f : ℕ → α) (a : ℕ) (l l' : List (Padded α)) :
    lay f a (l ++ l') = lay (lay f a l) (a + total l) l' := by
  induction l generalizing f a with
  | nil => rfl
  | cons x l ih =>
    rw [List.cons_append, lay, ih, lay, total_cons, Nat.add_assoc]

/-- Sections that are written through a pointer. -/
theorem lay_shift (f : ℕ → α) (p a : ℕ) (l : List (Padded α)) :
    lay (fun j => f (p + j)) a l = fun j => lay f (p + a) l (p + j) := by
  induction l generalizing f a with
  | nil => rfl
  | cons x l ih =>
    have hover : overwrite (fun j => f (p + j)) a x.values =
        fun j => overwrite f (p + a) x.values (p + j) := by
      funext j
      simp only [overwrite, Nat.add_le_add_iff_left, Nat.add_sub_add_left]
    rw [lay, lay, hover, ih, Nat.add_assoc]

/-- A section is read back where it was written. -/
theorem slice_lay (f : ℕ → α) (a : ℕ) (x : Padded α) (l : List (Padded α)) :
    slice (lay f a (x :: l)) a x.values.length = x.values := by
  have hfits := x.fits
  refine Eq.trans (slice_congr fun k hk => ?_) (slice_overwrite_self f a x.values)
  rw [lay, lay_of_lt (by omega)]

end Ns3Noc.PaddedSections

namespace Ns3Noc.AlignedStreams

variable {α : Type*} {k m n : ℕ} {z : α}

/-- How much is missing to the next multiple. -/
def padding (k n : ℕ) : ℕ := (k - n % k) % k

@[simp] theorem padding_zero (k : ℕ) : padding k 0 = 0 := by
  simp [padding]

theorem dvd_add_padding (hk : 0 < k) (n : ℕ) : k ∣ n + padding k n := by
  have hlt := Nat.mod_lt n hk
  have hsum : n % k + (k - n % k) = k := Nat.add_sub_cancel' hlt.le
  apply Nat.dvd_of_mod_eq_zero
  rw [padding, Nat.add_mod, Nat.mod_mod, ← Nat.add_mod, Nat.add_mod, Nat.add_mod_mod, hsum,
    Nat.mod_self]

theorem padding_add_of_dvd (h : k ∣ m) : padding k (m + n) = padding k n := by
  rw [padding, padding, Nat.add_mod, Nat.mod_eq_zero_of_dvd h, Nat.zero_add, Nat.mod_mod]

/-- The frames with the filling between them. -/
def stream (k : ℕ) (z : α) : List (List α) → List α
  | [] => []
  | [frame] => frame
  | frame :: next :: rest =>
    frame ++ List.replicate (padding k frame.length) z ++ stream k z (next :: rest)

/-- How long the stream is. -/
def streamLength (k : ℕ) : List ℕ → ℕ
  | [] => 0
  | [size] => size
  | size :: next :: rest => size + padding k size + streamLength k (next :: rest)

theorem length_stream (k : ℕ) (z : α) (frames : List (List α)) :
    (stream k z frames).length = streamLength k (frames.map List.length) := by
  induction frames with
  | nil => rfl
  | cons frame rest ih =>
    cases rest with
    | nil => rfl
    | cons next rest =>
      rw [stream, List.length_append, List.length_append, List.length_replicate, ih]
      rfl

/-- A frame is added after the filling that the length so far asks for. -/
theorem stream_concat (hk : 0 < k) (z : α) (frames : List (List α)) (frame : List α) :
    stream k z (frames ++ [frame]) =
      stream k z frames ++ List.replicate (padding k (stream k z frames).length) z ++ frame := by
  induction frames with
  | nil => simp [stream]
  | cons first rest ih =>
    cases rest with
    | nil => simp [stream]
    | cons next rest =>
      have hpadding : padding k (stream k z (first :: next :: rest)).length =
          padding k (stream k z (next :: rest)).length := by
        rw [stream, List.length_append, List.length_append, List.length_replicate]
        exact padding_add_of_dvd (dvd_add_padding hk first.length)
      rw [hpadding, List.cons_append, List.cons_append, stream, ← List.cons_append, ih, stream]
      simp only [List.append_assoc]

theorem length_stream_concat (hk : 0 < k) (z : α) (frames : List (List α)) (frame : List α) :
    (stream k z (frames ++ [frame])).length =
      (stream k z frames).length + padding k (stream k z frames).length + frame.length := by
  rw [stream_concat hk, List.length_append, List.length_append, List.length_replicate]

end Ns3Noc.AlignedStreams
