import Mathlib.Algebra.Order.Group.Defs
import Mathlib.Data.List.Basic

/-!
# Logs of states

A log entry says that a state lasted for some time. A log tiles time when its entries follow one
another without a gap, each in the state that the logged system had.
-/
namespace Ns3Noc.StateLogs

variable {α σ : Type*}

structure Entry (α σ : Type*) where
  start : α
  duration : α
  state : σ
  deriving DecidableEq, Repr

section Tiles

variable [AddCommGroup α] [LinearOrder α]

def Entry.stop (e : Entry α σ) : α := e.start + e.duration

/-- The instants of an entry, its end excluded. -/
def Entry.Lasts (e : Entry α σ) (t : α) : Prop := e.start ≤ t ∧ t < e.stop

/-- A log of non-negative intervals that never overlap, and that cover the time from 0 to the latest
end with the state at each instant. -/
structure TilesTime (atTime : α → σ) (log : List (Entry α σ)) : Prop where
  nonneg : ∀ e ∈ log, 0 ≤ e.start ∧ 0 ≤ e.duration
  disjoint : log.Pairwise fun e e' => ∀ t, ¬(e.Lasts t ∧ e'.Lasts t)
  covers : ∀ e ∈ log, ∀ t, 0 ≤ t → t < e.stop → ∃ e' ∈ log, e'.Lasts t ∧ e'.state = atTime t

/-- The entries lead from one time to another, each in the state `atTime`. -/
def Tiles (atTime : α → σ) (a : α) : List (Entry α σ) → α → Prop
  | [], b => a = b
  | e :: log, b =>
    e.start = a ∧ 0 ≤ e.duration ∧ (∀ t, e.Lasts t → atTime t = e.state) ∧ Tiles atTime e.stop log b

variable {atTime atTime' : α → σ} {a b : α} {e : Entry α σ} {log : List (Entry α σ)}

theorem Tiles.concat (h : Tiles atTime a log b) (hstart : e.start = b) (hduration : 0 ≤ e.duration)
    (hstate : ∀ t, e.Lasts t → atTime t = e.state) : Tiles atTime a (log ++ [e]) e.stop := by
  induction log generalizing a with
  | nil =>
    have hab : a = b := h
    exact ⟨hstart.trans hab.symm, hduration, hstate, rfl⟩
  | cons first log ih => exact ⟨h.1, h.2.1, h.2.2.1, ih h.2.2.2⟩

theorem Tiles.nonneg (h : Tiles atTime a log b) (he : e ∈ log) : 0 ≤ e.duration := by
  induction log generalizing a with
  | nil => exact absurd he List.not_mem_nil
  | cons first log ih =>
    rcases List.mem_cons.mp he with rfl | he
    · exact h.2.1
    · exact ih h.2.2.2 he

theorem Tiles.exists_lasts (h : Tiles atTime a log b) {t : α} (hat : a ≤ t) (htb : t < b) :
    ∃ e ∈ log, e.Lasts t ∧ e.state = atTime t := by
  induction log generalizing a with
  | nil =>
    have hab : a = b := h
    exact absurd (hat.trans_lt htb) (by rw [hab]; exact lt_irrefl b)
  | cons first log ih =>
    obtain ⟨rfl, -, hstate, hrest⟩ := h
    by_cases ht : t < first.stop
    · exact ⟨first, List.mem_cons_self, ⟨hat, ht⟩, (hstate t ⟨hat, ht⟩).symm⟩
    · obtain ⟨e, he, hlasts, hestate⟩ := ih hrest (le_of_not_gt ht)
      exact ⟨e, List.mem_cons_of_mem first he, hlasts, hestate⟩

variable [IsOrderedAddMonoid α]

theorem Entry.start_le_stop (h : 0 ≤ e.duration) : e.start ≤ e.stop :=
  le_add_of_nonneg_right h

theorem Tiles.le (h : Tiles atTime a log b) : a ≤ b := by
  induction log generalizing a with
  | nil => exact le_of_eq h
  | cons first log ih =>
    obtain ⟨rfl, hduration, -, hrest⟩ := h
    exact (Entry.start_le_stop hduration).trans (ih hrest)

theorem Tiles.within (h : Tiles atTime a log b) (he : e ∈ log) : a ≤ e.start ∧ e.stop ≤ b := by
  induction log generalizing a with
  | nil => exact absurd he List.not_mem_nil
  | cons first log ih =>
    obtain ⟨rfl, hduration, -, hrest⟩ := h
    rcases List.mem_cons.mp he with rfl | he
    · exact ⟨le_rfl, hrest.le⟩
    · have hwithin := ih hrest he
      exact ⟨(Entry.start_le_stop hduration).trans hwithin.1, hwithin.2⟩

/-- A log only tells of the time before its end. -/
theorem Tiles.congr (h : Tiles atTime a log b) (hat : ∀ t, t < b → atTime' t = atTime t) :
    Tiles atTime' a log b := by
  induction log generalizing a with
  | nil => exact h
  | cons first log ih =>
    obtain ⟨hstart, hduration, hstate, hrest⟩ := h
    refine ⟨hstart, hduration, fun t ht => ?_, ih hrest⟩
    rw [hat t (ht.2.trans_le hrest.le), hstate t ht]

theorem Tiles.pairwise (h : Tiles atTime a log b) :
    log.Pairwise fun e e' => ∀ t, ¬(e.Lasts t ∧ e'.Lasts t) := by
  induction log generalizing a with
  | nil => exact List.Pairwise.nil
  | cons first log ih =>
    refine List.Pairwise.cons (fun e he t ht => ?_) (ih h.2.2.2)
    exact absurd (ht.1.2.trans_le (h.2.2.2.within he).1) (not_lt_of_ge ht.2.1)

theorem Tiles.tilesTime (h : Tiles atTime 0 log b) : TilesTime atTime log where
  nonneg _ he := ⟨(h.within he).1, h.nonneg he⟩
  disjoint := h.pairwise
  covers _ he _ ht hte := h.exists_lasts ht (hte.trans_le (h.within he).2)

end Tiles

end Ns3Noc.StateLogs
