import Mathlib

/-!
# WhileLoops

Loops that go on until a turn ends them. A turn may also fail. The loop gets fuel, one unit for each
turn.
-/
namespace Ns3Noc.WhileLoops

/-- What one turn of a loop comes to. -/
inductive Turn (σ : Type*)
  | again (s : σ)
  | ends (s : σ)
  | fails

variable {σ : Type*} {turn : σ → Turn σ} {s s' r : σ}

/-- The outer `none` is a loop that needs more fuel, the inner one a loop that has failed. -/
def loop (turn : σ → Turn σ) : ℕ → σ → Option (Option σ)
  | 0, _ => none
  | fuel + 1, s =>
    match turn s with
    | .again s' => loop turn fuel s'
    | .ends s' => some (some s')
    | .fails => some none

/-- The loop ends in this state. -/
def Ends (turn : σ → Turn σ) (s r : σ) : Prop := ∃ fuel, loop turn fuel s = some (some r)

/-- The loop does not run forever: it ends or fails. -/
def Halts (turn : σ → Turn σ) (s : σ) : Prop := ∃ fuel, loop turn fuel s ≠ none

/-- The loop fails. -/
def Fails (turn : σ → Turn σ) (s : σ) : Prop := ∃ fuel, loop turn fuel s = some none

theorem loop_succ_of_again (h : turn s = .again s') (fuel : ℕ) :
    loop turn (fuel + 1) s = loop turn fuel s' := by
  rw [loop, h]

theorem Ends.here (h : turn s = .ends r) : Ends turn s r :=
  ⟨1, by rw [loop, h]⟩

theorem Ends.again (h : turn s = .again s') (hr : Ends turn s' r) : Ends turn s r := by
  obtain ⟨fuel, hfuel⟩ := hr
  exact ⟨fuel + 1, by rw [loop_succ_of_again h, hfuel]⟩

theorem Ends.next (h : turn s = .again s') (hr : Ends turn s r) : Ends turn s' r := by
  obtain ⟨fuel, hfuel⟩ := hr
  cases fuel with
  | zero => cases hfuel
  | succ fuel => exact ⟨fuel, (loop_succ_of_again h fuel).symm.trans hfuel⟩

theorem Ends.halts (h : Ends turn s r) : Halts turn s := by
  obtain ⟨fuel, hfuel⟩ := h
  exact ⟨fuel, by simp [hfuel]⟩

theorem Fails.here (h : turn s = .fails) : Fails turn s :=
  ⟨1, by rw [loop, h]⟩

theorem Fails.again (h : turn s = .again s') (hs : Fails turn s') : Fails turn s := by
  obtain ⟨fuel, hfuel⟩ := hs
  exact ⟨fuel + 1, by rw [loop_succ_of_again h, hfuel]⟩

theorem Fails.halts (h : Fails turn s) : Halts turn s := by
  obtain ⟨fuel, hfuel⟩ := h
  exact ⟨fuel, by simp [hfuel]⟩

theorem Halts.next (h : turn s = .again s') (hs : Halts turn s) : Halts turn s' := by
  obtain ⟨fuel, hfuel⟩ := hs
  cases fuel with
  | zero => exact absurd rfl hfuel
  | succ fuel => exact ⟨fuel, loop_succ_of_again h fuel ▸ hfuel⟩

theorem Halts.again (h : turn s = .again s') (hs : Halts turn s') : Halts turn s := by
  obtain ⟨fuel, hfuel⟩ := hs
  exact ⟨fuel + 1, (loop_succ_of_again h fuel).symm ▸ hfuel⟩

/-- Some turns lead from one state to the other. -/
def Leads (turn : σ → Turn σ) : σ → σ → Prop :=
  Relation.ReflTransGen fun s s' => turn s = .again s'

theorem Leads.ends (h : Leads turn s s') (hr : Ends turn s' r) : Ends turn s r := by
  induction h using Relation.ReflTransGen.head_induction_on with
  | refl => exact hr
  | head hturn _ ih => exact ih.again hturn

theorem Leads.halts_iff (h : Leads turn s s') : Halts turn s ↔ Halts turn s' := by
  induction h using Relation.ReflTransGen.head_induction_on with
  | refl => exact Iff.rfl
  | head hturn _ ih => exact ⟨fun hs => ih.mp (hs.next hturn), fun hs => (ih.mpr hs).again hturn⟩

/-- More fuel does not change the answer. -/
theorem loop_mono {fuel more : ℕ} {answer : Option σ} (h : loop turn fuel s = some answer)
    (hle : fuel ≤ more) : loop turn more s = some answer := by
  induction fuel generalizing s more with
  | zero => cases h
  | succ fuel ih =>
    obtain ⟨more, rfl⟩ : ∃ k, more = k + 1 := ⟨more - 1, by omega⟩
    rw [loop] at h ⊢
    cases hturn : turn s with
    | again s' =>
      rw [hturn] at h
      exact ih h (by omega)
    | ends s' =>
      rw [hturn] at h
      exact h
    | fails =>
      rw [hturn] at h
      exact h

theorem Ends.not_fails (h : Ends turn s r) : ¬Fails turn s := by
  rintro ⟨more, hmore⟩
  obtain ⟨fuel, hfuel⟩ := h
  have h1 := loop_mono hfuel (Nat.le_max_left fuel more)
  have h2 := loop_mono hmore (Nat.le_max_right fuel more)
  cases Option.some.inj (h1.symm.trans h2)

theorem Ends.unique (h : Ends turn s r) (h' : Ends turn s s') : r = s' := by
  obtain ⟨fuel, hfuel⟩ := h
  obtain ⟨more, hmore⟩ := h'
  have h1 := loop_mono hfuel (Nat.le_max_left fuel more)
  have h2 := loop_mono hmore (Nat.le_max_right fuel more)
  exact Option.some.inj (Option.some.inj (h1.symm.trans h2))

/-- Only the first turn depends on the state in which the loop starts. -/
theorem Ends.of_turn_eq (h : turn s = turn s') (hr : Ends turn s r) : Ends turn s' r := by
  obtain ⟨fuel, hfuel⟩ := hr
  cases fuel with
  | zero => cases hfuel
  | succ fuel =>
    refine ⟨fuel + 1, ?_⟩
    rw [loop] at hfuel ⊢
    rw [← h]
    exact hfuel

/-- The turns of a loop that ends, from the last one back to the first. -/
theorem Ends.induct {P : σ → Prop} (hend : ∀ s, turn s = .ends r → P s)
    (hagain : ∀ s s', turn s = .again s' → P s' → P s) (h : Ends turn s r) : P s := by
  obtain ⟨fuel, hfuel⟩ := h
  induction fuel generalizing s with
  | zero => cases hfuel
  | succ fuel ih =>
    rw [loop] at hfuel
    cases hturn : turn s with
    | again s' =>
      rw [hturn] at hfuel
      exact hagain s s' hturn (ih hfuel)
    | ends s' =>
      rw [hturn] at hfuel
      exact hend s (hturn.trans (congrArg Turn.ends (Option.some.inj (Option.some.inj hfuel))))
    | fails =>
      rw [hturn] at hfuel
      cases Option.some.inj hfuel

/-- A loop that keeps going on does not halt. -/
theorem not_halts_of_invariant {I : σ → Prop} (hI : ∀ s, I s → ∃ s', turn s = .again s' ∧ I s')
    (h : I s) : ¬Halts turn s := by
  rintro ⟨fuel, hfuel⟩
  apply hfuel
  clear hfuel
  induction fuel generalizing s with
  | zero => rfl
  | succ fuel ih =>
    obtain ⟨s', hturn, hs'⟩ := hI s h
    rw [loop_succ_of_again hturn, ih hs']

end Ns3Noc.WhileLoops
