import Mathlib.Data.List.Basic

/-!
# Separated events

Events of a history, newest first, of which any two of one kind have one of another kind between
them.
-/
namespace Ns3Noc.SeparatedEvents

variable {α : Type*} {P Q : α → Prop} {a : α} {history : List α}

/-- Between any two events in `P` lies one in `Q`. -/
def Separated (P Q : α → Prop) (history : List α) : Prop :=
  ∀ after later between earlier before,
    history = after ++ later :: (between ++ earlier :: before) → P later → P earlier →
      ∃ a ∈ between, Q a

/-- There is an event in `P` that no event in `Q` has followed. -/
def Open (P Q : α → Prop) (history : List α) : Prop :=
  ∃ between a before, history = between ++ a :: before ∧ P a ∧ ∀ b ∈ between, ¬Q b

theorem not_open_nil : ¬Open P Q [] := by
  rintro ⟨between, a, before, h, -⟩
  exact absurd (congrArg List.length h) (by simp)

theorem open_cons : Open P Q (a :: history) ↔ P a ∨ ¬Q a ∧ Open P Q history := by
  constructor
  · rintro ⟨between, b, before, h, hb, hbetween⟩
    cases between with
    | nil =>
      obtain ⟨rfl, -⟩ := List.cons.inj h
      exact .inl hb
    | cons c between =>
      obtain ⟨rfl, rfl⟩ := List.cons.inj h
      exact .inr ⟨hbetween a List.mem_cons_self, between, b, before, rfl, hb,
        fun d hd => hbetween d (List.mem_cons_of_mem a hd)⟩
  · rintro (ha | ⟨ha, between, b, before, rfl, hb, hbetween⟩)
    · exact ⟨[], a, history, rfl, ha, fun b hb => absurd hb List.not_mem_nil⟩
    · refine ⟨a :: between, b, before, rfl, hb, fun c hc => ?_⟩
      rcases List.mem_cons.mp hc with rfl | hc
      · exact ha
      · exact hbetween c hc

theorem separated_nil : Separated P Q [] := by
  intro after later between earlier before h
  exact absurd (congrArg List.length h) (by simp)

/-- An event in `P` is added to a history that is not open. -/
theorem Separated.cons (h : Separated P Q history) (ha : P a → ¬Open P Q history) :
    Separated P Q (a :: history) := by
  intro after later between earlier before heq hlater hearlier
  cases after with
  | nil =>
    obtain ⟨rfl, rfl⟩ := List.cons.inj heq
    by_contra hbetween
    exact ha hlater ⟨between, earlier, before, rfl, hearlier,
      fun b hb hQ => hbetween ⟨b, hb, hQ⟩⟩
  | cons b after =>
    obtain ⟨-, rfl⟩ := List.cons.inj heq
    exact h after later between earlier before rfl hlater hearlier

end Ns3Noc.SeparatedEvents
