import Mathlib

/-!
# Runs of a partial step function

A step function returns `none` where the modelled program stops on a failed
assertion. A run executes a list of labels from left to right, and a walk repeats
an unlabelled step. The invariant rules below are the only inductions over runs.

An action changes a state and gives a value, or fails. A triple says what holds after an action that
does not fail; its rules follow the structure of an action.
-/
namespace Ns3Noc.PartialRuns

variable {σ ι : Type*}

/-- The state after all labels, if no step fails. -/
def run (step : σ → ι → Option σ) : σ → List ι → Option σ
  | s, [] => some s
  | s, l :: ls => (step s l).bind (fun s' => run step s' ls)

@[simp] theorem run_nil (step : σ → ι → Option σ) (s : σ) : run step s [] = some s := rfl

theorem run_cons (step : σ → ι → Option σ) (s : σ) (l : ι) (ls : List ι) :
    run step s (l :: ls) = (step s l).bind (fun s' => run step s' ls) := rfl

theorem run_append (step : σ → ι → Option σ) (s : σ) (ls ls' : List ι) :
    run step s (ls ++ ls') = (run step s ls).bind (fun s' => run step s' ls') := by
  induction ls generalizing s with
  | nil => rfl
  | cons l ls ih =>
    cases h : step s l with
    | none => simp [run_cons, h]
    | some s' => simp [run_cons, h, ih]

/-- Every step of the run is taken from a state in which `ok` allows its label. -/
def Allowed (step : σ → ι → Option σ) (ok : σ → ι → Prop) : σ → List ι → Prop
  | _, [] => True
  | s, l :: ls => ok s l ∧ ∀ s', step s l = some s' → Allowed step ok s' ls

instance Allowed.decidable (step : σ → ι → Option σ) (ok : σ → ι → Prop)
    [∀ s l, Decidable (ok s l)] (s : σ) (ls : List ι) : Decidable (Allowed step ok s ls) :=
  match ls with
  | [] => .isTrue True.intro
  | l :: ls =>
    match h : step s l with
    | none => decidable_of_iff (ok s l) (by simp [Allowed, h])
    | some s' =>
      have := Allowed.decidable step ok s' ls
      decidable_of_iff (ok s l ∧ Allowed step ok s' ls) (by simp [Allowed, h])

theorem Allowed.trivial (step : σ → ι → Option σ) (s : σ) (ls : List ι) :
    Allowed step (fun _ _ => True) s ls := by
  induction ls generalizing s with
  | nil => exact True.intro
  | cons l ls ih => exact ⟨True.intro, fun s' _ => ih s'⟩

/-- Both parts of an allowed run are allowed. -/
theorem Allowed.of_append {step : σ → ι → Option σ} {ok : σ → ι → Prop} {s : σ}
    {ls ls' : List ι} (h : Allowed step ok s (ls ++ ls')) :
    Allowed step ok s ls ∧ ∀ s', run step s ls = some s' → Allowed step ok s' ls' := by
  induction ls generalizing s with
  | nil => exact ⟨True.intro, fun s' hs' => Option.some.inj hs' ▸ h⟩
  | cons l ls ih =>
    refine ⟨⟨h.1, fun s' hs' => (ih (h.2 s' hs')).1⟩, fun s' hr => ?_⟩
    obtain ⟨t, ht, hr⟩ := Option.bind_eq_some_iff.mp hr
    exact (ih (h.2 t ht)).2 s' hr

theorem Allowed.append {step : σ → ι → Option σ} {ok : σ → ι → Prop} {s : σ} {ls ls' : List ι}
    (h : Allowed step ok s ls) (h' : ∀ s', run step s ls = some s' → Allowed step ok s' ls') :
    Allowed step ok s (ls ++ ls') := by
  induction ls generalizing s with
  | nil => exact h' s rfl
  | cons l ls ih =>
    refine ⟨h.1, fun t ht => ih (h.2 t ht) fun s' hr => h' s' ?_⟩
    rw [run_cons, ht]
    exact hr

/-- A property kept by every allowed step holds at the end of every allowed run. -/
theorem invariant_of_allowed {step : σ → ι → Option σ} {ok : σ → ι → Prop} {Inv : σ → Prop}
    (hstep : ∀ s l s', Inv s → ok s l → step s l = some s' → Inv s') {s : σ} (hs : Inv s)
    {ls : List ι} (hls : Allowed step ok s ls) {s' : σ} (hr : run step s ls = some s') :
    Inv s' := by
  induction ls generalizing s with
  | nil => exact Option.some.inj hr ▸ hs
  | cons l ls ih =>
    obtain ⟨t, ht, hr⟩ := Option.bind_eq_some_iff.mp hr
    exact ih (hstep s l t hs hls.1 ht) (hls.2 t ht) hr

/-- Where every allowed step succeeds and keeps the invariant, so does every allowed run, and
what comes after it is allowed from the state it ends in. -/
theorem run_of_allowed {step : σ → ι → Option σ} {ok : σ → ι → Prop} {Inv : σ → Prop}
    (hstep : ∀ s l, Inv s → ok s l → ∃ s', step s l = some s' ∧ Inv s') {s : σ} (hs : Inv s)
    {ls ls' : List ι} (h : Allowed step ok s (ls ++ ls')) :
    ∃ s', run step s ls = some s' ∧ Inv s' ∧ Allowed step ok s' ls' := by
  induction ls generalizing s with
  | nil => exact ⟨s, rfl, hs, h⟩
  | cons l ls ih =>
    obtain ⟨t, ht, hit⟩ := hstep s l hs h.1
    obtain ⟨s', hr, hi, hrest⟩ := ih hit (h.2 t ht)
    exact ⟨s', by rw [run_cons, ht]; exact hr, hi, hrest⟩

/-- A property kept by every step holds in every reached state. -/
theorem invariant {step : σ → ι → Option σ} {Inv : σ → Prop}
    (hstep : ∀ s l s', Inv s → step s l = some s' → Inv s') {s : σ} (hs : Inv s)
    {ls : List ι} {s' : σ} (hr : run step s ls = some s') : Inv s' :=
  invariant_of_allowed (fun s l s' h _ => hstep s l s' h) hs (Allowed.trivial step s ls) hr

/-- The property holds at the start and after every step of the run. -/
def Always (step : σ → ι → Option σ) (P : σ → Prop) : σ → List ι → Prop
  | s, [] => P s
  | s, l :: ls => P s ∧ ∀ s', step s l = some s' → Always step P s' ls

theorem Always.head {step : σ → ι → Option σ} {P : σ → Prop} {s : σ} {ls : List ι}
    (h : Always step P s ls) : P s := by
  cases ls with
  | nil => exact h
  | cons l ls => exact h.1

theorem Always.last {step : σ → ι → Option σ} {P : σ → Prop} {s s' : σ} {ls : List ι}
    (h : Always step P s ls) (hr : run step s ls = some s') : P s' := by
  induction ls generalizing s with
  | nil => exact Option.some.inj hr ▸ h
  | cons l ls ih =>
    obtain ⟨t, ht, hr⟩ := Option.bind_eq_some_iff.mp hr
    exact ih (h.2 t ht) hr

instance Always.decidable (step : σ → ι → Option σ) (P : σ → Prop) [DecidablePred P] (s : σ)
    (ls : List ι) : Decidable (Always step P s ls) :=
  match ls with
  | [] => inferInstanceAs (Decidable (P s))
  | l :: ls =>
    match h : step s l with
    | none => decidable_of_iff (P s) (by simp [Always, h])
    | some s' =>
      have := Always.decidable step P s' ls
      decidable_of_iff (P s ∧ Always step P s' ls) (by simp [Always, h])

/-- Where allowed steps into states with one property keep an invariant, an allowed run that
always has that property always has the invariant. -/
theorem Always.of_allowed {step : σ → ι → Option σ} {ok : σ → ι → Prop} {P Inv : σ → Prop}
    (hstep : ∀ s l s', Inv s → ok s l → step s l = some s' → P s' → Inv s')
    {s : σ} (hs : Inv s) {ls : List ι} (hls : Allowed step ok s ls) (h : Always step P s ls) :
    Always step Inv s ls := by
  induction ls generalizing s with
  | nil => exact hs
  | cons l ls ih =>
    refine ⟨hs, fun s' hs' => ?_⟩
    exact ih (hstep s l s' hs hls.1 hs' (h.2 s' hs').head) (hls.2 s' hs') (h.2 s' hs')

theorem Always.of_invariant {step : σ → ι → Option σ} {ok : σ → ι → Prop} {Inv : σ → Prop}
    (hstep : ∀ s l s', Inv s → ok s l → step s l = some s' → Inv s')
    {s : σ} (hs : Inv s) {ls : List ι} (hls : Allowed step ok s ls) : Always step Inv s ls := by
  induction ls generalizing s with
  | nil => exact hs
  | cons l ls ih => exact ⟨hs, fun s' hs' => ih (hstep s l s' hs hls.1 hs') (hls.2 s' hs')⟩

theorem Always.mono {step : σ → ι → Option σ} {P Q : σ → Prop} (hPQ : ∀ s, P s → Q s) {s : σ}
    {ls : List ι} (h : Always step P s ls) : Always step Q s ls := by
  induction ls generalizing s with
  | nil => exact hPQ s h
  | cons l ls ih => exact ⟨hPQ s h.1, fun s' hs' => ih (h.2 s' hs')⟩

/-- Where allowed legal steps keep an invariant that has the property, and any other legal step
loses the property, the legal runs with the property are exactly the allowed ones. -/
theorem always_iff_allowed_of_legal {step : σ → ι → Option σ} {legal ok : σ → ι → Prop}
    {P Inv : σ → Prop} (hP : ∀ s, Inv s → P s)
    (hstep : ∀ s l s', Inv s → legal s l → ok s l → step s l = some s' → Inv s')
    (hbreak : ∀ s l, Inv s → legal s l → ¬ok s l → ∃ s', step s l = some s' ∧ ¬P s')
    {s : σ} (hs : Inv s) {ls : List ι} (hlegal : Allowed step legal s ls) :
    Always step P s ls ↔ Allowed step ok s ls := by
  induction ls generalizing s with
  | nil => exact ⟨fun _ => True.intro, fun _ => hP s hs⟩
  | cons l ls ih =>
    obtain ⟨hll, hlegal⟩ := hlegal
    constructor
    · rintro ⟨-, h⟩
      have hl : ok s l := by
        by_contra hno
        obtain ⟨s', hs', hlost⟩ := hbreak s l hs hll hno
        exact hlost (h s' hs').head
      exact ⟨hl, fun s' hs' =>
        (ih (hstep s l s' hs hll hl hs') (hlegal s' hs')).mp (h s' hs')⟩
    · rintro ⟨hl, h⟩
      exact ⟨hP s hs, fun s' hs' =>
        (ih (hstep s l s' hs hll hl hs') (hlegal s' hs')).mpr (h s' hs')⟩

/-- The same where all steps are legal. -/
theorem always_iff_allowed {step : σ → ι → Option σ} {ok : σ → ι → Prop} {P Inv : σ → Prop}
    (hP : ∀ s, Inv s → P s)
    (hstep : ∀ s l s', Inv s → ok s l → step s l = some s' → Inv s')
    (hbreak : ∀ s l, Inv s → ¬ok s l → ∃ s', step s l = some s' ∧ ¬P s')
    {s : σ} (hs : Inv s) (ls : List ι) : Always step P s ls ↔ Allowed step ok s ls :=
  always_iff_allowed_of_legal hP (fun s l s' h _ => hstep s l s' h) (fun s l h _ => hbreak s l h) hs
    (Allowed.trivial step s ls)

theorem Allowed.and {step : σ → ι → Option σ} {ok ok' : σ → ι → Prop} {s : σ} {ls : List ι}
    (h : Allowed step ok s ls) (h' : Allowed step ok' s ls) :
    Allowed step (fun s l => ok s l ∧ ok' s l) s ls := by
  induction ls generalizing s with
  | nil => exact True.intro
  | cons l ls ih => exact ⟨⟨h.1, h'.1⟩, fun s' hs' => ih (h.2 s' hs') (h'.2 s' hs')⟩

/-- Where allowed steps succeed and keep an invariant that has the property, allowed runs complete
with the property. -/
theorem completes_of_allowed {step : σ → ι → Option σ} {ok : σ → ι → Prop} {P Inv : σ → Prop}
    (hP : ∀ s, Inv s → P s) (hstep : ∀ s l, Inv s → ok s l → ∃ s', step s l = some s' ∧ Inv s')
    {s : σ} (hs : Inv s) {ls : List ι} (hls : Allowed step ok s ls) :
    (run step s ls).isSome ∧ Always step P s ls := by
  induction ls generalizing s with
  | nil => exact ⟨rfl, hP s hs⟩
  | cons l ls ih =>
    obtain ⟨t, ht, hi⟩ := hstep s l hs hls.1
    have hrest := ih hi (hls.2 t ht)
    refine ⟨by rw [run_cons, ht]; exact hrest.1, hP s hs, fun t' ht' => ?_⟩
    obtain rfl := Option.some.inj (ht.symm.trans ht')
    exact hrest.2

/-- Where allowed steps succeed and keep an invariant that has the property, and any other step
fails or loses the property, the runs that complete with the property are exactly the allowed
ones. -/
theorem completes_iff_allowed {step : σ → ι → Option σ} {ok : σ → ι → Prop} {P Inv : σ → Prop}
    (hP : ∀ s, Inv s → P s) (hstep : ∀ s l, Inv s → ok s l → ∃ s', step s l = some s' ∧ Inv s')
    (hbreak : ∀ s l, Inv s → ¬ok s l → ∀ s', step s l = some s' → ¬P s')
    {s : σ} (hs : Inv s) (ls : List ι) :
    (run step s ls).isSome ∧ Always step P s ls ↔ Allowed step ok s ls := by
  refine ⟨fun hall => ?_, completes_of_allowed hP hstep hs⟩
  induction ls generalizing s with
  | nil => exact True.intro
  | cons l ls ih =>
    obtain ⟨hrun, h⟩ := hall
    obtain ⟨s', hr⟩ := Option.isSome_iff_exists.mp hrun
    obtain ⟨t, ht, hr⟩ := Option.bind_eq_some_iff.mp hr
    have hl : ok s l := by
      by_contra hno
      exact hbreak s l hs hno t ht (h.2 t ht).head
    obtain ⟨t', ht', hi⟩ := hstep s l hs hl
    obtain rfl := Option.some.inj (ht.symm.trans ht')
    refine ⟨hl, fun t' ht' => ?_⟩
    obtain rfl := Option.some.inj (ht.symm.trans ht')
    exact ih hi ⟨Option.isSome_iff_exists.mpr ⟨s', hr⟩, h.2 t ht⟩

/-- `t` repetitions of an unlabelled step. -/
def walk (step : σ → Option σ) : ℕ → σ → Option σ
  | 0, s => some s
  | t + 1, s => (step s).bind (walk step t)

@[simp] theorem walk_zero (step : σ → Option σ) (s : σ) : walk step 0 s = some s := rfl

theorem walk_succ (step : σ → Option σ) (t : ℕ) (s : σ) :
    walk step (t + 1) s = (step s).bind (walk step t) := rfl

/-- Where every step with a positive measure succeeds, keeps the invariant and lowers the
measure by exactly one, a walk of any length up to the measure succeeds. -/
theorem walk_of_measure {step : σ → Option σ} {Inv : σ → Prop} {m : σ → ℕ}
    (hstep : ∀ s, Inv s → 0 < m s → ∃ s', step s = some s' ∧ Inv s' ∧ m s' + 1 = m s)
    (t : ℕ) (s : σ) (hs : Inv s) (ht : t ≤ m s) :
    ∃ s', walk step t s = some s' ∧ Inv s' ∧ m s' + t = m s := by
  induction t generalizing s with
  | zero => exact ⟨s, rfl, hs, rfl⟩
  | succ t ih =>
    obtain ⟨s₁, h₁, hi₁, hm₁⟩ := hstep s hs (by omega)
    obtain ⟨s', hw, hi, hm⟩ := ih s₁ hi₁ (by omega)
    exact ⟨s', by rw [walk_succ, h₁]; exact hw, hi, by omega⟩

/-- A walk that did not fail has kept the invariant and lowered the measure with every step. -/
theorem measure_of_walk {step : σ → Option σ} {Inv : σ → Prop} {m : σ → ℕ}
    (hstep : ∀ s s', Inv s → step s = some s' → Inv s' ∧ m s' + 1 = m s)
    (t : ℕ) (s : σ) (hs : Inv s) {s' : σ} (hw : walk step t s = some s') :
    Inv s' ∧ m s' + t = m s := by
  induction t generalizing s with
  | zero => exact Option.some.inj hw ▸ ⟨hs, rfl⟩
  | succ t ih =>
    obtain ⟨s₁, h₁, hw⟩ := Option.bind_eq_some_iff.mp hw
    obtain ⟨hi₁, hm₁⟩ := hstep s s₁ hs h₁
    obtain ⟨hi, hm⟩ := ih s₁ hi₁ hw
    exact ⟨hi, by omega⟩

end Ns3Noc.PartialRuns

/-!
## Infinite runs

A run that never stops, and two rules for what it comes to in the end.
-/
namespace Ns3Noc.InfiniteRuns

variable {σ ι : Type*}

structure InfiniteRun (step : σ → ι → Option σ) (ok : σ → ι → Prop) where
  states : ℕ → σ
  labels : ℕ → ι
  steps : ∀ n, step (states n) (labels n) = some (states (n + 1))
  allowed : ∀ n, ok (states n) (labels n)

namespace InfiniteRun

variable {step : σ → ι → Option σ} {ok : σ → ι → Prop} (x : InfiniteRun step ok)

/-- A property kept by every allowed step always holds. -/
theorem invariant {Inv : σ → Prop}
    (hstep : ∀ s l s', Inv s → ok s l → step s l = some s' → Inv s') (h : Inv (x.states 0))
    (n : ℕ) : Inv (x.states n) := by
  induction n with
  | zero => exact h
  | succ n ih => exact hstep _ _ _ ih (x.allowed n) (x.steps n)

variable {x} {P : σ → Prop} {E : σ → ι → Prop} {n : ℕ}

/-- A property that only one kind of step ends is there when such a step comes. -/
theorem until_step (hkeep : ∀ s l s', P s → ok s l → step s l = some s' → E s l ∨ P s')
    (h : P (x.states n)) (hstep : ∃ m, n ≤ m ∧ E (x.states m) (x.labels m)) :
    ∃ m, n ≤ m ∧ P (x.states m) ∧ E (x.states m) (x.labels m) := by
  obtain ⟨m, hnm, hm⟩ := hstep
  obtain ⟨k, rfl⟩ := Nat.exists_eq_add_of_le hnm
  induction k generalizing n with
  | zero => exact ⟨n, le_rfl, h, hm⟩
  | succ k ih =>
    rcases hkeep _ _ _ h (x.allowed n) (x.steps n) with hE | hP
    · exact ⟨n, le_rfl, h, hE⟩
    · rw [Nat.add_comm k 1, ← Nat.add_assoc] at hm
      obtain ⟨m', hle, hm'⟩ := ih hP (Nat.le_add_right _ _) hm
      exact ⟨m', (Nat.le_succ n).trans hle, hm'⟩

/-- A step that ends a property comes, when the property bounds a clock that is not bounded. -/
theorem until_due {α : Type*} [LinearOrder α] {clock : σ → α} {due : α}
    (hclock : ∀ s l s', step s l = some s' → clock s ≤ clock s')
    (hunbounded : ∀ t, ∃ m, t < clock (x.states m))
    (hkeep : ∀ s l s', P s → ok s l → step s l = some s' → E s l ∨ P s')
    (hdue : ∀ s l s', P s → step s l = some s' → clock s ≤ due) (h : P (x.states n)) :
    ∃ m, n ≤ m ∧ P (x.states m) ∧ E (x.states m) (x.labels m) := by
  refine until_step hkeep h ?_
  by_contra hnever
  push Not at hnever
  have hP : ∀ k, P (x.states (n + k)) := by
    intro k
    induction k with
    | zero => exact h
    | succ k ih =>
      exact (hkeep _ _ _ ih (x.allowed _) (x.steps _)).resolve_left
        (hnever (n + k) (Nat.le_add_right n k))
  obtain ⟨m, hm⟩ := hunbounded due
  have hmono : Monotone fun k => clock (x.states k) :=
    monotone_nat_of_le_succ fun k => hclock _ _ _ (x.steps k)
  have hlate : due < clock (x.states (n + m)) := hm.trans_le (hmono (Nat.le_add_left m n))
  exact absurd (hdue _ _ _ (hP m) (x.steps _)) (not_le_of_gt hlate)

end InfiniteRun

end Ns3Noc.InfiniteRuns

namespace Ns3Noc.PartialActs

variable {σ α β : Type}

abbrev Act (σ α : Type) := StateT σ Option α

/-- Where `P` holds before the action and the action does not fail, `Q` holds after it. -/
structure Triple (P : σ → Prop) (act : Act σ α) (Q : α → σ → Prop) : Prop where
  run : ∀ s, P s → ∀ a s', act s = some (a, s') → Q a s'

/-- The action keeps a property of the state. -/
def Keeps (P : σ → Prop) (act : Act σ α) : Prop := Triple P act fun _ => P

namespace Triple

variable {P P' : σ → Prop} {Q Q' : α → σ → Prop}

theorem mono {act : Act σ α} (h : Triple P act Q) (hP : ∀ s, P' s → P s)
    (hQ : ∀ a s, Q a s → Q' a s) : Triple P' act Q' :=
  ⟨fun s hs a s' hr => hQ a s' (h.run s (hP s hs) a s' hr)⟩

theorem pre {act : Act σ α} (h : Triple P act Q) (hP : ∀ s, P' s → P s) : Triple P' act Q :=
  h.mono hP fun _ _ hQ => hQ

theorem post {act : Act σ α} (h : Triple P act Q) (hQ : ∀ a s, Q a s → Q' a s) :
    Triple P act Q' :=
  h.mono (fun _ hP => hP) hQ

theorem pure {a : α} (h : ∀ s, P s → Q a s) : Triple P (pure a : Act σ α) Q := by
  constructor
  intro s hs a' s' hr
  obtain ⟨rfl, rfl⟩ := Prod.mk.inj (Option.some.inj hr)
  exact h s hs

theorem bind {act : Act σ α} {next : α → Act σ β} {R : α → σ → Prop} {Q : β → σ → Prop}
    (h : Triple P act R) (hnext : ∀ a, Triple (R a) (next a) Q) : Triple P (act >>= next) Q := by
  constructor
  intro s hs b s' hr
  obtain ⟨⟨a, t⟩, ht, hr⟩ := Option.bind_eq_some_iff.mp hr
  exact (hnext a).run t (h.run s hs a t ht) b s' hr

theorem get {Q : σ → σ → Prop} (h : ∀ s, P s → Q s s) : Triple P (get : Act σ σ) Q := by
  constructor
  intro s hs a s' hr
  obtain ⟨rfl, rfl⟩ := Prod.mk.inj (Option.some.inj hr)
  exact h s hs

theorem modify {f : σ → σ} {Q : PUnit → σ → Prop} (h : ∀ s, P s → Q ⟨⟩ (f s)) :
    Triple P (modify f : Act σ PUnit) Q := by
  constructor
  intro s hs a s' hr
  obtain ⟨rfl, rfl⟩ := Prod.mk.inj (Option.some.inj hr)
  exact h s hs

theorem failure : Triple P (failure : Act σ α) Q := ⟨fun _ _ _ _ hr => nomatch hr⟩

theorem ite {c : Prop} [Decidable c] {act act' : Act σ α} (h : c → Triple P act Q)
    (h' : ¬ c → Triple P act' Q) : Triple P (if c then act else act') Q := by
  by_cases hc : c
  · rw [if_pos hc]
    exact h hc
  · rw [if_neg hc]
    exact h' hc

theorem of_state {act : Act σ α} (h : ∀ s₀, P s₀ → Triple (fun s => s = s₀) act Q) :
    Triple P act Q :=
  ⟨fun s hs => (h s hs).run s rfl⟩

/-- The state that an action starts with is known to what follows. -/
theorem get_bind {next : σ → Act σ α} (h : ∀ s₀, Triple (fun s => s = s₀ ∧ P s) (next s₀) Q) :
    Triple P (MonadState.get >>= next) Q :=
  ⟨fun s hs => (h s).run s ⟨rfl, hs⟩⟩

end Triple

namespace Keeps

variable {P : σ → Prop}

theorem pure (a : α) : Keeps P (pure a : Act σ α) := Triple.pure fun _ h => h

theorem bind {act : Act σ α} {next : α → Act σ β} (h : Keeps P act)
    (hnext : ∀ a, Keeps P (next a)) : Keeps P (act >>= next) :=
  Triple.bind h hnext

theorem get : Keeps P (MonadState.get : Act σ σ) := Triple.get fun _ h => h

end Keeps

end Ns3Noc.PartialActs
