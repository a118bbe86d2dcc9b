import Ns3Noc.ObjectAggregation

/-!
# Runs of aggregated objects

User code may call what it likes and whenever it likes. Only two of its calls lose what aggregation
promises: one that brings a type twice into an aggregate, and one that starts an object inside its own
`DoStart`.
-/
namespace Ns3Noc.Objects

open PartialRuns

variable {ω τ : Type} [DecidableEq ω] [DecidableEq τ] {types : TypeIds τ} {typeId : ω → τ}
  {s : Objects ω}

/-! ## Loops -/

omit [DecidableEq τ] in
/-- The loop goes on, or frees both arrays. -/
theorem Consistent.notifyFrom {a b : AggregatesPtr ω} (h : s.Consistent typeId [a, b]) (i : ℕ) :
    ∃ s', s.notifyFrom a b i = some s' ∧ s'.Consistent typeId [] := by
  obtain ⟨ha, hfreea, -⟩ := h.alive a (by simp)
  obtain ⟨hb, hfreeb, -⟩ := h.alive b (by simp)
  obtain ⟨own, hown⟩ := Option.isSome_iff_exists.mp ha
  obtain ⟨other, hother⟩ := Option.isSome_iff_exists.mp hb
  rw [Objects.notifyFrom, hown, hother]
  simp only [Option.bind_eq_bind, Option.bind_some]
  split
  · refine ⟨_, rfl, h.array, h.connected, h.sorted, h.distinct, h.allocated, ?_, ?_, h.once, h.runs⟩
    · exact h.nodup
    · exact h.alive
  · have hkept : ∀ p, p ≠ a → p ≠ b →
        Function.update (Function.update s.buffer a none) b none p = s.buffer p := by
      intro p hpa hpb
      rw [Function.update_of_ne hpb, Function.update_of_ne hpa]
    have hmembers : ∀ x, members { s with
        buffer := Function.update (Function.update s.buffer a none) b none } x = s.members x :=
      fun x => hkept _ (hfreea x) (hfreeb x)
    have hnodup := h.nodup
    have hdisjoint := (List.nodup_append'.mp hnodup).2.2
    refine ⟨_, rfl, fun x => ?_, h.connected, fun x l hl => ?_, h.distinct, h.allocated, ?_,
      fun p hp => ?_, h.once, h.runs⟩
    · rw [hmembers]
      exact h.array x
    · rw [hmembers] at hl
      exact h.sorted x l hl
    · exact (List.nodup_append'.mp hnodup).2.1
    · obtain ⟨hsome, hfree, hlt⟩ := h.alive p (List.mem_append_right _ hp)
      refine ⟨?_, hfree, hlt⟩
      have hpa : p ≠ a := fun heq => hdisjoint (heq ▸ List.mem_cons_self) hp
      have hpb : p ≠ b := fun heq => hdisjoint (heq ▸ List.mem_cons_of_mem _ List.mem_cons_self) hp
      have hkeep := hkept p hpa hpb
      dsimp only
      rw [hkeep]
      exact hsome

omit [DecidableEq τ] in
/-- The loop of `Start` ends, or comes to an object that is not starting. -/
theorem Consistent.startFrom (h : s.Consistent typeId []) (x : ω)
    (hrunning : ∀ current, s.nextStart x = some (some current) → current ∉ s.running) :
    ∃ s', s.startFrom x = some s' ∧ s'.Consistent typeId [] := by
  obtain ⟨l, hl, -, -⟩ := h.array x
  cases hnext : l.find? fun current => !s.started current with
  | none =>
    refine ⟨s, ?_, h⟩
    rw [Objects.startFrom, nextStart, hl, Option.map_some, hnext]
    rfl
  | some current =>
    have hcurrent : s.nextStart x = some (some current) := by
      rw [nextStart, hl, Option.map_some, hnext]
    have hnot := hrunning current hcurrent
    have hstarted : s.started current = false := by simpa using List.find?_some hnext
    have hstep : s.startFrom x = some { s with
        stack := .starting x current :: s.stack
        doStarts := Function.update s.doStarts current (s.doStarts current + 1) } := by
      rw [Objects.startFrom, hcurrent, Option.map_some]
    have hpushed : ∀ doStarts, running { s with stack := .starting x current :: s.stack, doStarts } =
        current :: s.running := fun _ => rfl
    refine ⟨_, hstep, h.array, h.connected, h.sorted, h.distinct, h.allocated, h.nodup, h.alive,
      fun y => ?_, ?_, fun y hy => ?_⟩
    · have honce := h.once y
      rw [hpushed]
      dsimp only
      by_cases hy : y = current
      · subst hy
        rw [if_neg (by simp [hstarted, hnot])] at honce
        rw [if_pos (.inr List.mem_cons_self), Function.update_self, honce]
      · rw [Function.update_of_ne hy, honce]
        simp only [List.mem_cons, hy, false_or]
    · exact List.nodup_cons.mpr ⟨hnot, h.runs.1⟩
    · rcases List.mem_cons.mp hy with rfl | hy
      · exact hstarted
      · exact h.runs.2 y hy

/-! ## Steps -/

/-- After `DoStart`, the loop comes to no object that is still starting. -/
def SoundReturn (s : Objects ω) : List (ObjectFrame ω) → Prop
  | .starting x current :: stack =>
    ∀ next, nextStart { s with stack, started := Function.update s.started current true } x =
      some (some next) → next ∉ running { s with stack }
  | _ => True

/-- What may lose the promises: types that come twice, a count that wraps, and an object that is started
while it is starting. -/
def Sound (types : TypeIds τ) (typeId : ω → τ) (s : Objects ω) : ObjectCall ω τ → Prop
  | .aggregateObject x o => ∀ p q, s.aggregates p = s.aggregates x → s.aggregates q = s.aggregates o →
      typeId p ≠ typeId q
  | .getObject x tid => ∀ y, s.found types typeId x tid = some y →
      (s.getObjectCount y).toNat + 1 < 2 ^ 32
  | .start x => ∀ current, s.nextStart x = some (some current) → current ∉ s.running
  | .ret => s.SoundReturn s.stack

/-- The program stops where a type is aggregated again, and no user code returns outside of a loop. -/
def Stops (types : TypeIds τ) (typeId : ω → τ) (s : Objects ω) : ObjectCall ω τ → Prop
  | .aggregateObject x o => (s.found types typeId x (typeId o)).isSome
  | .ret => s.stack = []
  | _ => False

theorem Consistent.aggregateObject (h : s.Consistent typeId []) {x o : ω}
    (hsound : s.Sound types typeId (.aggregateObject x o))
    (hgo : ¬s.Stops types typeId (.aggregateObject x o)) :
    ∃ s', s.aggregateObject types typeId x o = some s' ∧ s'.Consistent typeId [] := by
  obtain ⟨own, hown, hcases⟩ := h.doGetObject types x (typeId o)
  obtain ⟨other, hother, hothernodup, hothermem⟩ := h.array o
  obtain ⟨own', hown', hownnodup, hownmem⟩ := h.array x
  obtain rfl := Option.some.inj (hown.symm.trans hown')
  rcases hcases with ⟨-, hget, -⟩ | ⟨y, -, hfound, -⟩
  swap
  · exact absurd (by rw [Stops, hfound]; rfl) hgo
  have hperm := mergeArrays_perm s own other
  have hmem : ∀ y, y ∈ s.mergeArrays own other ↔
      s.aggregates y = s.aggregates x ∨ s.aggregates y = s.aggregates o := by
    intro y
    rw [hperm.mem_iff, List.mem_append, hownmem, hothermem]
  have hnodup : (s.mergeArrays own other).Nodup := by
    refine hperm.nodup_iff.mpr (List.nodup_append'.mpr ⟨hownnodup, hothernodup, fun y hy hy' => ?_⟩)
    exact hsound y y ((hownmem y).mp hy) ((hothermem y).mp hy') rfl
  have hmerged := h.merge hmem hnodup (mergeArrays_sorted s (h.sorted x own hown) other) hsound
  obtain ⟨s', hs', hconsistent⟩ := hmerged.notifyFrom 0
  refine ⟨s', ?_, hconsistent⟩
  rw [Objects.aggregateObject, hget]
  simp only [Option.bind_eq_bind, Option.bind_some, hown, hother]
  exact hs'

theorem Consistent.step (h : s.Consistent typeId []) {c : ObjectCall ω τ}
    (hsound : s.Sound types typeId c) (hgo : ¬s.Stops types typeId c) :
    ∃ s', s.step types typeId c = some s' ∧ s'.Consistent typeId [] := by
  cases c with
  | aggregateObject x o => exact h.aggregateObject hsound hgo
  | getObject x tid =>
    obtain ⟨_, -, hcases⟩ := h.doGetObject types x tid
    rcases hcases with ⟨-, hget, -⟩ | ⟨y, s', hfound, hget, -, -, hnext⟩
    · exact ⟨s, by rw [Objects.step, hget]; rfl, h⟩
    · exact ⟨s', by rw [Objects.step, hget]; rfl, hnext (hsound y hfound)⟩
  | start x => exact h.startFrom x hsound
  | ret =>
    rw [Objects.step]
    cases hstack : s.stack with
    | nil => exact absurd hstack hgo
    | cons frame stack =>
      have hwaiting : s.waiting = frame.buffers ++ waiting { s with stack } := by
        rw [waiting, hstack]
        rfl
      cases frame with
      | notifying a b i =>
        have hrest : Consistent typeId { s with stack } [a, b] := by
          have hrunning : s.running = running { s with stack } := by
            rw [running, hstack]
            rfl
          have hnodup := h.nodup
          have halive := h.alive
          have honce := h.once
          have hruns := h.runs
          rw [List.nil_append, hwaiting] at hnodup
          rw [List.nil_append, hwaiting] at halive
          simp only [hrunning] at honce hruns
          exact ⟨h.array, h.connected, h.sorted, h.distinct, h.allocated, hnodup, halive, honce, hruns⟩
        exact hrest.notifyFrom (i + 1)
      | starting x current =>
        have hrunning : s.running = current :: running { s with stack } := by
          rw [running, hstack]
          rfl
        have hnodup := h.runs.1
        rw [hrunning, List.nodup_cons] at hnodup
        have hrest : Consistent typeId
            { s with stack, started := Function.update s.started current true } [] := by
          have hbuffers := h.nodup
          have halive := h.alive
          rw [List.nil_append, hwaiting] at hbuffers
          rw [List.nil_append, hwaiting] at halive
          refine ⟨h.array, h.connected, h.sorted, h.distinct, h.allocated, hbuffers, halive,
            fun y => ?_, hnodup.2, fun y hy => ?_⟩
          · have honce := h.once y
            rw [hrunning] at honce
            by_cases hy : y = current
            · subst hy
              simpa using honce
            · simpa [hy, running] using honce
          · have hy' : y ∈ running { s with stack } := hy
            have hne : y ≠ current := fun heq => hnodup.1 (heq ▸ hy')
            dsimp only
            rw [Function.update_of_ne hne]
            exact h.runs.2 y (hrunning ▸ List.mem_cons_of_mem _ hy')
        refine hrest.startFrom x ?_
        have hsound' := hsound
        rw [Sound, hstack] at hsound'
        exact hsound'

theorem Consistent.step_of_stops (h : s.Consistent typeId []) {c : ObjectCall ω τ}
    (hstops : s.Stops types typeId c) : s.step types typeId c = none := by
  cases c with
  | aggregateObject x o =>
    obtain ⟨_, -, hcases⟩ := h.doGetObject types x (typeId o)
    rcases hcases with ⟨hnone, -⟩ | ⟨y, s', -, hget, -⟩
    · rw [Stops, hnone] at hstops
      cases hstops
    · rw [Objects.step, Objects.aggregateObject, hget]
      rfl
  | getObject => exact hstops.elim
  | start => exact hstops.elim
  | ret =>
    have hstack : s.stack = [] := hstops
    rw [Objects.step, hstack]

/-! ## The promises -/

/-- Aggregation is a partition by the successful calls, with sorted arrays and lookups that find what is
there; no type comes twice, and each object is started once. -/
structure Aggregated (types : TypeIds τ) (typeId : ω → τ) (s : Objects ω) : Prop where
  partition : ∀ x, ∃ l, s.members x = some l ∧ l.Nodup ∧ ∀ y, y ∈ l ↔ s.aggregates y = s.aggregates x
  connected : ∀ x y, s.aggregates x = s.aggregates y ↔
    Relation.EqvGen (fun p q => (p, q) ∈ s.aggregated) x y
  sorted : ∀ x l, s.members x = some l → SortedBy s.getObjectCount l
  found : ∀ x tid, ∃ y? s', s.doGetObject types typeId x tid = some (y?, s') ∧
    (y?.isSome ↔ ∃ y, s.aggregates y = s.aggregates x ∧ types.IsSubtype (typeId y) tid) ∧
    ∀ y, y? = some y → s.aggregates y = s.aggregates x ∧ types.IsSubtype (typeId y) tid
  distinct : ∀ x y, s.aggregates x = s.aggregates y → typeId x = typeId y → x = y
  ownType : ∀ x y, s.aggregates y = s.aggregates x →
    (∀ z, s.aggregates z = s.aggregates x → types.IsSubtype (typeId z) (typeId y) →
      typeId z = typeId y) →
    ∃ s', s.doGetObject types typeId x (typeId y) = some (some y, s')
  startedOnce : ∀ x, s.doStarts x ≤ 1
  startEnds : ∀ x, s.nextStart x = some none → ∀ y, s.aggregates y = s.aggregates x → s.doStarts y = 1
  goesOn : ∀ c, s.Sound types typeId c → ¬s.Stops types typeId c → (s.step types typeId c).isSome

theorem Consistent.aggregated (h : s.Consistent typeId []) (types : TypeIds τ) :
    s.Aggregated types typeId where
  partition := h.array
  connected := h.connected
  sorted := h.sorted
  found x tid := by
    obtain ⟨l, hl, hcases⟩ := h.doGetObject types x tid
    obtain ⟨l', hl', -, hmem⟩ := h.array x
    obtain rfl := Option.some.inj (hl.symm.trans hl')
    rcases hcases with ⟨-, hget, hnone⟩ | ⟨y, s', -, hget, hy, hsub, -⟩
    · refine ⟨none, s, hget, ⟨nofun, ?_⟩, nofun⟩
      rintro ⟨y, hy, hsub⟩
      exact absurd hsub (hnone y ((hmem y).mpr hy))
    · refine ⟨some y, s', hget, ⟨fun _ => ⟨y, (hmem y).mp hy, hsub⟩, fun _ => rfl⟩, ?_⟩
      intro y' hy'
      obtain rfl := Option.some.inj hy'
      exact ⟨(hmem y).mp hy, hsub⟩
  distinct := h.distinct
  ownType x y hy hno := by
    obtain ⟨l, hl, hcases⟩ := h.doGetObject types x (typeId y)
    obtain ⟨l', hl', -, hmem⟩ := h.array x
    obtain rfl := Option.some.inj (hl.symm.trans hl')
    rcases hcases with ⟨-, -, hnone⟩ | ⟨z, s', -, hget, hz, hsub, -⟩
    · exact absurd .refl (hnone y ((hmem y).mpr hy))
    · have hzx := (hmem z).mp hz
      obtain rfl := h.distinct z y (hzx.trans hy.symm) (hno z hzx hsub)
      exact ⟨s', hget⟩
  startedOnce x := by
    rw [h.once x]
    split
    · exact le_refl 1
    · exact Nat.zero_le 1
  startEnds x hnext y hy := by
    obtain ⟨l, hl, -, hmem⟩ := h.array x
    rw [nextStart, hl, Option.map_some, Option.some.injEq, List.find?_eq_none] at hnext
    have hstarted : s.started y = true := by simpa using hnext y ((hmem y).mpr hy)
    rw [h.once y, if_pos (.inl hstarted)]
  goesOn c hsound hgo := by
    obtain ⟨s', hs', -⟩ := h.step hsound hgo
    rw [hs']
    rfl

/-- Whatever user code does, the promises hold while its calls are sound. -/
theorem always_aggregated (types : TypeIds τ) (typeId : ω → τ) {calls : List (ObjectCall ω τ)}
    (hsound : Allowed (step types typeId) (Sound types typeId) (init : Objects ω) calls) :
    Always (step types typeId) (Aggregated types typeId) (init : Objects ω) calls := by
  have hstep : ∀ s c s', Consistent typeId s [] → s.Sound types typeId c →
      s.step types typeId c = some s' → Consistent typeId s' [] := by
    intro s c s' h hok hstep
    by_cases hgo : s.Stops types typeId c
    · rw [h.step_of_stops hgo] at hstep
      cases hstep
    · obtain ⟨t, ht, hconsistent⟩ := h.step hok hgo
      obtain rfl := Option.some.inj (ht.symm.trans hstep)
      exact hconsistent
  have hall := Always.of_invariant hstep init_consistent hsound
  exact hall.mono fun s h => h.aggregated types

/-! ## Two runs -/

instance SoundReturn.decidable [Fintype ω] (s : Objects ω) (stack : List (ObjectFrame ω)) :
    Decidable (s.SoundReturn stack) :=
  match stack with
  | .starting x current :: stack => inferInstanceAs (Decidable
      (∀ next, nextStart { s with stack, started := Function.update s.started current true } x =
        some (some next) → next ∉ running { s with stack }))
  | [] | .notifying _ _ _ :: _ => .isTrue True.intro

instance Sound.decidable [Fintype ω] (types : TypeIds τ) (typeId : ω → τ) (s : Objects ω)
    (c : ObjectCall ω τ) : Decidable (s.Sound types typeId c) :=
  match c with
  | .aggregateObject x o => inferInstanceAs (Decidable (∀ p q,
      s.aggregates p = s.aggregates x → s.aggregates q = s.aggregates o → typeId p ≠ typeId q))
  | .getObject x tid => inferInstanceAs (Decidable (∀ y, s.found types typeId x tid = some y →
      (s.getObjectCount y).toNat + 1 < 2 ^ 32))
  | .start x => inferInstanceAs (Decidable
      (∀ current, s.nextStart x = some (some current) → current ∉ s.running))
  | .ret => SoundReturn.decidable s s.stack

/-- All types are children of that of `Object`, which is 0. -/
def flatTypes : TypeIds ℕ := ⟨fun _ => 0, 0, id, fun _ h => Nat.pos_of_ne_zero h⟩

/-- An object is aggregated inside `DoStart` and looked up while it is notified. -/
theorem aggregated_in_doStart :
    Always (step flatTypes fun o : Fin 3 => o.val + 1) (Aggregated flatTypes fun o => o.val + 1) init
      [.aggregateObject 0 1, .ret, .ret, .start 0, .aggregateObject 1 2, .getObject 0 3, .ret, .ret,
        .ret, .ret, .ret, .ret, .start 2] :=
  always_aggregated _ _ (by decide +kernel)

/-- The second object of an aggregate has a type that the other aggregate has already. -/
theorem type_aggregated_twice :
    ¬Always (step flatTypes fun o : Fin 3 => 1 + o.val % 2)
      (Aggregated flatTypes fun o => 1 + o.val % 2) init
      [.aggregateObject 1 2, .ret, .ret, .aggregateObject 0 1] := by
  intro h
  have hrun : (run (step flatTypes fun o : Fin 3 => 1 + o.val % 2) init
      [.aggregateObject 1 2, .ret, .ret, .aggregateObject 0 1]).isSome := by
    decide +kernel
  exact absurd ((h.last (Option.some_get hrun).symm).distinct 0 2) (by decide +kernel +revert)

end Ns3Noc.Objects
