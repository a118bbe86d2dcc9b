import Ns3Noc.SortedAggregates
import Ns3Noc.PartialRuns

/-!
# Aggregation as a partition

What stays true of the arrays of aggregated objects while user code aggregates, looks up and starts
objects from anywhere, as long as no type comes twice into an aggregate and no object is started while it
is starting.
-/
namespace Ns3Noc

open PartialRuns

namespace TypeIds

variable {τ : Type} (types : TypeIds τ)

/-- `tid` or a parent of it, up to `Object` -/
def IsSubtype : τ → τ → Prop :=
  Relation.ReflTransGen fun tid parent => tid ≠ types.object ∧ types.parent tid = parent

theorem climb_iff [DecidableEq τ] (tid : τ) {n : ℕ} {cur : τ} (h : types.depth cur ≤ n) :
    types.climb tid n cur = true ↔ types.IsSubtype cur tid := by
  induction n generalizing cur with
  | zero =>
    have hobject : cur = types.object := by
      by_contra hne
      have hlt := types.depth_parent cur hne
      omega
    rw [climb, decide_eq_true_iff]
    constructor
    · rintro rfl
      exact .refl
    · intro hsub
      rcases Relation.ReflTransGen.cases_head hsub with heq | ⟨_, ⟨hne, -⟩, -⟩
      · exact heq
      · exact absurd hobject hne
  | succ n ih =>
    rw [climb]
    by_cases hcur : cur = tid
    · rw [if_neg (by simp [hcur])]
      simp only [hcur, decide_true, true_iff]
      exact .refl
    by_cases hobject : cur = types.object
    · rw [if_neg (by simp [hobject]), decide_eq_true_iff]
      refine ⟨fun heq => absurd heq hcur, fun hsub => ?_⟩
      rcases Relation.ReflTransGen.cases_head hsub with heq | ⟨_, ⟨hne, -⟩, -⟩
      · exact heq
      · exact absurd hobject hne
    · have hdepth := types.depth_parent cur hobject
      rw [if_pos ⟨hcur, hobject⟩, ih (by omega)]
      refine ⟨fun hsub => .head ⟨hobject, rfl⟩ hsub, fun hsub => ?_⟩
      rcases Relation.ReflTransGen.cases_head hsub with heq | ⟨_, ⟨-, rfl⟩, hsub⟩
      · exact absurd heq hcur
      · exact hsub

theorem isA_iff [DecidableEq τ] {cur tid : τ} :
    types.isA cur tid = true ↔ types.IsSubtype cur tid :=
  types.climb_iff tid (le_refl _)

end TypeIds

namespace ObjectFrame

variable {ω : Type}

def buffers : ObjectFrame ω → List (AggregatesPtr ω)
  | notifying a b _ => [a, b]
  | starting _ _ => []

def current? : ObjectFrame ω → Option ω
  | notifying _ _ _ => none
  | starting _ current => some current

end ObjectFrame

namespace Objects

variable {ω τ : Type} [DecidableEq ω] [DecidableEq τ]

/-- The old arrays that loops still walk through -/
def waiting (s : Objects ω) : List (AggregatesPtr ω) := s.stack.flatMap ObjectFrame.buffers

/-- The objects inside `DoStart` -/
def running (s : Objects ω) : List ω := s.stack.filterMap ObjectFrame.current?

/-- The object that a lookup finds -/
def found (types : TypeIds τ) (typeId : ω → τ) (s : Objects ω) (x : ω) (tid : τ) : Option ω :=
  (s.members x).bind (List.find? fun current => types.isA (typeId current) tid)

/-- The arrays, and old arrays apart from those of the frames -/
structure Consistent (typeId : ω → τ) (s : Objects ω) (old : List (AggregatesPtr ω)) : Prop where
  array : ∀ x, ∃ l, s.members x = some l ∧ l.Nodup ∧ ∀ y, y ∈ l ↔ s.aggregates y = s.aggregates x
  connected : ∀ x y, s.aggregates x = s.aggregates y ↔
    Relation.EqvGen (fun p q => (p, q) ∈ s.aggregated) x y
  sorted : ∀ x l, s.members x = some l → SortedBy s.getObjectCount l
  distinct : ∀ x y, s.aggregates x = s.aggregates y → typeId x = typeId y → x = y
  allocated : ∀ x n, s.aggregates x = .merged n → n < s.allocated
  nodup : (old ++ s.waiting).Nodup
  alive : ∀ p ∈ old ++ s.waiting, (s.buffer p).isSome ∧ (∀ x, s.aggregates x ≠ p) ∧
    ∀ n, p = .merged n → n < s.allocated
  once : ∀ x, s.doStarts x = if s.started x = true ∨ x ∈ s.running then 1 else 0
  runs : s.running.Nodup ∧ ∀ x ∈ s.running, s.started x = false

variable {types : TypeIds τ} {typeId : ω → τ} {s : Objects ω} {old : List (AggregatesPtr ω)}

omit [DecidableEq τ] in
theorem init_consistent : (init : Objects ω).Consistent typeId [] where
  array x := ⟨[x], rfl, List.nodup_singleton x, fun y => by simp [init]⟩
  connected x y := by
    constructor
    · intro h
      obtain rfl := AggregatesPtr.own.inj h
      exact .refl x
    · intro h
      induction h with
      | rel _ _ hmem => cases hmem
      | refl => rfl
      | symm _ _ _ ih => exact ih.symm
      | trans _ _ _ _ _ ih ih' => exact ih.trans ih'
  sorted x l hl := by
    obtain rfl : [x] = l := Option.some.inj hl
    exact List.pairwise_singleton _ x
  distinct _ _ h _ := AggregatesPtr.own.inj h
  allocated _ _ h := nomatch h
  nodup := List.nodup_nil
  alive := nofun
  once _ := rfl
  runs := ⟨List.nodup_nil, nofun⟩

/-! ## Lookups -/

omit [DecidableEq τ] in
/-- An array is put into another order, with other counts of its objects. -/
theorem Consistent.reorder (h : s.Consistent typeId old) {x : ω} {l l' : List ω}
    (hl : s.members x = some l) (hperm : l'.Perm l) {count : ω → UInt32}
    (hcount : ∀ y ∉ l, count y = s.getObjectCount y) (hsorted : SortedBy count l') :
    ({ s with getObjectCount := count, buffer := Function.update s.buffer (s.aggregates x) (some l') } :
      Objects ω).Consistent typeId old := by
  obtain ⟨l₀, hl₀, hnodup, hmem⟩ := h.array x
  obtain rfl := Option.some.inj (hl.symm.trans hl₀)
  refine ⟨fun y => ?_, h.connected, fun y l₁ hl₁ => ?_, h.distinct, h.allocated, h.nodup,
    fun p hp => ?_, h.once, h.runs⟩
  · by_cases hy : s.aggregates y = s.aggregates x
    · refine ⟨l', ?_, hperm.nodup_iff.mpr hnodup, fun z => ?_⟩
      · rw [members]
        simp only [hy, Function.update_self]
      · rw [hperm.mem_iff, hmem]
        simp only [hy]
    · obtain ⟨l₁, hl₁, hrest⟩ := h.array y
      refine ⟨l₁, ?_, hrest⟩
      rw [members]
      simp only [Function.update_of_ne hy]
      exact hl₁
  · by_cases hy : s.aggregates y = s.aggregates x
    · rw [members] at hl₁
      simp only [hy, Function.update_self] at hl₁
      exact Option.some.inj hl₁ ▸ hsorted
    · rw [members] at hl₁
      simp only [Function.update_of_ne hy] at hl₁
      refine (h.sorted y l₁ hl₁).congr fun z hz => hcount z fun hzl => hy ?_
      obtain ⟨l₂, hl₂, -, hmem₂⟩ := h.array y
      obtain rfl := Option.some.inj (hl₁.symm.trans hl₂)
      exact ((hmem₂ z).mp hz).symm.trans ((hmem z).mp hzl)
  · obtain ⟨hsome, hfree, hold⟩ := h.alive p hp
    refine ⟨?_, hfree, hold⟩
    dsimp only
    rw [Function.update_of_ne (hfree x).symm]
    exact hsome

/-- A lookup finds nothing and changes nothing, or finds an object and counts it. -/
theorem Consistent.doGetObject (h : s.Consistent typeId old) (types : TypeIds τ) (x : ω) (tid : τ) :
    ∃ l, s.members x = some l ∧
      ((s.found types typeId x tid = none ∧ s.doGetObject types typeId x tid = some (none, s) ∧
          ∀ y ∈ l, ¬types.IsSubtype (typeId y) tid) ∨
        ∃ y s', s.found types typeId x tid = some y ∧
          s.doGetObject types typeId x tid = some (some y, s') ∧ y ∈ l ∧
          types.IsSubtype (typeId y) tid ∧
          ((s.getObjectCount y).toNat + 1 < 2 ^ 32 → s'.Consistent typeId old)) := by
  obtain ⟨l, hl, hnodup, -⟩ := h.array x
  refine ⟨l, hl, ?_⟩
  rw [found, Objects.doGetObject, hl]
  simp only [Option.bind_eq_bind, Option.bind_some]
  cases hindex : l.findIdx? fun current => types.isA (typeId current) tid with
  | none =>
    have hnone := List.findIdx?_eq_none_iff.mp hindex
    refine .inl ⟨?_, rfl, fun y hy hsub => ?_⟩
    · exact List.find?_eq_none.mpr fun y hy => by simp [hnone y hy]
    · have hfalse := hnone y hy
      rw [types.isA_iff.mpr hsub] at hfalse
      cases hfalse
  | some i =>
    obtain ⟨hi, hisA, hfirst⟩ := List.findIdx?_eq_some_iff_getElem.mp hindex
    have hget : l[i]? = some l[i] := List.getElem?_eq_getElem hi
    simp only [hget, Option.bind_some]
    refine .inr ⟨l[i], _, ?_, rfl, List.getElem_mem hi, types.isA_iff.mp hisA, fun hlt => ?_⟩
    · refine List.find?_eq_some_iff_getElem.mpr ⟨hisA, i, hi, rfl, fun j hj => ?_⟩
      simpa using hfirst j hj
    · have hsplit : l = l.take i ++ l[i] :: l.drop (i + 1) := by
        rw [List.cons_getElem_drop_succ, List.take_append_drop]
      have hlength : (l.take i).length = i := by simp [hi.le]
      refine h.reorder hl ?_ (fun y hy => ?_) ((h.sorted x l hl).access hnodup hget hlt)
      · have hperm := updateSortedArray_perm
          (Function.update s.getObjectCount l[i] (s.getObjectCount l[i] + 1)) (l.take i) l[i]
          (l.drop (i + 1))
        rwa [hlength, ← hsplit] at hperm
      · exact Function.update_of_ne (fun heq : y = l[i] => hy (heq ▸ List.getElem_mem hi)) _ _

/-! ## Merged arrays -/

omit [DecidableEq ω] in
theorem mergeArrays_perm (s : Objects ω) (own other : List ω) :
    (s.mergeArrays own other).Perm (own ++ other) := by
  induction other generalizing own with
  | nil => simp [mergeArrays]
  | cons x other ih =>
    have hperm := updateSortedArray_perm s.getObjectCount own x []
    have hrest := (ih (updateSortedArray s.getObjectCount (own ++ [x]) own.length)).trans
      (hperm.append_right other)
    rwa [List.append_assoc, List.singleton_append] at hrest

omit [DecidableEq ω] in
theorem mergeArrays_sorted (s : Objects ω) {own : List ω} (h : SortedBy s.getObjectCount own)
    (other : List ω) : SortedBy s.getObjectCount (s.mergeArrays own other) := by
  induction other generalizing own with
  | nil => exact h
  | cons x other ih =>
    have hown : SortedBy s.getObjectCount (own ++ []) := by rwa [List.append_nil]
    exact ih (hown.updateSortedArray (x := x) (by simp))

/-- All objects of both arrays share a new one. -/
def merge (s : Objects ω) (x o : ω) (array : List ω) : Objects ω :=
  { s with
    aggregates := fun current => if current ∈ array then .merged s.allocated else s.aggregates current
    buffer := Function.update s.buffer (.merged s.allocated) (some array)
    allocated := s.allocated + 1
    aggregated := s.aggregated ++ [(x, o)] }

section
variable {x o : ω} {array : List ω}

omit [DecidableEq τ] in
theorem Consistent.connected_merge (h : s.Consistent typeId [])
    (hmem : ∀ y, y ∈ array ↔ s.aggregates y = s.aggregates x ∨ s.aggregates y = s.aggregates o)
    (p q : ω) : (s.merge x o array).aggregates p = (s.merge x o array).aggregates q ↔
      Relation.EqvGen (fun p q => (p, q) ∈ (s.merge x o array).aggregated) p q := by
  have hmono : ∀ p q, s.aggregates p = s.aggregates q →
      Relation.EqvGen (fun p q => (p, q) ∈ (s.merge x o array).aggregated) p q := by
    intro p q hpq
    exact ((h.connected p q).mp hpq).mono fun _ _ hin => List.mem_append_left _ hin
  have hx : ∀ p ∈ array, Relation.EqvGen (fun p q => (p, q) ∈ (s.merge x o array).aggregated) p x := by
    intro p hp
    rcases (hmem p).mp hp with hpx | hpo
    · exact hmono p x hpx
    · have hxo : (x, o) ∈ (s.merge x o array).aggregated :=
        List.mem_append_right _ (List.mem_singleton_self _)
      exact (hmono p o hpo).trans _ _ _ (.symm _ _ (.rel x o hxo))
  constructor
  · intro hpq
    simp only [merge] at hpq
    by_cases hp : p ∈ array
    · by_cases hq : q ∈ array
      · exact (hx p hp).trans _ _ _ (.symm _ _ (hx q hq))
      · rw [if_pos hp, if_neg hq] at hpq
        exact absurd (h.allocated q _ hpq.symm) (lt_irrefl _)
    · by_cases hq : q ∈ array
      · rw [if_neg hp, if_pos hq] at hpq
        exact absurd (h.allocated p _ hpq) (lt_irrefl _)
      · rw [if_neg hp, if_neg hq] at hpq
        exact hmono p q hpq
  · intro hpq
    induction hpq with
    | rel p q hin =>
      rcases List.mem_append.mp hin with hin | hin
      · have hsame := (h.connected p q).mpr (.rel p q hin)
        simp only [merge, hmem, hsame]
      · obtain ⟨rfl, rfl⟩ := Prod.mk.inj (List.mem_singleton.mp hin)
        simp only [merge, hmem, true_or, or_true, if_true]
    | refl => rfl
    | symm _ _ _ ih => exact ih.symm
    | trans _ _ _ _ _ ih ih' => exact ih.trans ih'

omit [DecidableEq τ] in
/-- The old arrays are left to the loops. -/
theorem Consistent.merge (h : s.Consistent typeId [])
    (hmem : ∀ y, y ∈ array ↔ s.aggregates y = s.aggregates x ∨ s.aggregates y = s.aggregates o)
    (hnodup : array.Nodup) (hsorted : SortedBy s.getObjectCount array)
    (htypes : ∀ p q, s.aggregates p = s.aggregates x → s.aggregates q = s.aggregates o →
      typeId p ≠ typeId q) :
    (s.merge x o array).Consistent typeId [s.aggregates x, s.aggregates o] := by
  have hne : s.aggregates x ≠ s.aggregates o := fun heq => htypes o o heq.symm rfl rfl
  have hin : ∀ y ∈ array, (s.merge x o array).aggregates y = .merged s.allocated :=
    fun y hy => if_pos hy
  have hout : ∀ y ∉ array, (s.merge x o array).aggregates y = s.aggregates y := fun y hy => if_neg hy
  have hold : ∀ y, s.aggregates y ≠ .merged s.allocated :=
    fun y heq => absurd (h.allocated y _ heq) (lt_irrefl _)
  have hnew : (s.merge x o array).buffer (.merged s.allocated) = some array :=
    Function.update_self _ _ _
  have hkept : ∀ p, p ≠ .merged s.allocated → (s.merge x o array).buffer p = s.buffer p :=
    fun p hp => Function.update_of_ne hp _ _
  have hmembers : ∀ y ∉ array, (s.merge x o array).members y = s.members y := by
    intro y hy
    rw [members, members, hout y hy, hkept _ (hold y)]
  have hmembers' : ∀ y ∈ array, (s.merge x o array).members y = some array := by
    intro y hy
    rw [members, hin y hy, hnew]
  have hsame : ∀ y ∈ array, ∀ z, z ∈ array ↔
      (s.merge x o array).aggregates z = (s.merge x o array).aggregates y := by
    intro y hy z
    rw [hin y hy]
    constructor
    · exact hin z
    · intro hz
      by_contra hzn
      rw [hout z hzn] at hz
      exact hold z hz
  have hnone : ∀ z, (s.merge x o array).aggregates z ≠ s.aggregates x ∧
      (s.merge x o array).aggregates z ≠ s.aggregates o := by
    intro z
    by_cases hz : z ∈ array
    · rw [hin z hz]
      exact ⟨(hold x).symm, (hold o).symm⟩
    · rw [hout z hz]
      exact ⟨fun heq => hz ((hmem z).mpr (.inl heq)), fun heq => hz ((hmem z).mpr (.inr heq))⟩
  refine ⟨fun y => ?_, h.connected_merge hmem, fun y l hl => ?_, fun p q hpq htype => ?_,
    fun y n hy => ?_, ?_, fun p hp => ?_, h.once, h.runs⟩
  · by_cases hy : y ∈ array
    · exact ⟨array, hmembers' y hy, hnodup, hsame y hy⟩
    · obtain ⟨l, hl, hlnodup, hlmem⟩ := h.array y
      refine ⟨l, (hmembers y hy).trans hl, hlnodup, fun z => ?_⟩
      rw [hlmem, hout y hy]
      by_cases hz : z ∈ array
      · rw [hin z hz]
        refine ⟨fun heq => absurd ((hmem y).mpr ?_) hy, fun heq => absurd heq.symm (hold y)⟩
        rw [← heq]
        exact (hmem z).mp hz
      · rw [hout z hz]
  · by_cases hy : y ∈ array
    · rw [hmembers' y hy] at hl
      exact Option.some.inj hl ▸ hsorted
    · rw [hmembers y hy] at hl
      exact h.sorted y l hl
  · by_cases hp : p ∈ array
    · have hq : q ∈ array := (hsame p hp q).mpr hpq.symm
      rcases (hmem p).mp hp with hpx | hpo
      · rcases (hmem q).mp hq with hqx | hqo
        · exact h.distinct p q (hpx.trans hqx.symm) htype
        · exact absurd htype (htypes p q hpx hqo)
      · rcases (hmem q).mp hq with hqx | hqo
        · exact absurd htype.symm (htypes q p hqx hpo)
        · exact h.distinct p q (hpo.trans hqo.symm) htype
    · have hq : q ∉ array := fun hq => hp ((hsame q hq p).mpr hpq)
      rw [hout p hp, hout q hq] at hpq
      exact h.distinct p q hpq htype
  · by_cases hz : y ∈ array
    · rw [hin y hz] at hy
      exact AggregatesPtr.merged.inj hy ▸ Nat.lt_succ_self _
    · rw [hout y hz] at hy
      exact (h.allocated y n hy).trans (Nat.lt_succ_self _)
  · have hwaiting := h.nodup
    rw [List.nil_append] at hwaiting
    refine List.nodup_append'.mpr ⟨by simpa using hne, hwaiting, ?_⟩
    intro p hp hpw
    have hfree := (h.alive p hpw).2.1
    rcases List.mem_cons.mp hp with rfl | hp
    · exact hfree x rfl
    · rw [List.mem_singleton.mp hp] at hfree
      exact hfree o rfl
  · have hptr : ∀ y, p = s.aggregates y → ((s.merge x o array).buffer p).isSome ∧
        ∀ n, p = .merged n → n < s.allocated + 1 := by
      rintro y rfl
      obtain ⟨l, hl, -⟩ := h.array y
      refine ⟨?_, fun n hn => (h.allocated y n hn).trans (Nat.lt_succ_self _)⟩
      rw [hkept _ (hold y)]
      exact Option.isSome_iff_exists.mpr ⟨l, hl⟩
    rcases List.mem_append.mp hp with hp | hp
    · rcases List.mem_cons.mp hp with rfl | hp
      · exact ⟨(hptr x rfl).1, fun z => (hnone z).1, (hptr x rfl).2⟩
      · obtain rfl := List.mem_singleton.mp hp
        exact ⟨(hptr o rfl).1, fun z => (hnone z).2, (hptr o rfl).2⟩
    · obtain ⟨hsome, hfree, hlt⟩ := h.alive p hp
      have hpn : p ≠ .merged s.allocated := fun heq => absurd (hlt _ heq) (lt_irrefl _)
      refine ⟨(hkept p hpn).symm ▸ hsome, fun z => ?_, fun n hn => (hlt n hn).trans (Nat.lt_succ_self _)⟩
      by_cases hz : z ∈ array
      · rw [hin z hz]
        exact hpn.symm
      · rw [hout z hz]
        exact hfree z

end

end Objects

end Ns3Noc
