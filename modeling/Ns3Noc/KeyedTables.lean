import Mathlib

/-!
# Tables with keys

Rows with a key and a value; where no two rows share a key, the row of a key can be replaced or
taken out and all others stay. In a table in the order of its keys, a row is set where its key
belongs.
-/
namespace Ns3Noc.KeyedTables

variable {κ ε : Type*} [DecidableEq κ]

def find (table : List (κ × ε)) (k : κ) : Option ε := (table.find? (·.1 = k)).map Prod.snd

/-- The value of the key is replaced. -/
def put (table : List (κ × ε)) (k : κ) (e : ε) : List (κ × ε) :=
  table.map fun p => if p.1 = k then (k, e) else p

/-- The value of the key is changed. -/
def modify (table : List (κ × ε)) (k : κ) (f : ε → ε) : List (κ × ε) :=
  table.map fun p => if p.1 = k then (k, f p.2) else p

def remove (table : List (κ × ε)) (k : κ) : List (κ × ε) := table.filter (·.1 ≠ k)

/-- Each value is changed, or its row taken out. -/
def filterMap (f : κ → ε → Option ε) (table : List (κ × ε)) : List (κ × ε) :=
  table.filterMap fun p => (f p.1 p.2).map (Prod.mk p.1)

omit [DecidableEq κ] in
theorem keys_filterMap_sublist (f : κ → ε → Option ε) (table : List (κ × ε)) :
    ((filterMap f table).map Prod.fst).Sublist (table.map Prod.fst) := by
  induction table with
  | nil => exact List.Sublist.refl _
  | cons p table ih =>
    rw [filterMap, List.filterMap_cons, List.map_cons]
    cases f p.1 p.2 with
    | none => exact ih.cons p.1
    | some e => exact ih.cons_cons p.1

variable {table : List (κ × ε)} {k : κ} {e : ε}

theorem find_split (h : find table k = some e) :
    ∃ before after, table = before ++ (k, e) :: after ∧ k ∉ before.map Prod.fst := by
  obtain ⟨⟨k', e'⟩, hfind, rfl⟩ := Option.map_eq_some_iff.mp h
  obtain ⟨hkey, before, after, rfl, hbefore⟩ := List.find?_eq_some_iff_append.mp hfind
  obtain rfl := of_decide_eq_true hkey
  refine ⟨before, after, rfl, fun hmem => ?_⟩
  obtain ⟨p, hp, hkey⟩ := List.mem_map.mp hmem
  exact absurd (hbefore p hp) (by simp [hkey])

theorem mem_of_find (h : find table k = some e) : (k, e) ∈ table := by
  obtain ⟨before, after, rfl, -⟩ := find_split h
  exact List.mem_append_right _ List.mem_cons_self

theorem find_eq_none (h : find table k = none) : k ∉ table.map Prod.fst := by
  intro hmem
  obtain ⟨p, hp, hkey⟩ := List.mem_map.mp hmem
  have hnone := List.find?_eq_none.mp (Option.map_eq_none_iff.mp h) p hp
  exact hnone (decide_eq_true hkey)

@[simp] theorem keys_put (table : List (κ × ε)) (k : κ) (e : ε) :
    (put table k e).map Prod.fst = table.map Prod.fst := by
  rw [put, List.map_map]
  apply List.map_congr_left
  intro p _
  by_cases hp : p.1 = k
  · simp [hp]
  · simp [hp]

theorem mem_put {p : κ × ε} (h : p ∈ put table k e) : p = (k, e) ∨ p ∈ table ∧ p.1 ≠ k := by
  obtain ⟨q, hq, rfl⟩ := List.mem_map.mp h
  by_cases hkey : q.1 = k
  · exact .inl (if_pos hkey)
  · rw [if_neg hkey]
    exact .inr ⟨hq, hkey⟩

theorem put_of_not_mem (h : k ∉ table.map Prod.fst) (e : ε) : put table k e = table := by
  conv_rhs => rw [← List.map_id table]
  apply List.map_congr_left
  intro p hp
  have hne : p.1 ≠ k := fun hkey => h (hkey ▸ List.mem_map_of_mem hp)
  exact if_neg hne

theorem remove_of_not_mem (h : k ∉ table.map Prod.fst) : remove table k = table := by
  rw [remove, List.filter_eq_self]
  intro p hp
  exact decide_eq_true fun hkey => h (hkey ▸ List.mem_map_of_mem hp)

theorem find_append_of_not_mem {before after : List (κ × ε)} (h : k ∉ before.map Prod.fst) :
    find (before ++ after) k = find after k := by
  rw [find, List.find?_append, List.find?_eq_none.mpr]
  · rfl
  · intro p hp hkey
    exact h (of_decide_eq_true hkey ▸ List.mem_map_of_mem hp)

/-- The row of a key among the others. -/
theorem split_of_find (hkeys : (table.map Prod.fst).Nodup) (h : find table k = some e) :
    ∃ before after, table = before ++ (k, e) :: after ∧
      (∀ e', put table k e' = before ++ (k, e') :: after) ∧
      (∀ e', find (put table k e') k = some e') ∧ remove table k = before ++ after := by
  obtain ⟨before, after, rfl, hbefore⟩ := find_split h
  have hafter : k ∉ after.map Prod.fst := by
    rw [List.map_append, List.map_cons] at hkeys
    exact (List.nodup_cons.mp (List.nodup_append.mp hkeys).2.1).1
  have hput : ∀ e', put (before ++ (k, e) :: after) k e' = before ++ (k, e') :: after := by
    intro e'
    have hb := put_of_not_mem hbefore e'
    have ha := put_of_not_mem hafter e'
    rw [put] at hb ha ⊢
    rw [List.map_append, List.map_cons, hb, ha, if_pos rfl]
  refine ⟨before, after, rfl, hput, fun e' => ?_, ?_⟩
  · rw [hput, find_append_of_not_mem hbefore]
    simp [find]
  · have hb := remove_of_not_mem hbefore
    have ha := remove_of_not_mem hafter
    rw [remove] at hb ha ⊢
    rw [List.filter_append, List.filter_cons_of_neg (by simp), hb, ha]

/-- Up to their order, the rows are that of the key and others that a change leaves alone. -/
theorem perm_of_find (hkeys : (table.map Prod.fst).Nodup) (h : find table k = some e) :
    ∃ rest, table.Perm ((k, e) :: rest) ∧ (∀ e', (put table k e').Perm ((k, e') :: rest)) ∧
      (remove table k).Perm rest := by
  obtain ⟨before, after, heq, hput, -, hremove⟩ := split_of_find hkeys h
  refine ⟨before ++ after, ?_, fun e' => ?_, ?_⟩
  · rw [heq]
    exact List.perm_middle
  · rw [hput]
    exact List.perm_middle
  · rw [hremove]

theorem find_put_self (hkeys : (table.map Prod.fst).Nodup) (h : find table k = some e) (e' : ε) :
    find (put table k e') k = some e' := by
  obtain ⟨-, -, -, -, hfind, -⟩ := split_of_find hkeys h
  exact hfind e'

theorem find_of_mem (hkeys : (table.map Prod.fst).Nodup) (h : (k, e) ∈ table) :
    find table k = some e := by
  cases hfind : find table k with
  | none => exact absurd (List.mem_map_of_mem h) (find_eq_none hfind)
  | some e' =>
    have heq := List.inj_on_of_nodup_map hkeys h (mem_of_find hfind) rfl
    rw [(Prod.mk.inj heq).2]

theorem find_cons_self (table : List (κ × ε)) (k : κ) (e : ε) :
    find ((k, e) :: table) k = some e := by
  simp [find]

theorem find_cons_of_ne {j : κ} (h : j ≠ k) : find ((k, e) :: table) j = find table j := by
  have hne : decide (k = j) = false := decide_eq_false h.symm
  rw [find, find, List.find?_cons, hne]

theorem find_put_of_ne {j : κ} (h : j ≠ k) (e' : ε) : find (put table k e') j = find table j := by
  induction table with
  | nil => rfl
  | cons p table ih =>
    obtain ⟨i, e⟩ := p
    rw [put] at ih
    by_cases hi : i = k
    · have hne : j ≠ i := fun heq => h (heq.trans hi)
      rw [put, List.map_cons, if_pos hi, find_cons_of_ne h, ih, find_cons_of_ne hne]
    · rw [put, List.map_cons, if_neg hi]
      by_cases hj : j = i
      · subst hj
        simp [find]
      · rw [find_cons_of_ne hj, find_cons_of_ne hj, ih]

theorem mem_modify {f : ε → ε} {p : κ × ε} (h : p ∈ modify table k f) :
    (∃ e, (k, e) ∈ table ∧ p = (k, f e)) ∨ p ∈ table := by
  obtain ⟨q, hq, rfl⟩ := List.mem_map.mp h
  by_cases hkey : q.1 = k
  · rw [if_pos hkey]
    exact .inl ⟨q.2, hkey ▸ hq, rfl⟩
  · rw [if_neg hkey]
    exact .inr hq

@[simp] theorem keys_modify (table : List (κ × ε)) (k : κ) (f : ε → ε) :
    (modify table k f).map Prod.fst = table.map Prod.fst := by
  rw [modify, List.map_map]
  apply List.map_congr_left
  intro p _
  by_cases hp : p.1 = k
  · simp [hp]
  · simp [hp]

theorem find_modify_self (table : List (κ × ε)) (k : κ) (f : ε → ε) :
    find (modify table k f) k = (find table k).map f := by
  induction table with
  | nil => rfl
  | cons p table ih =>
    obtain ⟨i, e⟩ := p
    rw [modify] at ih
    by_cases hi : i = k
    · subst hi
      simp [modify, find]
    · have hne : k ≠ i := fun heq => hi heq.symm
      rw [modify, List.map_cons, if_neg hi, find_cons_of_ne hne, find_cons_of_ne hne, ih]

theorem find_modify_of_ne {j : κ} (h : j ≠ k) (f : ε → ε) :
    find (modify table k f) j = find table j := by
  induction table with
  | nil => rfl
  | cons p table ih =>
    obtain ⟨i, e⟩ := p
    rw [modify] at ih
    by_cases hj : j = i
    · subst hj
      rw [modify, List.map_cons, if_neg h, find_cons_self, find_cons_self]
    · rw [modify, List.map_cons]
      by_cases hi : i = k
      · rw [if_pos hi, find_cons_of_ne h, ih, find_cons_of_ne hj]
      · rw [if_neg hi, find_cons_of_ne hj, find_cons_of_ne hj, ih]

theorem modify_put (table : List (κ × ε)) (k : κ) (e : ε) (f : ε → ε) :
    modify (put table k e) k f = put table k (f e) := by
  rw [modify, put, put, List.map_map]
  apply List.map_congr_left
  intro p _
  by_cases hp : p.1 = k
  · simp [hp]
  · simp [hp]

theorem find_remove_self (table : List (κ × ε)) (k : κ) : find (remove table k) k = none := by
  rw [find, Option.map_eq_none_iff, List.find?_eq_none]
  intro p hp hkey
  exact of_decide_eq_true (List.mem_filter.mp hp).2 (of_decide_eq_true hkey)

theorem not_mem_keys_remove (table : List (κ × ε)) (k : κ) : k ∉ (remove table k).map Prod.fst := by
  intro hmem
  obtain ⟨p, hp, hkey⟩ := List.mem_map.mp hmem
  exact of_decide_eq_true (List.mem_filter.mp hp).2 hkey

theorem find_remove_of_ne {j : κ} (h : j ≠ k) : find (remove table k) j = find table j := by
  rw [find, find, remove, List.find?_filter]
  congr 2
  funext p
  by_cases hp : p.1 = j
  · simp [hp, h]
  · simp [hp]

theorem mem_remove {p : κ × ε} (h : p ∈ remove table k) : p ∈ table := (List.mem_filter.mp h).1

theorem keys_remove_nodup (hkeys : (table.map Prod.fst).Nodup) (k : κ) :
    ((remove table k).map Prod.fst).Nodup :=
  hkeys.sublist (List.filter_sublist.map Prod.fst)

theorem put_find (hkeys : (table.map Prod.fst).Nodup) (h : find table k = some e) :
    put table k e = table := by
  obtain ⟨before, after, heq, hput, -, -⟩ := split_of_find hkeys h
  rw [hput, heq]

theorem put_put (table : List (κ × ε)) (k : κ) (e e' : ε) :
    put (put table k e) k e' = put table k e' := by
  rw [put, put, put, List.map_map]
  apply List.map_congr_left
  intro p _
  by_cases hp : p.1 = k
  · simp [hp]
  · simp [hp]

end Ns3Noc.KeyedTables

/-!
## Lists whose elements have keys

Lookups by a key that no two elements share, and sums over groups of elements.
-/
namespace Ns3Noc.KeyedLists

variable {α β κ M : Type*}

theorem find?_key [DecidableEq κ] (key : α → κ) {l : List α} (hkeys : (l.map key).Nodup) {x : α}
    (hx : x ∈ l) : l.find? (fun y => key y = key x) = some x := by
  induction l with
  | nil => exact absurd hx List.not_mem_nil
  | cons y l ih =>
    obtain ⟨hy, hkeys⟩ := List.nodup_cons.mp hkeys
    rcases List.mem_cons.mp hx with rfl | hx
    · simp
    · have hne : key y ≠ key x := fun h => hy (h ▸ List.mem_map_of_mem hx)
      rw [List.find?_cons_of_neg (by simpa using hne)]
      exact ih hkeys hx

theorem sum_filter [AddCommMonoid M] (p : α → Prop) [DecidablePred p] (f : α → M) (l : List α) :
    ((l.filter (fun x => p x)).map f).sum = (l.map (fun x => if p x then f x else 0)).sum := by
  induction l with
  | nil => rfl
  | cons x l ih =>
    by_cases hx : p x
    · simp [hx, ih]
    · simp [hx, ih]

/-- Groups for distinct keys make up all elements that have one of the keys. -/
theorem sum_grouped [AddCommMonoid M] [DecidableEq κ] (key : α → κ) (f : α → M) (l : List α)
    {keys : List κ} (hkeys : keys.Nodup) :
    ((keys.flatMap (fun k => l.filter (fun x => key x = k))).map f).sum =
      (l.map (fun x => if key x ∈ keys then f x else 0)).sum := by
  induction keys with
  | nil => simp
  | cons k keys ih =>
    obtain ⟨hk, hkeys⟩ := List.nodup_cons.mp hkeys
    rw [List.flatMap_cons, List.map_append, List.sum_append, ih hkeys, sum_filter,
      ← List.sum_map_add]
    congr 2
    funext x
    by_cases hx : key x = k
    · simp [hx, hk]
    · simp [hx]

/-- A sum where every summand has exactly one owner. -/
theorem sum_owned [AddCommMonoid M] (owns : β → α → Prop) [∀ b x, Decidable (owns b x)]
    (f : α → M) {owners : List β} (howners : owners.Nodup) {l : List α}
    (h : ∀ x ∈ l, ∃ b ∈ owners, ∀ b' ∈ owners, owns b' x ↔ b' = b) :
    (owners.map (fun b => (l.map (fun x => if owns b x then f x else 0)).sum)).sum =
      (l.map f).sum := by
  induction l with
  | nil => simp
  | cons x l ih =>
    obtain ⟨b, hb, hiff⟩ := h x List.mem_cons_self
    have hshare : (owners.map (fun b' => if owns b' x then f x else 0)).sum = f x := by
      classical
      rw [List.sum_map_eq_nsmul_single b _
          (fun b' hne hb' => if_neg (fun h => hne ((hiff b' hb').mp h))),
        if_pos ((hiff b hb).mpr rfl), List.count_eq_one_of_mem howners hb, one_nsmul]
    simp only [List.map_cons, List.sum_cons, List.sum_map_add]
    rw [hshare, ih (fun y hy => h y (List.mem_cons_of_mem x hy))]

end Ns3Noc.KeyedLists

namespace Ns3Noc.OrderedTables

open KeyedTables

variable {κ ε : Type*} [LinearOrder κ]

/-- The row of the key, replaced or added -/
def set : List (κ × ε) → κ → ε → List (κ × ε)
  | [], k, e => [(k, e)]
  | (j, d) :: rows, k, e =>
    if k < j then (k, e) :: (j, d) :: rows
    else if k = j then (k, e) :: rows
    else (j, d) :: set rows k e

variable {rows : List (κ × ε)} {k : κ} {e : ε}

@[simp] theorem find_set_self (rows : List (κ × ε)) (k : κ) (e : ε) :
    find (set rows k e) k = some e := by
  induction rows with
  | nil => simp [set, find]
  | cons row rows ih =>
    obtain ⟨j, d⟩ := row
    rw [set]
    by_cases hlt : k < j
    · rw [if_pos hlt, find_cons_self]
    rw [if_neg hlt]
    by_cases heq : k = j
    · rw [if_pos heq, find_cons_self]
    · rw [if_neg heq, find_cons_of_ne heq, ih]

theorem find_set_of_ne {i : κ} (h : i ≠ k) (rows : List (κ × ε)) (e : ε) :
    find (set rows k e) i = find rows i := by
  induction rows with
  | nil => simp [set, find, h.symm]
  | cons row rows ih =>
    obtain ⟨j, d⟩ := row
    rw [set]
    by_cases hlt : k < j
    · rw [if_pos hlt, find_cons_of_ne h]
    rw [if_neg hlt]
    by_cases heq : k = j
    · subst heq
      rw [if_pos rfl, find_cons_of_ne h, find_cons_of_ne h]
    rw [if_neg heq]
    by_cases hi : i = j
    · subst hi
      rw [find_cons_self, find_cons_self]
    · rw [find_cons_of_ne hi, find_cons_of_ne hi, ih]

theorem find_remove_self (rows : List (κ × ε)) (k : κ) : find (remove rows k) k = none := by
  rw [find, Option.map_eq_none_iff, List.find?_eq_none]
  intro row hmem hkey
  have hne : row.1 ≠ k := by simpa [remove] using (List.mem_filter.mp hmem).2
  exact hne (of_decide_eq_true hkey)

theorem find_remove_of_ne {i : κ} (h : i ≠ k) (rows : List (κ × ε)) :
    find (remove rows k) i = find rows i := by
  induction rows with
  | nil => rfl
  | cons row rows ih =>
    obtain ⟨j, d⟩ := row
    rw [remove] at ih ⊢
    by_cases hj : j = k
    · have hij : i ≠ j := fun hi => h (hi.trans hj)
      rw [List.filter_cons_of_neg (by simp [hj]), ih, find_cons_of_ne hij]
    · rw [List.filter_cons_of_pos (by simp [hj])]
      by_cases hi : i = j
      · subst hi
        rw [find_cons_self, find_cons_self]
      · rw [find_cons_of_ne hi, find_cons_of_ne hi, ih]

/-- Values are changed where they are. -/
theorem find_map_snd (f : κ → ε → ε) (rows : List (κ × ε)) (k : κ) :
    find (rows.map fun row => (row.1, f row.1 row.2)) k = (find rows k).map (f k) := by
  induction rows with
  | nil => rfl
  | cons row rows ih =>
    obtain ⟨j, d⟩ := row
    rw [List.map_cons]
    by_cases hk : k = j
    · subst hk
      rw [find_cons_self, find_cons_self, Option.map_some]
    · rw [find_cons_of_ne hk, find_cons_of_ne hk, ih]

end Ns3Noc.OrderedTables
