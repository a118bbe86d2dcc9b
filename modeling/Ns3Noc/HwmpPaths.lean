import Ns3Noc.HwmpRtable

/-!
# Where HWMP has no path

A destination without a path gets one only when a path is added. Expiry, deletion and precursors
never give one.
-/
namespace Ns3Noc.Hwmp

open KeyedTables

namespace ReactiveRoute

def Expired (route : ReactiveRoute) (now : ℕ) : Prop := route.whenExpire < now ∧ route.whenExpire ≠ 0

theorem Expired.mono {route : ReactiveRoute} {now now' : ℕ} (h : route.Expired now)
    (hle : now ≤ now') : route.Expired now' :=
  ⟨lt_of_lt_of_le h.1 hle, h.2⟩

end ReactiveRoute

namespace HwmpRtable

theorem lookupReactive_eq_none_iff {t : HwmpRtable} {now : ℕ} {d : Address} :
    (t.lookupReactive now d).retransmitter = none ↔
      ∀ route, find t.routes d = some route → route.Expired now := by
  rw [lookupReactive]
  cases h : find t.routes d with
  | none => simp [LookupResult.empty]
  | some route =>
    by_cases hexp : route.whenExpire < now ∧ route.whenExpire ≠ 0
    · have hold : route.Expired now := hexp
      simp [hexp, LookupResult.empty, hold]
    · have hfresh : ¬ route.Expired now := hexp
      simp [hexp, lookupReactiveExpired, h, hfresh]

theorem lookupProactive_eq_none_iff {t : HwmpRtable} {now : ℕ} :
    (t.lookupProactive now).retransmitter = none ↔
      t.root.retransmitter = none ∨ t.root.whenExpire < now := by
  rw [lookupProactive, expireProactive]
  by_cases hexp : t.root.whenExpire < now
  · rw [if_pos hexp]
    simp [deleteProactivePath, lookupProactiveExpired, hexp]
  · rw [if_neg hexp]
    simp [lookupProactiveExpired, hexp]

/-- Neither a reactive path nor one to the root is known. -/
def Unresolved (t : HwmpRtable) (now : ℕ) (d : Address) : Prop :=
  (t.lookupReactive now d).retransmitter = none ∧ (t.lookupProactive now).retransmitter = none

instance (t : HwmpRtable) (now : ℕ) (d : Address) : Decidable (t.Unresolved now d) :=
  inferInstanceAs (Decidable (_ ∧ _))

variable {t t' : HwmpRtable} {now now' : ℕ} {d : Address}

theorem Unresolved.mono (h : t.Unresolved now d) (hle : now ≤ now') : t.Unresolved now' d := by
  obtain ⟨hreactive, hproactive⟩ := h
  rw [lookupReactive_eq_none_iff] at hreactive
  rw [lookupProactive_eq_none_iff] at hproactive
  constructor
  · rw [lookupReactive_eq_none_iff]
    intro route hfind
    exact (hreactive route hfind).mono hle
  · rw [lookupProactive_eq_none_iff]
    exact hproactive.imp_right fun hexp => lt_of_lt_of_le hexp hle

/-- Every path of the second table is one of the first, up to its precursors and its number. -/
structure Offers (t t' : HwmpRtable) (now : ℕ) : Prop where
  routes : ∀ d route', find t'.routes d = some route' →
    ∃ route, find t.routes d = some route ∧ route.whenExpire = route'.whenExpire
  root : t'.root.retransmitter = none ∨
    t.root.retransmitter = t'.root.retransmitter ∧ t.root.whenExpire = t'.root.whenExpire

namespace Offers

theorem refl (t : HwmpRtable) (now : ℕ) : Offers t t now :=
  ⟨fun _ route' h => ⟨route', h, rfl⟩, .inr ⟨rfl, rfl⟩⟩

theorem trans {t'' : HwmpRtable} (h : Offers t t' now) (h' : Offers t' t'' now) :
    Offers t t'' now := by
  constructor
  · intro d route'' hfind
    obtain ⟨route', hfind', hexp'⟩ := h'.routes d route'' hfind
    obtain ⟨route, hfind, hexp⟩ := h.routes d route' hfind'
    exact ⟨route, hfind, hexp.trans hexp'⟩
  · obtain hnone | ⟨hre', hexp'⟩ := h'.root
    · exact .inl hnone
    obtain hnone | ⟨hre, hexp⟩ := h.root
    · exact .inl (hre' ▸ hnone)
    · exact .inr ⟨hre.trans hre', hexp.trans hexp'⟩

theorem unresolved (h : Offers t t' now) (hun : t.Unresolved now d) : t'.Unresolved now d := by
  obtain ⟨hreactive, hproactive⟩ := hun
  rw [lookupReactive_eq_none_iff] at hreactive
  rw [lookupProactive_eq_none_iff] at hproactive
  constructor
  · rw [lookupReactive_eq_none_iff]
    intro route' hfind'
    obtain ⟨route, hfind, hexp⟩ := h.routes d route' hfind'
    have hold := hreactive route hfind
    rw [ReactiveRoute.Expired, hexp] at hold
    exact hold
  · rw [lookupProactive_eq_none_iff]
    obtain hnone | ⟨hre, hexp⟩ := h.root
    · exact .inl hnone
    · rw [← hre, ← hexp]
      exact hproactive

end Offers

theorem offers_addPrecursor (t : HwmpRtable) (now : ℕ) (d : Address) (interface : ℕ)
    (address : Address) (lifetime : ℤ) :
    Offers t (t.addPrecursor now d interface address lifetime) now := by
  rw [addPrecursor]
  cases h : find t.routes d with
  | none => exact .refl t now
  | some route =>
    refine ⟨fun i route' hfind => ?_, .inr ⟨rfl, rfl⟩⟩
    by_cases hi : i = d
    · subst hi
      obtain rfl := Option.some.inj ((OrderedTables.find_set_self _ _ _).symm.trans hfind)
      exact ⟨route, h, rfl⟩
    · exact ⟨route', (OrderedTables.find_set_of_ne hi _ _).symm.trans hfind, rfl⟩

theorem offers_deleteReactivePath (t : HwmpRtable) (now : ℕ) (d : Address) :
    Offers t (t.deleteReactivePath d) now := by
  refine ⟨fun i route' hfind => ?_, .inr ⟨rfl, rfl⟩⟩
  by_cases hi : i = d
  · subst hi
    exact nomatch (OrderedTables.find_remove_self t.routes i).symm.trans hfind
  · exact ⟨route', (OrderedTables.find_remove_of_ne hi t.routes).symm.trans hfind, rfl⟩

theorem offers_deleteProactivePath (t : HwmpRtable) (now : ℕ) :
    Offers t (t.deleteProactivePath now) now :=
  ⟨fun _ route' h => ⟨route', h, rfl⟩, .inl rfl⟩

theorem offers_deleteProactivePathTo (t : HwmpRtable) (now : ℕ) (root : Address) :
    Offers t (t.deleteProactivePathTo now root) now := by
  rw [deleteProactivePathTo]
  split
  · exact offers_deleteProactivePath t now
  · exact .refl t now

theorem offers_expireProactive (t : HwmpRtable) (now : ℕ) :
    Offers t (t.expireProactive now) now := by
  rw [expireProactive]
  split
  · exact offers_deleteProactivePath t now
  · exact .refl t now

theorem offers_getUnreachableDestinations (t : HwmpRtable) (now : ℕ) (peer : Address) :
    Offers t (t.getUnreachableDestinations peer).2 now := by
  refine ⟨fun d route' hfind => ?_, .inr ⟨rfl, rfl⟩⟩
  have hmap := OrderedTables.find_map_snd (fun _ (route : ReactiveRoute) =>
    if route.retransmitter = peer then { route with seqnum := uint32 (route.seqnum + 1) }
    else route) t.routes d
  obtain ⟨route, hroute, hvalue⟩ := Option.map_eq_some_iff.mp (hmap.symm.trans hfind)
  refine ⟨route, hroute, ?_⟩
  rw [← hvalue]
  split
  · rfl
  · rfl

theorem offers_foldl {ι : Type*} {f : HwmpRtable → ι → HwmpRtable}
    (hf : ∀ t i, Offers t (f t i) now) (t : HwmpRtable) (is : List ι) :
    Offers t (is.foldl f t) now := by
  induction is generalizing t with
  | nil => exact .refl t now
  | cons i is ih => exact (hf t i).trans (ih (f t i))

/-- The path that is added is the only new one. -/
theorem Unresolved.addReactivePath {i : Address} (h : t.Unresolved now i) (hne : i ≠ d)
    (retransmitter : Address) (interface metric lifetime seqnum : ℕ) :
    (t.addReactivePath now d retransmitter interface metric lifetime seqnum).Unresolved now i := by
  obtain ⟨hreactive, hproactive⟩ := h
  rw [lookupReactive_eq_none_iff] at hreactive
  rw [lookupProactive_eq_none_iff] at hproactive
  constructor
  · rw [lookupReactive_eq_none_iff]
    intro route hfind
    exact hreactive route ((OrderedTables.find_set_of_ne hne _ _).symm.trans hfind)
  · rw [lookupProactive_eq_none_iff]
    exact hproactive

end HwmpRtable

end Ns3Noc.Hwmp
