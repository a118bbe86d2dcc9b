import Ns3Noc.NameCalls

/-!
# Runs of the name service

Every sequence of calls builds a tree, and each call does what it should exactly where its parent exists
or the root would refuse it as well.
-/
namespace Ns3Noc

open KeyedTables PartialRuns

namespace NamesPriv

variable {ο : Type} [DecidableEq ο] {s : NamesPriv ο} {path : List Str} {name newname : Str}

theorem IsTree.addInPath (h : s.IsTree) (path : List Str) (hname : IsName name) (object : ο) :
    ∃ r, s.addInContext (s.resolve path) name object = some r ∧ r.2.IsTree ∧
      (s.Adds (· = path ++ [name]) object r ↔
        (¬s.ParentExists (path ++ [name]) → (s.isNamed object).isSome ∨ s.Taken [name])) := by
  rcases h.resolve path with hnode | ⟨hnone, hmissing⟩
  · obtain ⟨r, hr, htree, hadds⟩ := h.addInContext hnode hname object
    have hparent : s.ParentExists (path ++ [name]) := parentExists_concat.mpr ⟨_, hnode⟩
    exact ⟨r, hr, htree, fun _ hno => absurd hparent hno, fun _ => hadds⟩
  · rw [hnone]
    obtain ⟨r, hr, htree, hadds⟩ := h.addInContext .root hname object
    have hroot : s.ParentExists [name] := ⟨none, .root⟩
    have hno : ¬s.ParentExists (path ++ [name]) := fun hparent => by
      obtain ⟨node, hnode⟩ := parentExists_concat.mp hparent
      exact hmissing node hnode
    have hsucceeds : r.1 = true ↔ s.isNamed object = none ∧ ¬s.Taken [name] := by
      rw [hadds.succeeds]
      simp [hroot]
    refine ⟨r, hr, htree, fun hpath _ => ?_, fun hsound => ?_⟩
    · have hfails : ¬r.1 = true := fun hok => by
        obtain ⟨-, _, rfl, hparent, -⟩ := hpath.succeeds.mp hok
        exact hno hparent
      rw [hsucceeds] at hfails
      by_cases hnamed : s.isNamed object = none
      · exact .inr (not_not.mp fun htaken => hfails ⟨hnamed, htaken⟩)
      · exact .inl (Option.isSome_iff_ne_none.mpr hnamed)
    · have hfails : ¬r.1 = true := by
        rw [hsucceeds]
        rintro ⟨hnamed, htaken⟩
        rcases hsound hno with hsome | hroot
        · rw [hnamed] at hsome
          cases hsome
        · exact htaken hroot
      refine ⟨⟨fun hok => absurd hok hfails, ?_⟩, hadds.unchanged, fun hok => absurd hok hfails⟩
      rintro ⟨-, _, rfl, hparent, -⟩
      exact absurd hparent hno

theorem IsTree.renameInPath (h : s.IsTree) (path : List Str) (name : Str) (hname : IsName newname) :
    ∃ r, s.renameInContext (s.resolve path) name newname = some r ∧ r.2.IsTree ∧
      (s.Renames (· = path ++ [name]) newname r ↔
        (¬s.ParentExists (path ++ [name]) → s.Taken [newname] ∨ ¬s.Taken [name])) := by
  rcases h.resolve path with hnode | ⟨hnone, hmissing⟩
  · obtain ⟨r, hr, htree, hrenames⟩ := h.renameInContext hnode name hname
    have hparent : s.ParentExists (path ++ [name]) := parentExists_concat.mpr ⟨_, hnode⟩
    exact ⟨r, hr, htree, fun _ hno => absurd hparent hno, fun _ => hrenames⟩
  · rw [hnone]
    obtain ⟨r, hr, htree, hrenames⟩ := h.renameInContext .root name hname
    have hno : ¬s.ParentExists (path ++ [name]) := fun hparent => by
      obtain ⟨node, hnode⟩ := parentExists_concat.mp hparent
      exact hmissing node hnode
    have hfree : ¬s.Taken (path ++ [name]) := fun ⟨object, hobject⟩ => by
      obtain ⟨_, parent, -, -, hparent⟩ := hobject.of_concat
      exact hmissing parent hparent
    have hsucceeds : r.1 = true ↔ s.Taken [name] ∧ ¬s.Taken [newname] := by
      rw [hrenames.succeeds]
      simp
    refine ⟨r, hr, htree, fun hpath _ => ?_, fun hsound => ?_⟩
    · have hfails : ¬r.1 = true := fun hok => by
        obtain ⟨_, rfl, htaken, -⟩ := hpath.succeeds.mp hok
        exact hfree htaken
      rw [hsucceeds] at hfails
      by_cases htaken : s.Taken [name]
      · exact .inl (not_not.mp fun hnew => hfails ⟨htaken, hnew⟩)
      · exact .inr htaken
    · have hfails : ¬r.1 = true := by
        rw [hsucceeds]
        rintro ⟨htaken, hnew⟩
        rcases hsound hno with hnew' | htaken'
        · exact hnew hnew'
        · exact htaken' htaken
      refine ⟨⟨fun hok => absurd hok hfails, ?_⟩, hrenames.unchanged, fun hok => absurd hok hfails⟩
      rintro ⟨_, rfl, htaken, -⟩
      exact absurd htaken hfree

theorem IsTree.findInContext_iff (h : s.IsTree) {context : Option ο} (hcontext : s.At context path)
    (name : Str) (object : ο) :
    s.findInContext context name = some object ↔ s.At (some object) (path ++ [name]) := by
  rw [findInContext, nodeOf_eq hcontext, Option.bind_some]
  exact h.at_child hcontext name object

theorem IsTree.findInPath (h : s.IsTree) (path : List Str) (name : Str) :
    s.Finds (· = path ++ [name]) (s.findInContext (s.resolve path) name) ↔
      (¬s.ParentExists (path ++ [name]) → ¬s.Taken [name]) := by
  rcases h.resolve path with hnode | ⟨hnone, hmissing⟩
  · have hparent : s.ParentExists (path ++ [name]) := parentExists_concat.mpr ⟨_, hnode⟩
    refine ⟨fun _ hno => absurd hparent hno, fun _ object => ?_⟩
    rw [h.findInContext_iff hnode]
    simp
  · have hno : ¬s.ParentExists (path ++ [name]) := fun hparent => by
      obtain ⟨node, hnode⟩ := parentExists_concat.mp hparent
      exact hmissing node hnode
    have hfree : ∀ object, ¬s.At (some object) (path ++ [name]) := fun object hobject => by
      obtain ⟨_, parent, -, -, hparent⟩ := hobject.of_concat
      exact hmissing parent hparent
    rw [hnone]
    constructor
    · rintro hfinds - ⟨object, hobject⟩
      obtain ⟨_, rfl, hfound⟩ := (hfinds object).mp ((h.findInContext_iff .root name object).mpr hobject)
      exact hfree object hfound
    · intro hsound object
      rw [h.findInContext_iff .root]
      refine ⟨fun hobject => absurd ⟨object, hobject⟩ (hsound hno), ?_⟩
      rintro ⟨_, rfl, hfound⟩
      exact absurd hfound (hfree object)

/-! ## All forms of a call -/

theorem at_of_contextNamed (h : s.IsTree) {context : Option ο}
    (hnamed : s.ContextNamed (.inContext context name)) : ∃ path, s.At context path := by
  cases context with
  | none => exact ⟨[], .root⟩
  | some object =>
    obtain ⟨node, hnode⟩ := Option.isSome_iff_exists.mp hnamed
    obtain ⟨path, hpath, -⟩ := h.exists_at hnode
    exact ⟨path, hpath⟩

theorem designates_inContext {context : Option ο} (hcontext : s.At context path) :
    (s.Designates · (.inContext context name)) = (· = path ++ [name]) := by
  funext path'
  apply propext
  constructor
  · rintro ⟨parent, hparent, rfl⟩
    rw [hparent.unique hcontext]
  · rintro rfl
    exact ⟨path, hcontext, rfl⟩

/-- The last name of a path and what comes before it -/
theorem exists_concat {segments : List Str} (h : segments ≠ []) :
    ∃ path name, segments = path ++ [name] :=
  ⟨segments.dropLast, segments.getLast h, (List.dropLast_append_getLast h).symm⟩

theorem sound_add {address : NameAddress ο} {object : ο}
    (h : address.path? = some (path ++ [name])) : s.Sound (.add address object) ↔
      (¬s.ParentExists (path ++ [name]) → (s.isNamed object).isSome ∨ s.Taken [name]) := by
  refine ⟨fun hsound => hsound path name h, fun hsound path' name' h' => ?_⟩
  rw [h, Option.some.injEq] at h'
  obtain ⟨rfl, rfl⟩ : path = path' ∧ name = name' := by simpa using List.append_inj' h' rfl
  exact hsound

theorem sound_rename {address : NameAddress ο} (h : address.path? = some (path ++ [name])) :
    s.Sound (.rename address newname) ↔
      (¬s.ParentExists (path ++ [name]) → s.Taken [newname] ∨ ¬s.Taken [name]) := by
  refine ⟨fun hsound => hsound path name h, fun hsound path' name' h' => ?_⟩
  rw [h, Option.some.injEq] at h'
  obtain ⟨rfl, rfl⟩ : path = path' ∧ name = name' := by simpa using List.append_inj' h' rfl
  exact hsound

theorem IsTree.addAt (h : s.IsTree) (object : ο) {address : NameAddress ο}
    (hformed : address.WellFormed) (hnamed : s.ContextNamed address) :
    ∃ r, s.addAt object address = some r ∧ r.2.IsTree ∧
      (s.Adds (s.Designates · address) object r ↔ s.Sound (.add address object)) := by
  cases address with
  | whole rooted segments =>
    obtain ⟨path, name, rfl⟩ := exists_concat hformed.1
    obtain ⟨r, hr, htree, hiff⟩ := h.addInPath path (hformed.2 name (by simp)) object
    have hpath : ∀ segment ∈ path, IsName segment :=
      fun segment hsegment => hformed.2 segment (List.mem_append_left _ hsegment)
    refine ⟨r, ?_, htree, hiff.trans (sound_add rfl).symm⟩
    rw [NamesPriv.addAt, add, splitName_pathString rooted hformed.2, Option.bind_some,
      addInPath_eq true hpath, hr]
  | inPath rooted path name =>
    obtain ⟨r, hr, htree, hiff⟩ := h.addInPath path (hformed.2 name (by simp)) object
    have hpath : ∀ segment ∈ path, IsName segment :=
      fun segment hsegment => hformed.2 segment (List.mem_append_left _ hsegment)
    refine ⟨r, ?_, htree, hiff.trans (sound_add rfl).symm⟩
    rw [NamesPriv.addAt, addInPath_eq rooted hpath, hr]
  | inContext context name =>
    obtain ⟨path, hcontext⟩ := at_of_contextNamed h hnamed
    obtain ⟨r, hr, htree, hadds⟩ := h.addInContext hcontext hformed object
    rw [designates_inContext hcontext]
    exact ⟨r, hr, htree, fun _ _ _ hpath => (nomatch hpath), fun _ => hadds⟩

theorem IsTree.renameAt (h : s.IsTree) (hname : IsName newname) {address : NameAddress ο}
    (hformed : address.WellFormed) (hnamed : s.ContextNamed address) :
    ∃ r, s.renameAt newname address = some r ∧ r.2.IsTree ∧
      (s.Renames (s.Designates · address) newname r ↔ s.Sound (.rename address newname)) := by
  cases address with
  | whole rooted segments =>
    obtain ⟨path, name, rfl⟩ := exists_concat hformed.1
    obtain ⟨r, hr, htree, hiff⟩ := h.renameInPath path name hname
    have hpath : ∀ segment ∈ path, IsName segment :=
      fun segment hsegment => hformed.2 segment (List.mem_append_left _ hsegment)
    refine ⟨r, ?_, htree, hiff.trans (sound_rename rfl).symm⟩
    rw [NamesPriv.renameAt, rename, splitName_pathString rooted hformed.2, Option.bind_some,
      renameInPath_eq true hpath, hr]
  | inPath rooted path name =>
    obtain ⟨r, hr, htree, hiff⟩ := h.renameInPath path name hname
    have hpath : ∀ segment ∈ path, IsName segment :=
      fun segment hsegment => hformed.2 segment (List.mem_append_left _ hsegment)
    refine ⟨r, ?_, htree, hiff.trans (sound_rename rfl).symm⟩
    rw [NamesPriv.renameAt, renameInPath_eq rooted hpath, hr]
  | inContext context name =>
    obtain ⟨path, hcontext⟩ := at_of_contextNamed h hnamed
    obtain ⟨r, hr, htree, hrenames⟩ := h.renameInContext hcontext name hname
    rw [designates_inContext hcontext]
    exact ⟨r, hr, htree, fun _ _ _ hpath => (nomatch hpath), fun _ => hrenames⟩

theorem IsTree.findAt (h : s.IsTree) {address : NameAddress ο} (hformed : address.WellFormed) :
    s.Finds (s.Designates · address) (s.findAt address) ↔ s.Sound (.find address) := by
  cases address with
  | whole rooted segments =>
    refine ⟨fun _ => True.intro, fun _ object => ?_⟩
    rw [NamesPriv.findAt, h.find_iff rooted hformed.1 hformed.2]
    simp [Designates]
  | inPath rooted path name =>
    have hpath : ∀ segment ∈ path, IsName segment :=
      fun segment hsegment => hformed.2 segment (List.mem_append_left _ hsegment)
    rw [NamesPriv.findAt, findInPath_eq rooted hpath]
    exact h.findInPath path name
  | inContext context name =>
    refine ⟨fun _ => True.intro, fun _ object => ?_⟩
    rw [NamesPriv.findAt]
    by_cases hnamed : s.ContextNamed (.inContext context name)
    · obtain ⟨path, hcontext⟩ := at_of_contextNamed h hnamed
      rw [h.findInContext_iff hcontext]
      have hplaces : ∀ path', s.Designates path' (.inContext context name) =
          (path' = path ++ [name]) := congrFun (designates_inContext hcontext)
      simp only [hplaces, exists_eq_left]
    · cases context with
      | none => exact absurd True.intro hnamed
      | some c =>
        have hnone : s.isNamed c = none := Option.not_isSome_iff_eq_none.mp hnamed
        rw [findInContext, nodeOf, hnone]
        refine ⟨(fun heq => by cases heq), ?_⟩
        rintro ⟨_, ⟨parent, hparent, -⟩, -⟩
        obtain ⟨node, hnode⟩ := hparent.isNamed
        rw [hnone] at hnode
        cases hnode

theorem IsTree.meets_iff_sound (h : s.IsTree) {c : NamesCall ο} (hlegal : s.Legal c) :
    s.Meets c ↔ s.Sound c := by
  cases c with
  | add address object =>
    obtain ⟨r, hr, -, hiff⟩ := h.addAt object hlegal.1 hlegal.2
    simp only [Meets, hr, Option.some.injEq, exists_eq_left', hiff]
  | rename address newname =>
    obtain ⟨r, hr, -, hiff⟩ := h.renameAt hlegal.2.1 hlegal.1 hlegal.2.2
    simp only [Meets, hr, Option.some.injEq, exists_eq_left', hiff]
  | find address => exact h.findAt hlegal

theorem IsTree.step (h : s.IsTree) {c : NamesCall ο} (hlegal : s.Legal c) :
    ∃ s', s.step c = some s' ∧ s'.IsTree := by
  cases c with
  | add address object =>
    obtain ⟨r, hr, htree, -⟩ := h.addAt object hlegal.1 hlegal.2
    exact ⟨r.2, by rw [NamesPriv.step, call, hr]; rfl, htree⟩
  | rename address newname =>
    obtain ⟨r, hr, htree, -⟩ := h.renameAt hlegal.2.1 hlegal.1 hlegal.2.2
    exact ⟨r.2, by rw [NamesPriv.step, call, hr]; rfl, htree⟩
  | find address => exact ⟨s, rfl, h⟩

/-- Each object has one place, siblings have different names, and the path of an object finds it. -/
structure WellNamed (s : NamesPriv ο) : Prop where
  once : ∀ node node' name name' object, s.nameMap node name = some object →
    s.nameMap node' name' = some object → node = node' ∧ name = name'
  siblings : ∀ object object' node, s.isNamed object = some node →
    s.isNamed object' = some node → object = object'
  found : ∀ object, (s.isNamed object).isSome →
    ∃ path, s.findPath object = some path ∧ s.find path = some object

theorem IsTree.wellNamed (h : s.IsTree) : s.WellNamed where
  once node node' name name' object hname hname' := by
    rw [h.children] at hname hname'
    have heq := Option.some.inj (hname.symm.trans hname')
    exact NameNode.mk.inj heq
  siblings object object' node hobject hobject' := by
    have hchild := (h.children node.parent node.name object).mpr hobject
    have hchild' := (h.children node.parent node.name object').mpr hobject'
    exact Option.some.inj (hchild.symm.trans hchild')
  found object hnamed := by
    obtain ⟨node, hnode⟩ := Option.isSome_iff_exists.mp hnamed
    obtain ⟨path, hpath, -⟩ := h.exists_at hnode
    refine ⟨_, h.findPath_eq hpath, ?_⟩
    exact (h.find_iff true hpath.ne_nil (h.at_names hpath) object).mpr hpath

/-- All legal calls build a tree, and do what they should where they are sound. -/
theorem runs_build_trees (calls : List (NamesCall ο)) (hlegal : Allowed step Legal start calls) :
    (run step start calls).isSome ∧
      Always step (fun s => s.WellNamed ∧ ∀ c, s.Legal c → (s.Meets c ↔ s.Sound c)) start calls :=
  completes_of_allowed (fun _ h => ⟨h.wellNamed, fun _ hc => h.meets_iff_sound hc⟩)
    (fun _ _ h hc => h.step hc) start_isTree hlegal

end NamesPriv

instance IsName.decidable (name : Str) : Decidable (IsName name) :=
  inferInstanceAs (Decidable (name ≠ [] ∧ '/' ∉ name))

instance NameAddress.WellFormed.decidable {ο : Type} (address : NameAddress ο) :
    Decidable address.WellFormed :=
  match address with
  | .whole _ segments =>
    inferInstanceAs (Decidable (segments ≠ [] ∧ ∀ name ∈ segments, IsName name))
  | .inPath rooted path name => inferInstanceAs
      (Decidable ((path = [] → rooted = true) ∧ ∀ segment ∈ path ++ [name], IsName segment))
  | .inContext _ name => inferInstanceAs (Decidable (IsName name))

namespace NamesPriv

variable {ο : Type} [DecidableEq ο]

instance ContextNamed.decidable (s : NamesPriv ο) (address : NameAddress ο) :
    Decidable (s.ContextNamed address) :=
  match address with
  | .inContext (some context) _ => inferInstanceAs (Decidable ((s.isNamed context).isSome = true))
  | .inContext none _ | .whole _ _ | .inPath _ _ _ => .isTrue True.intro

instance Legal.decidable (s : NamesPriv ο) (c : NamesCall ο) : Decidable (s.Legal c) :=
  match c with
  | .add address _ => inferInstanceAs (Decidable (address.WellFormed ∧ s.ContextNamed address))
  | .rename address newname => inferInstanceAs
      (Decidable (address.WellFormed ∧ IsName newname ∧ s.ContextNamed address))
  | .find address => inferInstanceAs (Decidable address.WellFormed)

/-- All three forms, a renaming and a search under an object without a name -/
theorem six_calls_build_a_tree :
    (run step (start : NamesPriv ℕ) [.add (.whole false [['a']]) 0,
      .add (.inPath true [['a']] ['b']) 1, .rename (.inContext none ['a']) ['c'],
      .find (.whole true [['c'], ['b']]), .find (.inContext (some 7) ['b']),
      .add (.inContext (some 0) ['d']) 2]).isSome ∧
    Always step (fun s => s.WellNamed ∧ ∀ c, s.Legal c → (s.Meets c ↔ s.Sound c))
      (start : NamesPriv ℕ) [.add (.whole false [['a']]) 0,
      .add (.inPath true [['a']] ['b']) 1, .rename (.inContext none ['a']) ['c'],
      .find (.whole true [['c'], ['b']]), .find (.inContext (some 7) ['b']),
      .add (.inContext (some 0) ['d']) 2] :=
  runs_build_trees _ (by decide +kernel)

/-- `"/Names/x/b"` is added as `"/Names/b"` where there is no `"/Names/x"`. -/
theorem added_to_root :
    (start : NamesPriv ℕ).Legal (.add (.whole true [['x'], ['b']]) 7) ∧
    ¬(start : NamesPriv ℕ).Meets (.add (.whole true [['x'], ['b']]) 7) ∧
    ((start : NamesPriv ℕ).step (.add (.whole true [['x'], ['b']]) 7)).map
      (fun s => s.findPath 7) = some (some (namespaceName ++ ['/', 'b'])) := by
  have hlegal : (start : NamesPriv ℕ).Legal (.add (.whole true [['x'], ['b']]) 7) := by decide
  have hempty : ∀ object path, ¬(start : NamesPriv ℕ).At (some object) path := fun object path h => by
    obtain ⟨node, hnode⟩ := h.isNamed
    cases hnode
  refine ⟨hlegal, fun hmeets => ?_, by decide +kernel⟩
  have hparent : ¬(start : NamesPriv ℕ).ParentExists ([['x']] ++ [['b']]) := by
    rintro ⟨node, hnode⟩
    have hconcat : (start : NamesPriv ℕ).At node ([] ++ [['x']]) := hnode
    obtain ⟨object, _, rfl, -⟩ := hconcat.of_concat
    exact hempty object _ hnode
  rcases sound_add rfl |>.mp ((start_isTree.meets_iff_sound hlegal).mp hmeets) hparent with h | ⟨o, h⟩
  · cases h
  · exact hempty o _ h

end NamesPriv

end Ns3Noc
