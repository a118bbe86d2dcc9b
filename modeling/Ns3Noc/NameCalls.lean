import Ns3Noc.NameTrees

/-!
# Calls of the name service

What `Add`, `Rename` and `Find` should do to the tree. They do it unless the path before the last name
does not exist, since then they take the root for it.
-/
namespace Ns3Noc

open KeyedTables PartialRuns

/-- The path of a node after the segment at the end of `path` has been renamed -/
def renamedPath (path : List Str) (newname : Str) (old : List Str) : List Str :=
  if path <+: old then path.dropLast ++ newname :: old.drop path.length else old

namespace NamesPriv

variable {ο : Type} [DecidableEq ο]

def Taken (s : NamesPriv ο) (path : List Str) : Prop := ∃ object, s.At (some object) path

/-- The place that a call is about -/
def Designates (s : NamesPriv ο) (path : List Str) : NameAddress ο → Prop
  | .whole _ segments => path = segments
  | .inPath _ parent name => path = parent ++ [name]
  | .inContext context name => ∃ parent, s.At context parent ∧ path = parent ++ [name]

def ParentExists (s : NamesPriv ο) (path : List Str) : Prop := ∃ node, s.At node path.dropLast

/-- An object is added where it is not named, its parent exists and the place is free. -/
structure Adds (s : NamesPriv ο) (places : List Str → Prop) (object : ο)
    (r : Bool × NamesPriv ο) : Prop where
  succeeds : r.1 = true ↔ s.isNamed object = none ∧
    ∃ path, places path ∧ s.ParentExists path ∧ ¬s.Taken path
  unchanged : r.1 = false → r.2 = s
  added : r.1 = true → ∀ object' path,
    r.2.At (some object') path ↔ s.At (some object') path ∨ object' = object ∧ places path

/-- A segment is renamed where the place exists and the new one is free. -/
structure Renames (s : NamesPriv ο) (places : List Str → Prop) (newname : Str)
    (r : Bool × NamesPriv ο) : Prop where
  succeeds : r.1 = true ↔
    ∃ path, places path ∧ s.Taken path ∧ ¬s.Taken (path.dropLast ++ [newname])
  unchanged : r.1 = false → r.2 = s
  renamed : r.1 = true → ∀ object path', r.2.At (some object) path' ↔
    ∃ path old, places path ∧ s.At (some object) old ∧ path' = renamedPath path newname old

/-- What is found is the object at the place. -/
def Finds (s : NamesPriv ο) (places : List Str → Prop) (found : Option ο) : Prop :=
  ∀ object, found = some object ↔ ∃ path, places path ∧ s.At (some object) path

/-- The call does what it should. -/
def Meets (s : NamesPriv ο) : NamesCall ο → Prop
  | .add address object =>
    ∃ r, s.addAt object address = some r ∧ s.Adds (s.Designates · address) object r
  | .rename address newname =>
    ∃ r, s.renameAt newname address = some r ∧ s.Renames (s.Designates · address) newname r
  | .find address => s.Finds (s.Designates · address) (s.findAt address)

end NamesPriv

namespace NameAddress

variable {ο : Type}

def WellFormed : NameAddress ο → Prop
  | .whole _ segments => segments ≠ [] ∧ ∀ name ∈ segments, IsName name
  | .inPath rooted path name => (path = [] → rooted = true) ∧ ∀ segment ∈ path ++ [name], IsName segment
  | .inContext _ name => IsName name

/-- The path of an address without an object -/
def path? : NameAddress ο → Option (List Str)
  | .whole _ segments => some segments
  | .inPath _ path name => some (path ++ [name])
  | .inContext _ _ => none

end NameAddress

namespace NamesPriv

variable {ο : Type} [DecidableEq ο]

/-- A context is named. -/
def ContextNamed (s : NamesPriv ο) : NameAddress ο → Prop
  | .inContext (some context) _ => (s.isNamed context).isSome
  | _ => True

/-- `Add` and `Rename` assert that their context is named. -/
def Legal (s : NamesPriv ο) : NamesCall ο → Prop
  | .add address _ => address.WellFormed ∧ s.ContextNamed address
  | .rename address newname => address.WellFormed ∧ IsName newname ∧ s.ContextNamed address
  | .find address => address.WellFormed

/-- Where the parent does not exist, the same call at the root fails too. -/
def Sound (s : NamesPriv ο) : NamesCall ο → Prop
  | .add address object => ∀ path name, address.path? = some (path ++ [name]) →
      ¬s.ParentExists (path ++ [name]) → (s.isNamed object).isSome ∨ s.Taken [name]
  | .rename address newname => ∀ path name, address.path? = some (path ++ [name]) →
      ¬s.ParentExists (path ++ [name]) → s.Taken [newname] ∨ ¬s.Taken [name]
  | .find (.inPath _ path name) => ¬s.ParentExists (path ++ [name]) → ¬s.Taken [name]
  | .find _ => True

variable {s : NamesPriv ο}

/-! ## Contexts -/

/-- The object of a path, or none for the root and for a path that is not found -/
def resolve (s : NamesPriv ο) (path : List Str) : Option ο :=
  if path = [] then none else s.findFrom none path

theorem IsTree.resolve (h : s.IsTree) (path : List Str) :
    s.At (s.resolve path) path ∨ s.resolve path = none ∧ ∀ node, ¬s.At node path := by
  by_cases hne : path = []
  · subst hne
    exact .inl .root
  rw [NamesPriv.resolve, if_neg hne]
  cases hfind : s.findFrom none path with
  | some object => exact .inl ((h.findFrom_iff .root hne object).mp hfind)
  | none =>
    refine .inr ⟨rfl, fun node hnode => ?_⟩
    cases node with
    | none => exact hne (hnode.unique .root)
    | some object =>
      rw [(h.findFrom_iff .root hne object).mpr hnode] at hfind
      cases hfind

omit [DecidableEq ο] in
theorem inContext_of_path (rooted : Bool) {path : List Str} (hnames : ∀ name ∈ path, IsName name) :
    (if parentString rooted path = namespaceName then none else s.find (parentString rooted path)) =
      s.resolve path := by
  by_cases hne : path = []
  · rw [if_pos ((parentString_eq_iff rooted hnames).mpr hne), NamesPriv.resolve, if_pos hne]
  · rw [if_neg (hne ∘ (parentString_eq_iff rooted hnames).mp), parentString, if_neg hne,
      find_pathString s rooted hne hnames, NamesPriv.resolve, if_neg hne]

theorem addInPath_eq (rooted : Bool) {path : List Str} (hnames : ∀ name ∈ path, IsName name)
    (name : Str) (object : ο) :
    s.addInPath (parentString rooted path) name object =
      s.addInContext (s.resolve path) name object := by
  rw [← inContext_of_path rooted hnames, addInPath]
  split <;> rfl

theorem renameInPath_eq (rooted : Bool) {path : List Str} (hnames : ∀ name ∈ path, IsName name)
    (name newname : Str) :
    s.renameInPath (parentString rooted path) name newname =
      s.renameInContext (s.resolve path) name newname := by
  rw [← inContext_of_path rooted hnames, renameInPath]
  split <;> rfl

theorem findInPath_eq (rooted : Bool) {path : List Str} (hnames : ∀ name ∈ path, IsName name)
    (name : Str) :
    s.findInPath (parentString rooted path) name = s.findInContext (s.resolve path) name := by
  rw [← inContext_of_path rooted hnames, findInPath]
  split <;> rfl

theorem nodeOf_eq {context : Option ο} {path : List Str} (h : s.At context path) :
    s.nodeOf context = some context := by
  cases context with
  | none => rfl
  | some object =>
    obtain ⟨node, hnode⟩ := h.isNamed
    rw [nodeOf, hnode, Option.map_some]

theorem IsTree.isDuplicateName (h : s.IsTree) {node : Option ο} {path : List Str}
    (hnode : s.At node path) (name : Str) :
    s.isDuplicateName node name = true ↔ s.Taken (path ++ [name]) := by
  rw [NamesPriv.isDuplicateName, Option.isSome_iff_exists]
  exact exists_congr fun object => h.at_child hnode name object

/-! ## Adding an object -/

/-- The tree with a new object -/
def added (s : NamesPriv ο) (node : Option ο) (name : Str) (object : ο) : NamesPriv ο :=
  ⟨(object, ⟨node, name⟩) :: s.objectMap,
    Function.update s.nameMap node (Function.update (s.nameMap node) name (some object))⟩

variable {node : Option ο} {name : Str} {object : ο}

theorem isNamed_added_self : (s.added node name object).isNamed object = some ⟨node, name⟩ :=
  find_cons_self _ _ _

theorem isNamed_added_of_ne {object' : ο} (h : object' ≠ object) :
    (s.added node name object).isNamed object' = s.isNamed object' :=
  find_cons_of_ne h

theorem At.added {node' : Option ο} {path : List Str} (h : s.At node' path)
    (hnew : s.isNamed object = none) : (s.added node name object).At node' path := by
  induction h with
  | root => exact .root
  | @child object' row path hrow _ ih =>
    have hne : object' ≠ object := by
      rintro rfl
      rw [hnew] at hrow
      cases hrow
    exact .child ((isNamed_added_of_ne hne).trans hrow) ih

omit [DecidableEq ο] in
theorem parent_mem_of_grounded {rows : List (ο × NameNode ο)} (h : Grounded rows)
    {row : ο × NameNode ο} (hrow : row ∈ rows) {parent : ο} (hparent : row.2.parent = some parent) :
    parent ∈ rows.map Prod.fst := by
  induction h with
  | nil => cases hrow
  | cons hhead _ ih =>
    rcases List.mem_cons.mp hrow with rfl | hrow
    · exact List.mem_cons_of_mem _ (hhead parent hparent)
    · exact List.mem_cons_of_mem _ (ih hrow)

theorem IsTree.parent_ne (h : s.IsTree) (hnew : s.isNamed object = none) {child : ο}
    {row : NameNode ο} (hchild : s.isNamed child = some row) : row.parent ≠ some object := by
  intro hparent
  exact find_eq_none hnew (parent_mem_of_grounded h.grounded (mem_of_find hchild) hparent)

/-- A node of the new tree is the new object or has its old path. -/
theorem IsTree.at_of_added (h : s.IsTree) (hnew : s.isNamed object = none) {path : List Str}
    (hnode : s.At node path) {node' : Option ο} {path' : List Str}
    (h' : (s.added node name object).At node' path') :
    s.At node' path' ∨ node' = some object ∧ path' = path ++ [name] := by
  induction h' with
  | root => exact .inl .root
  | @child object' row path' hrow hparent ih =>
    by_cases heq : object' = object
    · subst heq
      obtain rfl := Option.some.inj (isNamed_added_self.symm.trans hrow)
      have hparent' := hparent.unique (hnode.added hnew)
      exact .inr ⟨rfl, by rw [hparent']⟩
    · rw [isNamed_added_of_ne heq] at hrow
      rcases ih with hold | ⟨hself, -⟩
      · exact .inl (.child hrow hold)
      · exact absurd hself (h.parent_ne hnew hrow)

theorem IsTree.added (h : s.IsTree) (hnew : s.isNamed object = none) {path : List Str}
    (hnode : s.At node path) (hfree : s.nameMap node name = none) (hname : IsName name) :
    (s.added node name object).IsTree where
  keys := List.nodup_cons.mpr ⟨find_eq_none hnew, h.keys⟩
  grounded := by
    refine .cons (fun parent hparent => ?_) h.grounded
    obtain rfl : node = some parent := hparent
    obtain ⟨row, hrow⟩ := hnode.isNamed
    exact List.mem_map_of_mem (mem_of_find hrow)
  children node' name' object' := by
    by_cases heq : object' = object
    · subst heq
      rw [isNamed_added_self]
      have hold : ∀ node' name', s.nameMap node' name' ≠ some object' := by
        intro node' name' hsome
        rw [h.children, hnew] at hsome
        cases hsome
      by_cases hn : node' = node
      · subst hn
        by_cases hm : name' = name
        · simp [NamesPriv.added, hm]
        · simp [NamesPriv.added, hm, hold, Ne.symm hm]
      · simp [NamesPriv.added, hn, hold, Ne.symm hn]
    · rw [isNamed_added_of_ne heq, ← h.children]
      by_cases hn : node' = node
      · subst hn
        by_cases hm : name' = name
        · subst hm
          simp [NamesPriv.added, hfree, Ne.symm heq]
        · simp [NamesPriv.added, hm]
      · simp [NamesPriv.added, hn]
  names object' row hrow := by
    by_cases heq : object' = object
    · subst heq
      obtain rfl := Option.some.inj (isNamed_added_self.symm.trans hrow)
      exact hname
    · rw [isNamed_added_of_ne heq] at hrow
      exact h.names object' row hrow

theorem parentExists_concat {path : List Str} :
    s.ParentExists (path ++ [name]) ↔ ∃ node, s.At node path := by
  rw [ParentExists, List.dropLast_concat]

/-- An object is added where its parent is. -/
theorem IsTree.addInContext (h : s.IsTree) {path : List Str} (hnode : s.At node path)
    (hname : IsName name) (object : ο) : ∃ r, s.addInContext node name object = some r ∧
      r.2.IsTree ∧ s.Adds (· = path ++ [name]) object r := by
  have hparent : s.ParentExists (path ++ [name]) := parentExists_concat.mpr ⟨node, hnode⟩
  rw [NamesPriv.addInContext]
  cases hobject : s.isNamed object with
  | some row => exact ⟨_, if_pos rfl, h, by simp [hobject], fun _ => rfl, nofun⟩
  | none =>
    rw [if_neg (by simp), nodeOf_eq hnode, Option.map_some]
    refine ⟨_, rfl, ?_⟩
    have hduplicate := h.isDuplicateName hnode name
    cases hdup : s.isDuplicateName node name with
    | true =>
      rw [if_pos rfl]
      refine ⟨h, ?_, fun _ => rfl, nofun⟩
      simp [hduplicate.mp hdup]
    | false =>
      have hfree : s.nameMap node name = none := by simpa [NamesPriv.isDuplicateName] using hdup
      have htaken : ¬s.Taken (path ++ [name]) := fun ht => by
        rw [hduplicate.mpr ht] at hdup
        cases hdup
      rw [if_neg (by simp)]
      refine ⟨h.added hobject hnode hfree hname, ?_, nofun, fun _ object' path' => ?_⟩
      · simp [hparent, htaken, hobject]
      constructor
      · intro h'
        rcases h.at_of_added hobject hnode h' with hold | ⟨hself, hpath⟩
        · exact .inl hold
        · exact .inr ⟨Option.some.inj hself, hpath⟩
      · intro h'
        rcases h' with hold | ⟨rfl, rfl⟩
        · exact hold.added hobject
        · exact .child isNamed_added_self (hnode.added hobject)

/-! ## Renaming a segment -/

/-- The tree with an object's segment renamed -/
def renamed (s : NamesPriv ο) (node : Option ο) (oldname newname : Str) (object : ο) :
    NamesPriv ο :=
  ⟨KeyedTables.modify s.objectMap object fun n => { n with name := newname },
    Function.update s.nameMap node
      (Function.update (Function.update (s.nameMap node) oldname none) newname (some object))⟩

variable {newname : Str}

theorem isNamed_renamed_self (s : NamesPriv ο) (node : Option ο) (name newname : Str) (object : ο) :
    (s.renamed node name newname object).isNamed object =
      (s.isNamed object).map fun n => { n with name := newname } :=
  find_modify_self s.objectMap object fun n => { n with name := newname }

theorem isNamed_renamed_of_ne {object' : ο} (h : object' ≠ object) :
    (s.renamed node name newname object).isNamed object' = s.isNamed object' :=
  find_modify_of_ne h fun n : NameNode ο => { n with name := newname }

theorem not_prefix_concat {path : List Str} : ¬path ++ [name] <+: path := by
  intro hpre
  have hlength := hpre.length_le
  simp at hlength

theorem grounded_modify {rows : List (ο × NameNode ο)} (h : Grounded rows) {f : NameNode ο → NameNode ο}
    (hf : ∀ n, (f n).parent = n.parent) : Grounded (KeyedTables.modify rows object f) := by
  induction h with
  | nil => exact .nil
  | @cons object' row rows hparent hrest ih =>
    rw [KeyedTables.modify, List.map_cons]
    have hkeys := keys_modify rows object f
    rw [KeyedTables.modify] at hkeys ih
    by_cases heq : object' = object
    · rw [if_pos heq]
      exact .cons (fun parent hp => hkeys ▸ hparent parent (hf row ▸ hp)) ih
    · rw [if_neg heq]
      exact .cons (fun parent hp => hkeys ▸ hparent parent hp) ih

/-- The old path of a node is its path after the renaming, but for the one segment. -/
theorem IsTree.at_renamed (h : s.IsTree) {path : List Str}
    (hobject : s.At (some object) (path ++ [name])) {node' : Option ο} {old : List Str}
    (h' : s.At node' old) :
    (s.renamed node name newname object).At node' (renamedPath (path ++ [name]) newname old) := by
  induction h' with
  | root =>
    rw [renamedPath, if_neg (by simp)]
    exact .root
  | @child object' row old hrow hparent ih =>
    by_cases heq : object' = object
    · subst heq
      obtain ⟨rfl, hrowname⟩ : old = path ∧ row.name = name := by
        simpa using List.append_inj' ((At.child hrow hparent).unique hobject) rfl
      rw [renamedPath, if_neg not_prefix_concat] at ih
      rw [hrowname, renamedPath, if_pos (List.prefix_refl _), List.dropLast_concat, List.drop_length]
      have hnew : (s.renamed node name newname object').isNamed object' =
          some { row with name := newname } := by
        rw [isNamed_renamed_self, hrow, Option.map_some]
      exact .child hnew ih
    · have hstep := At.child ((isNamed_renamed_of_ne heq).trans hrow) ih
      have hpath : renamedPath (path ++ [name]) newname (old ++ [row.name]) =
          renamedPath (path ++ [name]) newname old ++ [row.name] := by
        by_cases hpre : path ++ [name] <+: old
        · rw [renamedPath, renamedPath, if_pos hpre, if_pos (hpre.trans (List.prefix_append _ _)),
            List.drop_append_of_le_length hpre.length_le]
          simp
        · have hnot : ¬path ++ [name] <+: old ++ [row.name] := by
            intro hlong
            rcases List.prefix_concat_iff.mp hlong with hall | hshort
            · have hsame := h.at_injective (At.child hrow hparent) (hall ▸ hobject)
              exact heq (Option.some.inj hsame)
            · exact hpre hshort
          rw [renamedPath, renamedPath, if_neg hpre, if_neg hnot]
      rw [hpath]
      exact hstep

theorem IsTree.at_renamed_iff (h : s.IsTree) {path : List Str}
    (hobject : s.At (some object) (path ++ [name])) (object' : ο) (path' : List Str) :
    (s.renamed node name newname object).At (some object') path' ↔
      ∃ old, s.At (some object') old ∧ path' = renamedPath (path ++ [name]) newname old := by
  constructor
  · intro h'
    obtain ⟨row, hrow⟩ := h'.isNamed
    have hnamed : ∃ row', s.isNamed object' = some row' := by
      by_cases heq : object' = object
      · subst heq
        exact hobject.isNamed
      · rw [isNamed_renamed_of_ne heq] at hrow
        exact ⟨row, hrow⟩
    obtain ⟨row', hrow'⟩ := hnamed
    obtain ⟨old, hold, -⟩ := h.exists_at hrow'
    exact ⟨old, hold, h'.unique (h.at_renamed hobject hold)⟩
  · rintro ⟨old, hold, rfl⟩
    exact h.at_renamed hobject hold

theorem IsTree.renamed (h : s.IsTree) (hobject : s.nameMap node name = some object)
    (hfree : s.nameMap node newname = none) (hname : IsName newname) :
    (s.renamed node name newname object).IsTree where
  keys := by
    rw [NamesPriv.renamed, keys_modify]
    exact h.keys
  grounded := by
    have hkept : ∀ n : NameNode ο, ({ n with name := newname } : NameNode ο).parent = n.parent :=
      fun _ => rfl
    exact grounded_modify h.grounded hkept
  children node' name' object' := by
    have hrow := (h.children node name object).mp hobject
    by_cases heq : object' = object
    · subst heq
      have hold : ∀ node' name', s.nameMap node' name' = some object' ↔ node' = node ∧ name' = name := by
        intro node' name'
        rw [h.children, hrow]
        simp [eq_comm]
      have hne : newname ≠ name := by
        rintro rfl
        rw [hfree] at hobject
        cases hobject
      rw [isNamed_renamed_self, hrow, Option.map_some]
      by_cases hn : node' = node
      · subst hn
        by_cases hm : name' = newname
        · simp [NamesPriv.renamed, hm]
        · by_cases hm' : name' = name
          · subst hm'
            simp [NamesPriv.renamed, hm, Ne.symm hm]
          · simp [NamesPriv.renamed, hm, hm', hold, Ne.symm hm]
      · simp [NamesPriv.renamed, hn, hold, Ne.symm hn]
    · rw [isNamed_renamed_of_ne heq, ← h.children]
      by_cases hn : node' = node
      · subst hn
        by_cases hm : name' = newname
        · subst hm
          simp [NamesPriv.renamed, hfree, Ne.symm heq]
        · by_cases hm' : name' = name
          · subst hm'
            simp [NamesPriv.renamed, hm, hobject, Ne.symm heq]
          · simp [NamesPriv.renamed, hm, hm']
      · simp [NamesPriv.renamed, hn]
  names object' row hrow := by
    by_cases heq : object' = object
    · subst heq
      rw [isNamed_renamed_self] at hrow
      obtain ⟨row', -, rfl⟩ := Option.map_eq_some_iff.mp hrow
      exact hname
    · rw [isNamed_renamed_of_ne heq] at hrow
      exact h.names object' row hrow

/-- A segment is renamed under its parent. -/
theorem IsTree.renameInContext (h : s.IsTree) {path : List Str} (hnode : s.At node path)
    (name : Str) (hname : IsName newname) : ∃ r, s.renameInContext node name newname = some r ∧
      r.2.IsTree ∧ s.Renames (· = path ++ [name]) newname r := by
  rw [NamesPriv.renameInContext, nodeOf_eq hnode, Option.map_some]
  refine ⟨_, rfl, ?_⟩
  have hduplicate := h.isDuplicateName hnode newname
  cases hdup : s.isDuplicateName node newname with
  | true =>
    rw [if_pos rfl]
    refine ⟨h, ?_, fun _ => rfl, nofun⟩
    simp [hduplicate.mp hdup]
  | false =>
    have htaken : ¬s.Taken (path ++ [newname]) := fun ht => by
      rw [hduplicate.mpr ht] at hdup
      cases hdup
    rw [if_neg (by simp)]
    cases hchild : s.nameMap node name with
    | none =>
      have hmissing : ¬s.Taken (path ++ [name]) := by
        rintro ⟨object, hobject⟩
        rw [(h.at_child hnode name object).mpr hobject] at hchild
        cases hchild
      refine ⟨h, ?_, fun _ => rfl, nofun⟩
      simp [hmissing]
    | some object =>
      have hobject := (h.at_child hnode name object).mp hchild
      have hfree : s.nameMap node newname = none := by simpa [NamesPriv.isDuplicateName] using hdup
      refine ⟨h.renamed hchild hfree hname, ?_, nofun, fun _ object' path' => ?_⟩
      · have hplace : s.Taken (path ++ [name]) := ⟨object, hobject⟩
        simp [htaken, hplace]
      · have hiff : (s.renamed node name newname object).At (some object') path' ↔
            ∃ old, s.At (some object') old ∧ path' = renamedPath (path ++ [name]) newname old :=
          h.at_renamed_iff hobject object' path'
        rw [NamesPriv.renamed] at hiff
        simpa using hiff

end NamesPriv

end Ns3Noc
