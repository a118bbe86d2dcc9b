import Ns3Noc.Names
import Ns3Noc.PartialRuns

/-!
# Trees of names

Each named object has one path, and no two objects have the same one. `Find` follows a path down, and
`FindPath` goes up again.
-/
namespace Ns3Noc

open KeyedTables

/-- A segment of a path -/
def IsName (name : Str) : Prop := name ≠ [] ∧ '/' ∉ name

namespace NamesPriv

variable {ο : Type} [DecidableEq ο]

/-- The node has the path. -/
inductive At (s : NamesPriv ο) : Option ο → List Str → Prop
  | root : s.At none []
  | child {object : ο} {node : NameNode ο} {path : List Str} :
      s.isNamed object = some node → s.At node.parent path → s.At (some object) (path ++ [node.name])

/-- Parents are named before their children. -/
inductive Grounded : List (ο × NameNode ο) → Prop
  | nil : Grounded []
  | cons {object : ο} {node : NameNode ο} {rows : List (ο × NameNode ο)} :
      (∀ parent, node.parent = some parent → parent ∈ rows.map Prod.fst) → Grounded rows →
      Grounded ((object, node) :: rows)

structure IsTree (s : NamesPriv ο) : Prop where
  keys : (s.objectMap.map Prod.fst).Nodup
  grounded : Grounded s.objectMap
  children : ∀ node name object,
    s.nameMap node name = some object ↔ s.isNamed object = some ⟨node, name⟩
  names : ∀ object node, s.isNamed object = some node → IsName node.name

variable {s : NamesPriv ο}

theorem start_isTree : (start : NamesPriv ο).IsTree where
  keys := List.nodup_nil
  grounded := .nil
  children _ _ _ := ⟨nofun, nofun⟩
  names := nofun

theorem At.unique {node : Option ο} {path path' : List Str} (h : s.At node path)
    (h' : s.At node path') : path = path' := by
  induction h generalizing path' with
  | root =>
    cases h'
    rfl
  | child hnode _ ih =>
    cases h' with
    | child hnode' hparent' =>
      obtain rfl := Option.some.inj (hnode.symm.trans hnode')
      rw [ih hparent']

theorem At.eq_root {node : Option ο} (h : s.At node []) : node = none := by
  generalize hp : ([] : List Str) = path at h
  cases h with
  | root => rfl
  | child => simp at hp

theorem At.of_concat {node : Option ο} {path : List Str} {name : Str}
    (h : s.At node (path ++ [name])) :
    ∃ object parent, node = some object ∧ s.isNamed object = some ⟨parent, name⟩ ∧
      s.At parent path := by
  generalize hp : path ++ [name] = path' at h
  cases h with
  | root => simp at hp
  | @child object node path' hnode hparent =>
    obtain ⟨rfl, rfl⟩ : path = path' ∧ name = node.name := by simpa using List.append_inj' hp rfl
    exact ⟨object, node.parent, rfl, hnode, hparent⟩

theorem IsTree.at_injective (h : s.IsTree) {node node' : Option ο} {path : List Str}
    (hnode : s.At node path) (hnode' : s.At node' path) : node = node' := by
  induction path using List.reverseRecOn generalizing node node' with
  | nil => rw [hnode.eq_root, hnode'.eq_root]
  | append_singleton path name ih =>
    obtain ⟨object, parent, rfl, hobject, hparent⟩ := hnode.of_concat
    obtain ⟨object', parent', rfl, hobject', hparent'⟩ := hnode'.of_concat
    obtain rfl := ih hparent hparent'
    have hchild := (h.children parent name object).mpr hobject
    have hchild' := (h.children parent name object').mpr hobject'
    rw [← hchild, ← hchild']

theorem IsTree.at_child (h : s.IsTree) {node : Option ο} {path : List Str} (hnode : s.At node path)
    (name : Str) (object : ο) : s.nameMap node name = some object ↔
      s.At (some object) (path ++ [name]) := by
  rw [h.children]
  constructor
  · intro hobject
    exact .child hobject hnode
  · intro hobject
    obtain ⟨_, parent, hsome, hnamed, hparent⟩ := hobject.of_concat
    obtain rfl := Option.some.inj hsome
    rw [hnamed, h.at_injective hparent hnode]

theorem IsTree.find_row (h : s.IsTree) {row : ο × NameNode ο} (hrow : row ∈ s.objectMap) :
    s.isNamed row.1 = some row.2 :=
  find_of_mem h.keys hrow

theorem exists_at_of_grounded {rows : List (ο × NameNode ο)} (hrows : Grounded rows)
    (hnamed : ∀ row ∈ rows, s.isNamed row.1 = some row.2) {object : ο}
    (hobject : object ∈ rows.map Prod.fst) :
    ∃ path, s.At (some object) path ∧ path.length ≤ rows.length := by
  induction hrows generalizing object with
  | nil => simp at hobject
  | @cons object' node rows hparent _ ih =>
    have hrest := fun row hrow => hnamed row (List.mem_cons_of_mem _ hrow)
    rcases List.mem_cons.mp hobject with rfl | hmem
    · have hnode := hnamed (object, node) List.mem_cons_self
      cases hp : node.parent with
      | none =>
        have hroot : s.At node.parent [] := hp ▸ .root
        exact ⟨_, .child hnode hroot, by simp⟩
      | some parent =>
        obtain ⟨path, hpath, hlength⟩ := ih hrest (hparent parent hp)
        have hpath : s.At node.parent path := hp ▸ hpath
        exact ⟨_, .child hnode hpath, by simpa using hlength⟩
    · obtain ⟨path, hpath, hlength⟩ := ih hrest hmem
      exact ⟨path, hpath, hlength.trans (Nat.le_succ _)⟩

/-- Every named object has a path. -/
theorem IsTree.exists_at (h : s.IsTree) {object : ο} {node : NameNode ο}
    (hobject : s.isNamed object = some node) :
    ∃ path, s.At (some object) path ∧ path.length ≤ s.objectMap.length :=
  exists_at_of_grounded h.grounded (fun _ => h.find_row)
    (List.mem_map_of_mem (mem_of_find hobject))

theorem At.isNamed {object : ο} {path : List Str} (h : s.At (some object) path) :
    ∃ node, s.isNamed object = some node := by
  cases h with
  | child hnode _ => exact ⟨_, hnode⟩

theorem At.ne_nil {object : ο} {path : List Str} (h : s.At (some object) path) : path ≠ [] := by
  rintro rfl
  cases h.eq_root

theorem IsTree.at_names (h : s.IsTree) {node : Option ο} {path : List Str} (hnode : s.At node path) :
    ∀ name ∈ path, IsName name := by
  induction hnode with
  | root => simp
  | child hobject _ ih =>
    intro name hname
    rcases List.mem_append.mp hname with hmem | hmem
    · exact ih name hmem
    · rw [List.mem_singleton.mp hmem]
      exact h.names _ _ hobject

/-! ## Paths as strings -/

theorem intercalate_concat {path : List Str} (h : path ≠ []) (name : Str) :
    ['/'].intercalate (path ++ [name]) = ['/'].intercalate path ++ '/' :: name := by
  induction path with
  | nil => exact absurd rfl h
  | cons segment path ih =>
    cases path with
    | nil => simp
    | cons segment' path =>
      have hne := List.cons_ne_nil segment' path
      rw [List.cons_append, List.intercalate_cons_of_ne_nil (List.append_ne_nil_of_left_ne_nil hne _),
        ih hne, List.intercalate_cons_of_ne_nil hne]
      simp only [List.append_assoc]

theorem pathString_concat (path : List Str) (name : Str) :
    pathString true (path ++ [name]) = parentString true path ++ '/' :: name := by
  by_cases h : path = []
  · simp [h, pathString, parentString]
  · rw [parentString, if_neg h, pathString, pathString, intercalate_concat h]
    simp

/-- A path without the namespace starts with a name. -/
theorem pathString_false {path : List Str} (h : path ≠ []) (hnames : ∀ name ∈ path, IsName name) :
    ∃ c rest, pathString false path = c :: rest ∧ c ≠ '/' := by
  cases path with
  | nil => exact absurd rfl h
  | cons segment path =>
    obtain ⟨hne, hslash⟩ := hnames segment List.mem_cons_self
    cases segment with
    | nil => exact absurd rfl hne
    | cons c segment =>
      have hc : c ≠ '/' := fun heq => hslash (heq ▸ List.mem_cons_self)
      cases path with
      | nil => exact ⟨c, segment, by simp [pathString], hc⟩
      | cons segment' path =>
        refine ⟨c, segment ++ ['/'] ++ ['/'].intercalate (segment' :: path), ?_, hc⟩
        rw [pathString, List.intercalate_cons_of_ne_nil (List.cons_ne_nil _ _)]
        rfl

theorem not_isPrefixOf_namespaceName {c : Char} (hc : c ≠ '/') (rest tail : Str) :
    (namespaceName ++ tail).isPrefixOf (c :: rest) = false := by
  have hbeq : ('/' == c) = false := beq_eq_false_iff_ne.mpr hc.symm
  simp [namespaceName, List.isPrefixOf, hbeq]

theorem splitOn_path {path : List Str} (h : path ≠ []) (hnames : ∀ name ∈ path, IsName name) :
    (['/'].intercalate path).splitOn '/' = path :=
  List.splitOn_intercalate '/' (fun name hname => (hnames name hname).2) h

omit [DecidableEq ο] in
/-- The namespace in front makes no difference. -/
theorem find_pathString (s : NamesPriv ο) (rooted : Bool) {path : List Str} (h : path ≠ [])
    (hnames : ∀ name ∈ path, IsName name) :
    s.find (pathString rooted path) = s.findFrom none path := by
  cases rooted with
  | true =>
    have hpre : (namespaceName ++ ['/']).isPrefixOf (pathString true path) = true := by
      rw [List.isPrefixOf_iff_prefix]
      exact List.prefix_append _ _
    rw [find, hpre, if_pos rfl, pathString, if_pos rfl, List.drop_left, splitOn_path h hnames]
  | false =>
    obtain ⟨c, rest, heq, hc⟩ := pathString_false h hnames
    rw [find, heq, not_isPrefixOf_namespaceName hc, if_neg (by simp), ← heq, pathString,
      if_neg (by simp), List.nil_append, splitOn_path h hnames]

theorem parentString_eq_iff (rooted : Bool) {path : List Str} (hnames : ∀ name ∈ path, IsName name) :
    parentString rooted path = namespaceName ↔ path = [] := by
  constructor
  · intro heq
    by_contra hne
    rw [parentString, if_neg hne] at heq
    cases rooted with
    | true =>
      rw [pathString, if_pos rfl, List.append_assoc] at heq
      simp at heq
    | false =>
      obtain ⟨c, rest, hcons, hc⟩ := pathString_false hne hnames
      rw [hcons] at heq
      exact hc (List.cons.inj heq).1
  · intro heq
    rw [parentString, if_pos heq]

theorem splitName_concat {name : Str} (hname : IsName name) (path : Str) :
    (path ++ '/' :: name).rdropWhile (· ≠ '/') = path ++ ['/'] ∧
      (path ++ '/' :: name).rtakeWhile (· ≠ '/') = name := by
  have hne : ∀ c ∈ name, c ≠ '/' := fun c hc heq => hname.2 (heq ▸ hc)
  have hall : ∀ c ∈ name.reverse, decide (c ≠ '/') = true :=
    fun c hc => decide_eq_true (hne c (List.mem_reverse.mp hc))
  constructor
  · rw [List.rdropWhile, List.reverse_append, List.reverse_cons, List.append_assoc,
      List.dropWhile_append_of_pos hall]
    simp
  · rw [List.rtakeWhile, List.reverse_append, List.reverse_cons, List.append_assoc,
      List.takeWhile_append_of_pos hall]
    simp

/-- With or without the namespace, a path is split before its last name. -/
theorem splitName_pathString (rooted : Bool) {path : List Str} {name : Str}
    (hnames : ∀ segment ∈ path ++ [name], IsName segment) :
    splitName (pathString rooted (path ++ [name])) = some (parentString true path, name) := by
  have hname := hnames name (by simp)
  have hne : parentString true path ≠ [] := by
    rw [parentString]
    split
    · simp [namespaceName]
    · simp [pathString, namespaceName]
  obtain ⟨hdrop, htake⟩ := splitName_concat hname (parentString true path)
  have hlength : ¬((parentString true path ++ ['/']).length ≤ 1) := by
    have hpos := List.length_pos_iff.mpr hne
    simp only [List.length_append, List.length_singleton]
    omega
  cases rooted with
  | true =>
    have hpre : namespaceName.isPrefixOf (pathString true (path ++ [name])) = true := by
      rw [List.isPrefixOf_iff_prefix, pathString, if_pos rfl, List.append_assoc]
      exact List.prefix_append _ _
    rw [splitName, if_neg (by simp [hpre]), if_pos hpre, pathString_concat]
    simp only [hdrop, htake]
    rw [if_neg hlength, List.dropLast_concat]
  | false =>
    obtain ⟨c, rest, heq, hc⟩ := pathString_false (by simp) hnames
    have hpre : namespaceName.isPrefixOf (c :: rest) = false := by
      have hnot := not_isPrefixOf_namespaceName hc rest []
      rwa [List.append_nil] at hnot
    have hcanonical : namespaceName ++ '/' :: (c :: rest) = parentString true path ++ '/' :: name := by
      rw [← heq, ← pathString_concat]
      simp [pathString]
    rw [splitName, heq, hpre, if_neg (by simp [hc])]
    simp only [Bool.false_eq_true, if_false, hcanonical, hdrop, htake]
    rw [if_neg hlength, List.dropLast_concat]

/-! ## Down and up -/

theorem At.exists_prefix {node : Option ο} {path rest : List Str} (h : s.At node (path ++ rest)) :
    ∃ node', s.At node' path := by
  induction rest using List.reverseRecOn generalizing node with
  | nil => exact ⟨node, by simpa using h⟩
  | append_singleton rest name ih =>
    rw [← List.append_assoc] at h
    obtain ⟨_, parent, -, -, hparent⟩ := h.of_concat
    exact ih hparent


omit [DecidableEq ο] in
theorem findFrom_cons_cons (s : NamesPriv ο) (node : Option ο) (segment segment' : Str)
    (remaining : List Str) : s.findFrom node (segment :: segment' :: remaining) =
      (s.nameMap node segment).bind fun object =>
        s.findFrom (some object) (segment' :: remaining) := rfl

theorem IsTree.findFrom_iff (h : s.IsTree) {node : Option ο} {path segments : List Str}
    (hnode : s.At node path) (hne : segments ≠ []) (object : ο) :
    s.findFrom node segments = some object ↔ s.At (some object) (path ++ segments) := by
  induction segments generalizing node path with
  | nil => exact absurd rfl hne
  | cons segment segments ih =>
    cases segments with
    | nil => exact h.at_child hnode segment object
    | cons segment' segments =>
      rw [findFrom_cons_cons, List.append_cons]
      constructor
      · intro hfind
        obtain ⟨child, hchild, hfind⟩ := Option.bind_eq_some_iff.mp hfind
        exact (ih ((h.at_child hnode segment child).mp hchild) (List.cons_ne_nil _ _)).mp hfind
      · intro hobject
        obtain ⟨node', hnode'⟩ := hobject.exists_prefix
        obtain ⟨child, -, rfl, -⟩ := hnode'.of_concat
        rw [(h.at_child hnode segment child).mpr hnode', Option.bind_some]
        exact (ih hnode' (List.cons_ne_nil _ _)).mpr hobject

theorem IsTree.find_iff (h : s.IsTree) (rooted : Bool) {path : List Str} (hne : path ≠ [])
    (hnames : ∀ name ∈ path, IsName name) (object : ο) :
    s.find (pathString rooted path) = some object ↔ s.At (some object) path := by
  rw [find_pathString s rooted hne hnames]
  exact h.findFrom_iff .root hne object

theorem intercalate_cons_slash {path : List Str} (h : path ≠ []) :
    '/' :: ['/'].intercalate path = path.flatMap ('/' :: ·) := by
  induction path with
  | nil => exact absurd rfl h
  | cons segment path ih =>
    cases path with
    | nil => simp
    | cons segment' path =>
      have hne := List.cons_ne_nil segment' path
      rw [List.intercalate_cons_of_ne_nil hne, List.flatMap_cons, ← ih hne]
      simp

theorem At.climb {node : Option ο} {path : List Str} (h : s.At node path) {fuel : ℕ}
    (hfuel : path.length ≤ fuel) (below : Str) :
    s.climb fuel node below = some (namespaceName ++ (path.flatMap ('/' :: ·) ++ below)) := by
  induction h generalizing fuel below with
  | root => cases fuel <;> rfl
  | @child object node path hnode _ ih =>
    rw [List.length_append, List.length_singleton] at hfuel
    cases fuel with
    | zero => omega
    | succ fuel =>
      rw [NamesPriv.climb, hnode, Option.bind_some, ih (Nat.le_of_succ_le_succ hfuel),
        List.flatMap_append]
      simp

/-- `FindPath` answers the path of a named object. -/
theorem IsTree.findPath_eq (h : s.IsTree) {object : ο} {path : List Str}
    (hobject : s.At (some object) path) : s.findPath object = some (pathString true path) := by
  obtain ⟨node, hnode⟩ := hobject.isNamed
  obtain ⟨path', hpath', hlength⟩ := h.exists_at hnode
  obtain rfl := hobject.unique hpath'
  rw [findPath, hnode]
  simp only [hobject.climb hlength, ← intercalate_cons_slash hobject.ne_nil]
  simp [pathString]

end NamesPriv

end Ns3Noc
