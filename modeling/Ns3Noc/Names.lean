import Mathlib
import Ns3Noc.KeyedTables

/-!
# Names

Objects are named in a tree under `/Names`. Each of `Add`, `Rename` and `Find` takes a whole path, a path
and a name, or an object and a name. A node of the tree stands for its object, the root for none.
-/
namespace Ns3Noc

abbrev Str : Type := List Char

structure NameNode (ο : Type) where
  parent : Option ο
  name : Str
  deriving DecidableEq

structure NamesPriv (ο : Type) where
  objectMap : List (ο × NameNode ο)
  nameMap : Option ο → Str → Option ο

/-- `"/Names"` -/
def namespaceName : Str := ['/', 'N', 'a', 'm', 'e', 's']

/-- The path up to the last `'/'` and the name after it. The answer is `none` where an assertion fails. -/
def splitName (name : Str) : Option (Str × Str) :=
  if ¬namespaceName.isPrefixOf name ∧ name.head? = some '/' then none
  else
    let name := if namespaceName.isPrefixOf name then name else namespaceName ++ '/' :: name
    let path := name.rdropWhile (· ≠ '/')
    if path.length ≤ 1 then none else some (path.dropLast, name.rtakeWhile (· ≠ '/'))

namespace NamesPriv

variable {ο : Type} [DecidableEq ο]

def start : NamesPriv ο := ⟨[], fun _ _ => none⟩

def isNamed (s : NamesPriv ο) (object : ο) : Option (NameNode ο) :=
  KeyedTables.find s.objectMap object

def isDuplicateName (s : NamesPriv ο) (node : Option ο) (name : Str) : Bool :=
  (s.nameMap node name).isSome

/-- The segments of the remaining path, one after another -/
def findFrom (s : NamesPriv ο) : Option ο → List Str → Option ο
  | _, [] => none
  | node, [remaining] => s.nameMap node remaining
  | node, segment :: remaining =>
    (s.nameMap node segment).bind fun object => s.findFrom (some object) remaining

def find (s : NamesPriv ο) (path : Str) : Option ο :=
  let namespaceName := namespaceName ++ ['/']
  let remaining := if namespaceName.isPrefixOf path then path.drop namespaceName.length else path
  s.findFrom none (remaining.splitOn '/')

/-- The node of a context: the root for no object, and an assertion that another one is named -/
def nodeOf (s : NamesPriv ο) : Option ο → Option (Option ο)
  | none => some none
  | some context => (s.isNamed context).map fun _ => some context

def addInContext (s : NamesPriv ο) (context : Option ο) (name : Str) (object : ο) :
    Option (Bool × NamesPriv ο) :=
  if (s.isNamed object).isSome then some (false, s)
  else
    (s.nodeOf context).map fun node =>
      if s.isDuplicateName node name then (false, s)
      else (true, ⟨(object, ⟨node, name⟩) :: s.objectMap,
        Function.update s.nameMap node (Function.update (s.nameMap node) name (some object))⟩)

def addInPath (s : NamesPriv ο) (path name : Str) (object : ο) : Option (Bool × NamesPriv ο) :=
  if path = namespaceName then s.addInContext none name object
  else s.addInContext (s.find path) name object

def add (s : NamesPriv ο) (name : Str) (object : ο) : Option (Bool × NamesPriv ο) :=
  (splitName name).bind fun r => s.addInPath r.1 r.2 object

def renameInContext (s : NamesPriv ο) (context : Option ο) (oldname newname : Str) :
    Option (Bool × NamesPriv ο) :=
  (s.nodeOf context).map fun node =>
    if s.isDuplicateName node newname then (false, s)
    else
      match s.nameMap node oldname with
      | none => (false, s)
      | some changeNode =>
        (true, ⟨KeyedTables.modify s.objectMap changeNode fun n => { n with name := newname },
          Function.update s.nameMap node
            (Function.update (Function.update (s.nameMap node) oldname none) newname
              (some changeNode))⟩)

def renameInPath (s : NamesPriv ο) (path oldname newname : Str) : Option (Bool × NamesPriv ο) :=
  if path = namespaceName then s.renameInContext none oldname newname
  else s.renameInContext (s.find path) oldname newname

def rename (s : NamesPriv ο) (oldpath newname : Str) : Option (Bool × NamesPriv ο) :=
  (splitName oldpath).bind fun r => s.renameInPath r.1 r.2 newname

def findInContext (s : NamesPriv ο) (context : Option ο) (name : Str) : Option ο :=
  (s.nodeOf context).bind fun node => s.nameMap node name

def findInPath (s : NamesPriv ο) (path name : Str) : Option ο :=
  if path = namespaceName then s.findInContext none name else s.findInContext (s.find path) name

/-- The loop of `FindPath`, from a node to the root -/
def climb (s : NamesPriv ο) : ℕ → Option ο → Str → Option Str
  | _, none, path => some (namespaceName ++ path)
  | 0, some _, _ => none
  | fuel + 1, some object, path =>
    (s.isNamed object).bind fun node => s.climb fuel node.parent ('/' :: node.name ++ path)

/-- No path is longer than the map of all objects. -/
def findPath (s : NamesPriv ο) (object : ο) : Option Str :=
  match s.isNamed object with
  | none => some []
  | some _ => s.climb s.objectMap.length (some object) []

end NamesPriv

/-! ## Calls -/

/-- What a call is about, with or without the namespace in front -/
inductive NameAddress (ο : Type) where
  | whole (rooted : Bool) (segments : List Str)
  | inPath (rooted : Bool) (path : List Str) (name : Str)
  | inContext (context : Option ο) (name : Str)

inductive NamesCall (ο : Type) where
  | add (address : NameAddress ο) (object : ο)
  | rename (address : NameAddress ο) (newname : Str)
  | find (address : NameAddress ο)

inductive NamesResult (ο : Type) where
  | done (ok : Bool)
  | found (object : Option ο)
  deriving DecidableEq

/-- The segments of a path, with a `'/'` between any two -/
def pathString (rooted : Bool) (segments : List Str) : Str :=
  (if rooted then namespaceName ++ ['/'] else []) ++ ['/'].intercalate segments

/-- The namespace itself is the path without segments. -/
def parentString (rooted : Bool) (path : List Str) : Str :=
  if path = [] then namespaceName else pathString rooted path

namespace NamesPriv

variable {ο : Type} [DecidableEq ο]

def addAt (s : NamesPriv ο) (object : ο) : NameAddress ο → Option (Bool × NamesPriv ο)
  | .whole rooted segments => s.add (pathString rooted segments) object
  | .inPath rooted path name => s.addInPath (parentString rooted path) name object
  | .inContext context name => s.addInContext context name object

def renameAt (s : NamesPriv ο) (newname : Str) : NameAddress ο → Option (Bool × NamesPriv ο)
  | .whole rooted segments => s.rename (pathString rooted segments) newname
  | .inPath rooted path name => s.renameInPath (parentString rooted path) name newname
  | .inContext context name => s.renameInContext context name newname

def findAt (s : NamesPriv ο) : NameAddress ο → Option ο
  | .whole rooted segments => s.find (pathString rooted segments)
  | .inPath rooted path name => s.findInPath (parentString rooted path) name
  | .inContext context name => s.findInContext context name

def call (s : NamesPriv ο) : NamesCall ο → Option (NamesResult ο × NamesPriv ο)
  | .add address object => (s.addAt object address).map fun r => (.done r.1, r.2)
  | .rename address newname => (s.renameAt newname address).map fun r => (.done r.1, r.2)
  | .find address => some (.found (s.findAt address), s)

def step (s : NamesPriv ο) (c : NamesCall ο) : Option (NamesPriv ο) := (s.call c).map Prod.snd

end NamesPriv

end Ns3Noc
