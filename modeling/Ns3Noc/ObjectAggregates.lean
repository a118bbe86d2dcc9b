import Mathlib

/-!
# Aggregated objects

Objects that are aggregated share an array. User code calls `AggregateObject`, `GetObject` and `Start`,
also from inside `NotifyNewAggregate` and `DoStart`; a stack holds the loops that wait for it to return.
-/
namespace Ns3Noc

/-- The hierarchy of the TypeIds; going up from one ends at that of `Object`. -/
structure TypeIds (τ : Type) where
  parent : τ → τ
  object : τ
  depth : τ → ℕ
  depth_parent : ∀ tid, tid ≠ object → depth (parent tid) < depth tid

namespace TypeIds

variable {τ : Type} [DecidableEq τ]

/-- The loop that looks for `tid` among the parents -/
def climb (types : TypeIds τ) (tid : τ) : ℕ → τ → Bool
  | 0, cur => cur = tid
  | n + 1, cur =>
    if cur ≠ tid ∧ cur ≠ types.object then types.climb tid n (types.parent cur) else cur = tid

def isA (types : TypeIds τ) (cur tid : τ) : Bool := types.climb tid (types.depth cur) cur

end TypeIds

/-- The array of an object at first, or one that was allocated later -/
inductive AggregatesPtr (ω : Type) where
  | own (object : ω)
  | merged (n : ℕ)
  deriving DecidableEq

/-- What waits for user code: the notification of the `i`-th object of two old arrays, or `Start` of an
object, for `DoStart` of another one. -/
inductive ObjectFrame (ω : Type) where
  | notifying (a b : AggregatesPtr ω) (i : ℕ)
  | starting (object current : ω)

/-- The members of all objects and the allocated arrays. The successful calls of `AggregateObject` and
the calls of `DoStart` are recorded. -/
structure Objects (ω : Type) where
  aggregates : ω → AggregatesPtr ω
  buffer : AggregatesPtr ω → Option (List ω)
  allocated : ℕ
  getObjectCount : ω → UInt32
  started : ω → Bool
  stack : List (ObjectFrame ω)
  aggregated : List (ω × ω)
  doStarts : ω → ℕ

/-- Calls of user code, and its return -/
inductive ObjectCall (ω τ : Type) where
  | aggregateObject (x o : ω)
  | getObject (x : ω) (tid : τ)
  | start (x : ω)
  | ret

/-- The element `j` goes up past those with a smaller count. -/
def updateSortedArray {ω : Type} (count : ω → UInt32) (buffer : List ω) : ℕ → List ω
  | 0 => buffer
  | j + 1 =>
    match buffer[j]?, buffer[j + 1]? with
    | some previous, some current =>
      if count current > count previous then
        updateSortedArray count ((buffer.set j current).set (j + 1) previous) j
      else buffer
    | _, _ => buffer

namespace Objects

variable {ω τ : Type} [DecidableEq ω] [DecidableEq τ]

def init : Objects ω where
  aggregates := .own
  buffer
    | .own object => some [object]
    | .merged _ => none
  allocated := 0
  getObjectCount _ := 0
  started _ := false
  stack := []
  aggregated := []
  doStarts _ := 0

/-- The array of an object, unless it is freed -/
def members (s : Objects ω) (x : ω) : Option (List ω) := s.buffer (s.aggregates x)

section
variable (types : TypeIds τ) (typeId : ω → τ)

def doGetObject (s : Objects ω) (x : ω) (tid : τ) : Option (Option ω × Objects ω) := do
  let array ← s.members x
  match array.findIdx? fun current => types.isA (typeId current) tid with
  | none => some (none, s)
  | some i => do
    let current ← array[i]?
    let getObjectCount := Function.update s.getObjectCount current (s.getObjectCount current + 1)
    some (some current, { s with
      getObjectCount
      buffer := Function.update s.buffer (s.aggregates x)
        (some (updateSortedArray getObjectCount array i)) })

/-- The loops that notify the objects of both old arrays, from index `i` on -/
def notifyFrom (s : Objects ω) (a b : AggregatesPtr ω) (i : ℕ) : Option (Objects ω) := do
  let own ← s.buffer a
  let other ← s.buffer b
  if i < own.length + other.length then some { s with stack := .notifying a b i :: s.stack }
  else some { s with buffer := Function.update (Function.update s.buffer a none) b none }

/-- The new array of two aggregates -/
def mergeArrays (s : Objects ω) (own other : List ω) : List ω :=
  other.foldl (fun array current =>
    updateSortedArray s.getObjectCount (array ++ [current]) array.length) own

/-- The program stops where the type of `o` is found. -/
def aggregateObject (s : Objects ω) (x o : ω) : Option (Objects ω) := do
  let (found, s) ← s.doGetObject types typeId x (typeId o)
  if found.isSome then none
  else
    let own ← s.members x
    let other ← s.members o
    let array := s.mergeArrays own other
    notifyFrom { s with
      aggregates := fun current => if current ∈ array then .merged s.allocated else s.aggregates current
      buffer := Function.update s.buffer (.merged s.allocated) (some array)
      allocated := s.allocated + 1
      aggregated := s.aggregated ++ [(x, o)] } (s.aggregates x) (s.aggregates o) 0

/-- The first object that `Start` has to start -/
def nextStart (s : Objects ω) (x : ω) : Option (Option ω) :=
  (s.members x).map fun array => array.find? fun current => !s.started current

/-- The loop of `Start`, up to the next `DoStart` -/
def startFrom (s : Objects ω) (x : ω) : Option (Objects ω) :=
  (s.nextStart x).map fun next =>
    match next with
    | none => s
    | some current => { s with
        stack := .starting x current :: s.stack
        doStarts := Function.update s.doStarts current (s.doStarts current + 1) }

def step (s : Objects ω) : ObjectCall ω τ → Option (Objects ω)
  | .aggregateObject x o => s.aggregateObject types typeId x o
  | .getObject x tid => (s.doGetObject types typeId x tid).map Prod.snd
  | .start x => s.startFrom x
  | .ret =>
    match s.stack with
    | [] => none
    | .notifying a b i :: stack => notifyFrom { s with stack } a b (i + 1)
    | .starting x current :: stack =>
      startFrom { s with stack, started := Function.update s.started current true } x

end

end Objects

end Ns3Noc
