import ArrowScript.Scope.Basic
import ArrowScript.Value.Object

namespace ArrowScript

/-!
# The store

The store holds everything that values and scopes refer to.  Nothing is ever
removed from it, and a scope is always younger than its parent.
-/

/-- A group that scripts can refer to. -/
structure Group where
  name : String
  scope : Ref .scope
deriving Repr, DecidableEq, Inhabited

/-- All that references point to. -/
structure Store where
  arrays : Array (Array Value) := #[]
  objects : Array Object := #[]
  functions : Array Function := #[]
  groups : Array Group := #[]
  scopes : Array Scope := #[]
  integers : Array Int := #[]
deriving Inhabited

namespace Store

variable (store : Store)

def empty : Store := {}

def items (ref : Ref .array) : Array Value :=
  store.arrays.getD ref.index #[]

def newArray (items : Array Value) : Ref .array × Store :=
  (⟨store.arrays.size⟩, { store with arrays := store.arrays.push items })

def modifyArray (ref : Ref .array) (change : Array Value → Array Value) : Store :=
  { store with arrays := store.arrays.modify ref.index change }

def object (ref : Ref .object) : Object :=
  store.objects.getD ref.index []

def newObject (entries : Object) : Ref .object × Store :=
  (⟨store.objects.size⟩, { store with objects := store.objects.push entries })

def setKey (ref : Ref .object) (key value : Value) : Store :=
  { store with objects := store.objects.modify ref.index (Object.set key value) }

/-- The function that a reference points to. -/
def function? (ref : Ref .function) : Option Function :=
  store.functions[ref.index]?

/-- Store a function. -/
def newFunction (function : Function) : Ref .function × Store :=
  (⟨store.functions.size⟩, { store with functions := store.functions.push function })

/-- The group that a reference points to; behind the last group its scope would be the next one. -/
def group (ref : Ref .group) : Group :=
  store.groups.getD ref.index ⟨"", ⟨store.scopes.size⟩⟩

def newGroup (group : Group) : Ref .group × Store :=
  (⟨store.groups.size⟩, { store with groups := store.groups.push group })

def integer (ref : Ref .integer) : Int :=
  store.integers.getD ref.index 0

/-- Keep an integer of the host. -/
def newInteger (value : Int) : Ref .integer × Store :=
  (⟨store.integers.size⟩, { store with integers := store.integers.push value })

/-- The scope that a reference points to. -/
def scope (ref : Ref .scope) : Scope :=
  store.scopes.getD ref.index .root

def newScope (scope : Scope) : Ref .scope × Store :=
  (⟨store.scopes.size⟩, { store with scopes := store.scopes.push scope })

def modifyScope (ref : Ref .scope) (change : Scope → Scope) : Store :=
  { store with scopes := store.scopes.modify ref.index change }

/-- Put another scope in the place of one. -/
def setScope (ref : Ref .scope) (scope : Scope) : Store :=
  { store with scopes := store.scopes.setIfInBounds ref.index scope }

def setContext (ref : Ref .scope) (context : Option Value) : Store :=
  store.modifyScope ref fun scope => { scope with context := context }

/-- A scope and the scopes around it, innermost first. -/
def chain (ref : Ref .scope) : List (Ref .scope) :=
  match (store.scope ref).parent with
  | none => [ref]
  | some parent =>
      if parent.index < ref.index then ref :: chain parent else [ref]
termination_by ref.index

/-- The outermost scope around a scope. -/
def rootOf (ref : Ref .scope) : Ref .scope :=
  (store.chain ref).getLastD ref

/-- Whether a scope is another one or lies inside it. -/
def isWithin (inner outer : Ref .scope) : Bool :=
  (store.chain inner).contains outer

end Store

end ArrowScript
