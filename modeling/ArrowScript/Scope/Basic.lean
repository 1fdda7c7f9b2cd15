import ArrowScript.Value.Function

namespace ArrowScript

/-!
# Scopes

A scope has three namespaces, for variables, functions and groups, and a slot
for the value of `@`.  A variable and a group of one scope never share a name.
-/

/-- A place in one of the sources read. -/
structure Site where
  source : Nat
  place : Position
deriving Repr, DecidableEq

/-- What a name stands for, and who may see it. -/
structure Entry (α : Type) where
  value : α
  isPublic : Bool
  /-- Reached through an import; only public entries are visible then. -/
  isForeign : Bool := false
  declared : Option Site := none
deriving DecidableEq, Inhabited

/-- An imported entry that its own source kept to itself. -/
def Entry.isHidden (entry : Entry α) : Bool :=
  entry.isForeign && !entry.isPublic

/-- Names with their entries, in the order of definition. -/
abbrev Namespace (α : Type) := List (String × Entry α)

def Namespace.has (names : Namespace α) (name : String) : Bool :=
  (names.lookup name).isSome

/-- Replace the value of a name. -/
def Namespace.assign (names : Namespace α) (name : String) (value : α) : Namespace α :=
  names.map fun each =>
    if each.1 == name then (each.1, { each.2 with value := value }) else each

/-- A scope: the bindings of its variables, its functions and groups, and the value of `@`. -/
structure Scope where
  parent : Option (Ref .scope)
  bindings : Namespace Value := []
  functions : Namespace Function := []
  groups : Namespace (Ref .group) := []
  context : Option Value := none
deriving Inhabited

/-- The kinds of names, each with a namespace of its own. -/
inductive NameKind
  | variableName
  | functionName
  | groupName
deriving Repr, DecidableEq

def NameKind.title : NameKind → String
  | .variableName => "Variable"
  | .functionName => "Function"
  | .groupName => "Group"

def NameKind.word : NameKind → String
  | .variableName => "variable"
  | .functionName => "function"
  | .groupName => "group"

/-- How a name of a kind is shown where scripts call functions with a sign in front. -/
def NameKind.shown (kind : NameKind) (name : String) : String :=
  match kind with
  | .functionName => "@" ++ name
  | _ => name

/-- Why a name cannot be defined or used. -/
inductive ScopeFault
  | alreadyDefined (kind : NameKind) (name : String)
  | groupHasName (name : String)
  | variableHasName (name : String)
  | undefined (kind : NameKind) (name : String)
  | inaccessible (kind : NameKind) (name : String)
  | usedBeforeDeclaration (name : String)
deriving Repr, DecidableEq

def ScopeFault.message : ScopeFault → String
  | .alreadyDefined kind name =>
      kind.title ++ " '" ++ kind.shown name ++ "' has already been defined."
  | .groupHasName name =>
      "Cannot define a variable with the same name as the group '" ++ name ++ "'."
  | .variableHasName name =>
      "Cannot define a group with the same name as the variable '" ++ name ++ "'."
  | .undefined kind name => "Undefined " ++ kind.word ++ " '" ++ kind.shown name ++ "'."
  | .inaccessible kind name => kind.title ++ " '" ++ name ++ "' is inaccessible."
  | .usedBeforeDeclaration name => "Variable '" ++ name ++ "' is used before its declaration."

namespace Scope

def root : Scope := { parent := none }

def child (parent : Ref .scope) : Scope := { parent := some parent }

/-- The scope of a group of natives: all of them are public. -/
def ofNatives (natives : List Native) : Scope :=
  { root with
    functions :=
      natives.map fun native => (native.name, { value := .native native, isPublic := true }) }

/-- Define a variable, unless a variable or group has the name. -/
def defineVariable (scope : Scope) (name : String)
    (entry : Entry Value) : Except ScopeFault Scope :=
  if scope.bindings.has name then .error (.alreadyDefined .variableName name)
  else if scope.groups.has name then .error (.groupHasName name)
  else .ok { scope with bindings := scope.bindings ++ [(name, entry)] }

/-- Define a function, unless one has the name. -/
def defineFunction (scope : Scope) (name : String)
    (entry : Entry Function) : Except ScopeFault Scope :=
  if scope.functions.has name then .error (.alreadyDefined .functionName name)
  else .ok { scope with functions := scope.functions ++ [(name, entry)] }

/-- Define a group, unless a group or variable has the name. -/
def defineGroup (scope : Scope) (name : String)
    (entry : Entry (Ref .group)) : Except ScopeFault Scope :=
  if scope.groups.has name then .error (.alreadyDefined .groupName name)
  else if scope.bindings.has name then .error (.variableHasName name)
  else .ok { scope with groups := scope.groups ++ [(name, entry)] }

/-- Look up a member in the namespace of its kind; `inside`: the reader stands inside the group. -/
def member (kind : NameKind) (names : Namespace α) (inside : Bool)
    (name : String) : Except ScopeFault (Entry α) :=
  match names.lookup name with
  | none => .error (.undefined kind name)
  | some entry =>
      if !entry.isPublic && (entry.isForeign || !inside) then .error (.inaccessible kind name)
      else .ok entry

/-- A scope and the fault that ended its change early, if any. -/
structure Merged where
  scope : Scope
  fault : Option ScopeFault

/-- Define names one after another up to the first fault, as imported ones. -/
def importAll (define : Scope → String → Entry α → Except ScopeFault Scope) :
    Scope → Namespace α → Merged
  | scope, [] => ⟨scope, none⟩
  | scope, (name, entry) :: rest =>
      match define scope name { entry with isForeign := true } with
      | .ok defined => importAll define defined rest
      | .error fault => ⟨scope, some fault⟩

/-- Go on with an import unless it has stopped. -/
def Merged.andThen (merged : Merged) (next : Scope → Merged) : Merged :=
  match merged.fault with
  | none => next merged.scope
  | some _ => merged

/-- Import every name of another scope: variables, functions and groups, in this order. -/
def mergeFrom (scope library : Scope) : Merged :=
  ((importAll defineVariable scope library.bindings).andThen fun scope =>
    importAll defineFunction scope library.functions).andThen fun scope =>
      importAll defineGroup scope library.groups

end Scope

end ArrowScript
