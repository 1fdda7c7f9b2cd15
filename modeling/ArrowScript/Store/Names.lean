import ArrowScript.Store.Basic

namespace ArrowScript

/-!
# Names along the scope chain

A name stands for the entry of the nearest scope that defines it.  A hidden
entry is not skipped: it makes the name inaccessible.
-/

namespace Store

/-- The nearest scope that defines a name, and the entry there. -/
def find? (store : Store) (names : Scope → Namespace α) (ref : Ref .scope)
    (name : String) : Option (Ref .scope × Entry α) :=
  (store.chain ref).findSome? fun each =>
    ((names (store.scope each)).lookup name).map fun entry => (each, entry)

/-- The nearest entry of a name, if scripts may see it. -/
def visible (store : Store) (kind : NameKind) (names : Scope → Namespace α)
    (ref : Ref .scope) (name : String) : Except ScopeFault (Ref .scope × Entry α) :=
  match store.find? names ref name with
  | none => .error (.undefined kind name)
  | some found =>
      if found.2.isHidden then .error (.inaccessible kind name) else .ok found

/-- Whether a reader stands in front of the declaration of an entry, in the same source. -/
def isEarly (reader : Option Site) (entry : Entry α) : Bool :=
  match reader, entry.declared with
  | some reader, some declared =>
      !entry.isForeign && reader.source == declared.source &&
        decide (reader.place.offset < declared.place.offset)
  | _, _ => false

/-- The value of the variable that a name stands for. -/
def variableNamed (store : Store) (ref : Ref .scope) (reader : Option Site)
    (name : String) : Except ScopeFault Value := do
  let (_, entry) ← store.visible .variableName Scope.bindings ref name
  if isEarly reader entry then .error (.usedBeforeDeclaration name) else .ok entry.value

/-- The scope whose variable an assignment changes. -/
def ownerOf (store : Store) (ref : Ref .scope)
    (name : String) : Except ScopeFault (Ref .scope) := do
  let (owner, _) ← store.visible .variableName Scope.bindings ref name
  return owner

/-- Set a variable of a scope. -/
def setVariable (store : Store) (owner : Ref .scope) (name : String) (value : Value) : Store :=
  store.modifyScope owner fun scope =>
    { scope with bindings := scope.bindings.assign name value }

/-- Assign to the variable that a name stands for. -/
def assignVariable (store : Store) (ref : Ref .scope) (name : String)
    (value : Value) : Except ScopeFault Store := do
  return store.setVariable (← store.ownerOf ref name) name value

/-- The function of a name; natives of the registry stand behind all scopes. -/
def functionNamed (store : Store) (registry : Registry) (ref : Ref .scope)
    (name : String) : Except ScopeFault Function :=
  match store.visible .functionName Scope.functions ref name with
  | .ok (_, entry) => .ok entry.value
  | .error fault =>
      match fault, registry.function? name with
      | .undefined _ _, some native => .ok (.native native)
      | fault, _ => .error fault

/-- The group that a name stands for. -/
def groupNamed (store : Store) (ref : Ref .scope)
    (name : String) : Except ScopeFault (Ref .group) := do
  let (_, entry) ← store.visible .groupName Scope.groups ref name
  return entry.value

/-- Define a name in a scope by a change that may be refused. -/
def define (store : Store) (ref : Ref .scope)
    (change : Scope → Except ScopeFault Scope) : Except ScopeFault Store := do
  return store.setScope ref (← change (store.scope ref))

/-- Look up a member of the scope of a group for a reader in another scope. -/
def member (store : Store) (kind : NameKind) (names : Scope → Namespace α)
    (group reader : Ref .scope) (name : String) : Except ScopeFault (Entry α) :=
  Scope.member kind (names (store.scope group)) (store.isWithin reader group) name

/-- Import every name of a scope into another one; what was imported before a fault stays. -/
def merge (store : Store) (ref : Ref .scope) (library : Scope) : Store × Option ScopeFault :=
  let merged := (store.scope ref).mergeFrom library
  (store.setScope ref merged.scope, merged.fault)

end Store

end ArrowScript
