import ArrowScript.Proofs.Scope.Cell

namespace ArrowScript

/-!
# Operations on scopes

Scopes are used by the scripts that run in them, and by the program around the
scripts.  An operation is one such use: it makes a scope, defines or looks up a
name, assigns to a variable, looks at a member of a group or imports the names
of another scope.  It is answered, and the next one goes on from the store that
it leaves behind, also when it was refused.
-/

/-- What a name of a kind stands for to a reader at a site. -/
def Store.named (store : Store) (registry : Registry) (ref : Ref .scope) (reader : Option Site)
    (name : String) : (kind : NameKind) → Except ScopeFault kind.Content
  | .variableName => store.variableNamed ref reader name
  | .functionName => store.functionNamed registry ref name
  | .groupName => store.groupNamed ref name

/-- A use of scopes; the site is that of the token it belongs to, if any. -/
inductive Operation
  | newScope (parent : Option (Ref .scope))
  | newGroup (group : Group)
  | newFunction (function : Function)
  | define (scope : Ref .scope) (kind : NameKind) (name : String) (content : kind.Content)
      (isPublic : Bool) (site : Option Site)
  | get (scope : Ref .scope) (kind : NameKind) (name : String) (site : Option Site)
  | assign (scope : Ref .scope) (name : String) (value : Value) (site : Option Site)
  | member (group : Ref .scope) (kind : NameKind) (name : String) (reader : Ref .scope)
      (site : Option Site)
  | merge (scope library : Ref .scope) (site : Option Site)

/-- What an operation gives back; an error keeps its place, so that it has its whole message. -/
inductive Answer
  | done
  | scope (ref : Ref .scope)
  | content (kind : NameKind) (content : kind.Content)
  | entry (kind : NameKind) (entry : Entry kind.Content)
  | refused (error : RuntimeError)

/-- The answer to an operation at a site that runs into a fault. -/
def Answer.fault (site : Option Site) (fault : ScopeFault) : Answer :=
  .refused { place := site.map Site.place, fault := .scope fault }

/-- The answer to an operation at a site that gives something or runs into a fault. -/
def Answer.ofResult (site : Option Site) (given : α → Answer) : Except ScopeFault α → Answer
  | .ok value => given value
  | .error reason => fault site reason

namespace Operation

/-- The entry of a new name: only a variable remembers where it was declared. -/
def entryOf (kind : NameKind) (content : kind.Content) (isPublic : Bool)
    (site : Option Site) : Entry kind.Content :=
  { value := content
    isPublic := isPublic
    declared := if kind = .variableName then site else none }

/-- A change of a store that a fault leaves undone. -/
def changing (store : Store) (site : Option Site) : Except ScopeFault Store → Answer × Store
  | .ok changed => (.done, changed)
  | .error fault => (.fault site fault, store)

/-- What an operation answers and leaves behind. -/
def perform (registry : Registry) (store : Store) : Operation → Answer × Store
  | .newScope parent =>
    let (ref, changed) := store.newScope { parent := parent }
    (.scope ref, changed)
  | .newGroup group =>
    let (ref, changed) := store.newGroup group
    (.content .groupName ref, changed)
  | .newFunction fn =>
    let (ref, changed) := store.newFunction fn
    (.content .variableName (.function ref), changed)
  | .define scope kind name content isPublic site =>
    changing store site
      (store.define scope fun each => each.define kind name (entryOf kind content isPublic site))
  | .get scope kind name site =>
    (.ofResult site (.content kind) (store.named registry scope site name kind), store)
  | .assign scope name value site => changing store site (store.assignVariable scope name value)
  | .member group kind name reader site =>
    (.ofResult site (.entry kind) (store.member kind (Scope.names kind) group reader name), store)
  | .merge scope library site =>
    let (changed, fault) := store.merge scope (store.scope library)
    ((fault.map (.fault site)).getD .done, changed)

/-- The answers to operations that follow one another. -/
def answers (registry : Registry) : Store → List Operation → List Answer
  | _, [] => []
  | store, operation :: rest =>
    (operation.perform registry store).1 ::
      answers registry (operation.perform registry store).2 rest

/-- The scope from which an operation looks at names. -/
def reader? : Operation → Option (Ref .scope)
  | .get scope _ _ _ | .assign scope _ _ _ => some scope
  | .member _ _ _ reader _ => some reader
  | .newScope _ | .newGroup _ | .newFunction _ | .define .. | .merge .. => none

end Operation

end ArrowScript
