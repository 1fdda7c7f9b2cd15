import ArrowScript.Proofs.Evaluation.Allowance
import ArrowScript.Proofs.Evaluation.Breaks
import ArrowScript.Proofs.Files.Standing
import ArrowScript.Proofs.Native.Quiet
import ArrowScript.Proofs.Scope.Declaration

namespace ArrowScript

/-!
# Laws of what a machine may hold

A law says which values may stand in variables, arrays, objects and `@` of a
store, which natives functions may be, which functions the program around may
have made values of and how many sources may have been read.  Whatever the law,
groups refer to scopes that are there.

A law may make demands on programs: on their tasks, on the functions that they
declare and on the ways in which they fail.

A law may also have a silent side: a second machine that runs beside the first
one without a trace and on the files from before the trace was opened.
-/

variable {ref : Ref .scope}

/-- Whether a value is a function. -/
def Value.isFunction : Value → Bool
  | .function _ => true
  | _ => false

/-- Whether a value refers neither to a function nor to a container. -/
def Value.isPlain : Value → Bool
  | .function _ | .array _ | .object _ => false
  | _ => true

theorem Value.isFunction_of_isPlain {value : Value} (isPlain : value.isPlain = true) :
    value.isFunction = false := by
  cases value with
  | function ref => cases isPlain
  | _ => rfl

/-- Whether a native looks at files or changes them. -/
def Native.usesFiles : Native → Bool
  | .readFile | .writeFile | .deleteFile | .deleteDirectory | .makeDirectory | .listFiles => true
  | _ => false

theorem Registry.group?_standard {name : String} {natives : List Native}
    (found : standard.group? name = some natives) : name = "IO" ∧ natives =
          [.readFile, .writeFile, .deleteFile, .deleteDirectory, .makeDirectory, .listFiles] ∨
      name = "Regex" ∧ natives = [.matchFirst, .matchAll, .replaceMatches] := by
  have listed : (name, natives) ∈ standard.groups := by
    obtain ⟨front, back, shape, -⟩ := List.lookup_eq_some_iff.mp found
    rw [shape]
    exact List.mem_append_right front List.mem_cons_self
  simpa [standard] using listed

/-- What tasks are done, what functions are declared, and how tasks fail. -/
structure Demand where
  task : Task → Prop
  function : UserFunction → Prop
  fault : Fault → Prop
  hard : Failure → Prop
  possible : ∀ each, each.Possible → fault each
  exhausted : hard .exhausted

namespace Demand

def nothing : Demand :=
  ⟨fun _ => True, fun _ => True, fun _ => True, fun _ => True, fun _ _ => trivial, trivial⟩

variable (demand : Demand)

/-- A failure that is allowed, whatever calls are noted on it. -/
def fails : Failure → Prop
  | .raised error => demand.fault error.fault
  | failure => demand.hard failure

/-- The statements of a body are allowed. -/
def body (body : Block) : Prop :=
  ∀ stmt ∈ body.statements, demand.task (.execute stmt)

def allowance : Allowance where
  hands expression := demand.task (.evaluate expression)
  block := demand.body
  each _ := demand.body
  binds _ := True
  defines name params body :=
    ∀ scope source,
      demand.function ⟨name.textValue, params.map Token.lexeme, body, scope, source⟩
  group _ body :=
    demand.body body ∧ (demand.fault .breakOutside ∨ Stmt.listBreaks body.statements = [])
  fault := demand.fault
  strays := demand.hard .unexpectedNode
  possible := demand.possible

/-- Allowed tasks ask for what is allowed, and so do declared functions and valid programs. -/
structure Coherent : Prop where
  expressions : ∀ expression, demand.task (.evaluate expression) →
    demand.allowance.Fits expression
  statements :
    ∀ statement, demand.task (.execute statement) → demand.allowance.FitsStatement statement
  bodies : ∀ function, demand.function function → demand.body function.body
  programs : ∀ text, (read text).valid = true →
    ∀ statement ∈ (read text).statements, demand.task (.execute statement)

theorem nothing_fails (failure : Failure) : nothing.fails failure := by
  cases failure <;> trivial

theorem nothing_coherent : nothing.Coherent := by
  have lax : nothing.allowance.IsLax := by
    constructor <;> simp [allowance, nothing, body]
  exact ⟨fun expr _ => Allowance.fits_of_lax lax expr,
    fun stmt _ => Allowance.fitsStatement_of_lax lax stmt, fun _ _ _ _ => trivial,
    fun _ _ _ _ => trivial⟩

end Demand

/-- A store that has at least the scopes of another one. -/
def Store.Expands (before after : Store) : Prop :=
  before.scopes.size ≤ after.scopes.size

namespace Store.Expands

variable {before middle after : Store} (store : Store)

theorem refl : store.Expands store :=
  Nat.le_refl _

theorem trans (first : before.Expands middle) (second : middle.Expands after) :
    before.Expands after :=
  Nat.le_trans first second

theorem hasScope (expands : before.Expands after)
    (existing : before.HasScope ref) : after.HasScope ref :=
  Nat.lt_of_lt_of_le existing expands

theorem setScope (ref : Ref .scope) (scope : Scope) :
    store.Expands (store.setScope ref scope) :=
  Nat.le_of_eq (size_setScope store ref scope).symm

theorem modifyScope (ref : Ref .scope) (change : Scope → Scope) :
    store.Expands (store.modifyScope ref change) :=
  Nat.le_of_eq (size_modifyScope store ref change).symm

theorem newScope (scope : Scope) : store.Expands (store.newScope scope).2 := by
  simp [Expands, Store.newScope]

end Store.Expands

/-- A store that has at least what another one has. -/
structure Store.Precedes (before after : Store) : Prop where
  scopes : before.Expands after
  groups : before.groups.size ≤ after.groups.size
  arrays : before.arrays.size ≤ after.arrays.size
  objects : before.objects.size ≤ after.objects.size

namespace Store.Precedes

variable {before middle after : Store} (store : Store)

theorem refl : store.Precedes store :=
  ⟨.refl store, Nat.le_refl _, Nat.le_refl _, Nat.le_refl _⟩

theorem trans (first : before.Precedes middle) (second : middle.Precedes after) :
    before.Precedes after :=
  ⟨first.scopes.trans second.scopes, Nat.le_trans first.groups second.groups,
    Nat.le_trans first.arrays second.arrays, Nat.le_trans first.objects second.objects⟩

theorem of_scopes {store : Store} {scopes : Array Scope}
    (expands : store.scopes.size ≤ scopes.size) :
      store.Precedes { store with scopes := scopes } :=
  ⟨expands, Nat.le_refl _, Nat.le_refl _, Nat.le_refl _⟩

theorem setScope (ref : Ref .scope) (scope : Scope) :
    store.Precedes (store.setScope ref scope) :=
  of_scopes (Expands.setScope store ref scope)

theorem modifyScope (ref : Ref .scope) (change : Scope → Scope) :
    store.Precedes (store.modifyScope ref change) :=
  of_scopes (Expands.modifyScope store ref change)

theorem newScope (scope : Scope) : store.Precedes (store.newScope scope).2 :=
  of_scopes (Expands.newScope store scope)

theorem newGroup (group : Group) : store.Precedes (store.newGroup group).2 :=
  { refl store with groups := by simp [Store.newGroup] }

theorem of_arrays {store : Store} {arrays : Array (Array Value)}
    (grown : store.arrays.size ≤ arrays.size) : store.Precedes { store with arrays := arrays } :=
  { refl store with arrays := grown }

theorem newArray (items : Array Value) : store.Precedes (store.newArray items).2 :=
  of_arrays (by simp)

theorem of_objects {store : Store} {objects : Array Object}
    (grown : store.objects.size ≤ objects.size) :
    store.Precedes { store with objects := objects } :=
  { refl store with objects := grown }

end Store.Precedes

/-- What machines may hold, and the files of the silent machine beside them, if there is one. -/
structure Law where
  value : Store → Value → Prop
  native : Native → Prop
  functions : Array Function → Prop
  registry : Registry → Prop
  sources : Nat → Prop
  silent : Option FileTree
  demand : Demand := .nothing
  plain : ∀ store each, each.isPlain = true → value store each
  array : ∀ store (ref : Ref .array), ref.index < store.arrays.size → value store (.array ref)
  object : ∀ store (ref : Ref .object), ref.index < store.objects.size →
    value store (.object ref)
  later :
    ∀ before after : Store, before.Precedes after → ∀ each, value before each →
      value after each
  registered : ∀ known : Registry, registry known → ∀ each ∈ known.functions, native each
  hosted : ∀ function, native (.host function) → ∀ store each, value store each
  fileless : ∀ files ∈ silent, ∀ each : Native, native each → each.usesFiles = false
  coherent : demand.Coherent := by exact Demand.nothing_coherent

/-- A law that leaves everything open but which functions are values. -/
def Law.lax (functions : Array Function → Prop) : Law where
  value _ _ := True
  native _ := True
  functions := functions
  registry _ := True
  sources _ := True
  silent := none
  plain _ _ _ := trivial
  array _ _ _ := trivial
  object _ _ _ := trivial
  later _ _ _ _ _ := trivial
  registered _ _ _ _ := trivial
  hosted _ _ _ _ := trivial
  fileless := by simp

/-- A native that the law allows, or a function that a program may declare. -/
def Law.function (law : Law) : Function → Prop
  | .native native => law.native native
  | .user fn => law.demand.function fn

section

variable {known : Value → Prop} {object entries : Object} {key value : Value}

theorem Object.forall_set (allowed : ∀ item ∈ object, known item.key ∧ known item.value)
    (keyAllowed : known key) (valueAllowed : known value) :
    ∀ item ∈ object.set key value, known item.key ∧ known item.value := by
  induction object with
  | nil => simpa [Object.set] using ⟨keyAllowed, valueAllowed⟩
  | cons head rest ih =>
    obtain ⟨first, later⟩ := List.forall_mem_cons.mp allowed
    unfold Object.set
    split
    · exact List.forall_mem_cons.mpr ⟨⟨keyAllowed, valueAllowed⟩, later⟩
    · exact List.forall_mem_cons.mpr ⟨first, ih later⟩

theorem Object.forall_setAll (allowed : ∀ item ∈ object, known item.key ∧ known item.value)
    (entriesAllowed : ∀ item ∈ entries, known item.key ∧ known item.value) :
    ∀ item ∈ object.setAll entries, known item.key ∧ known item.value := by
  unfold Object.setAll
  induction entries generalizing object with
  | nil => exact allowed
  | cons head rest ih =>
    obtain ⟨first, later⟩ := List.forall_mem_cons.mp entriesAllowed
    exact ih (forall_set allowed first.1 first.2) later

end

/-- A scope holds only what a law allows in a store, and groups that are there. -/
structure Law.AllowsScope (law : Law) (store : Store) (scope : Scope) : Prop where
  bindings : ∀ item ∈ scope.bindings, law.value store item.2.value
  context : ∀ value ∈ scope.context, law.value store value
  functions : ∀ item ∈ scope.functions, law.function item.2.value
  groups : ∀ item ∈ scope.groups, item.2.value.index < store.groups.size

namespace Law.AllowsScope

variable {law : Law} {store : Store} {scope library : Scope}

theorem mono {later : Store} (allows : law.AllowsScope store scope)
    (precedes : store.Precedes later) : law.AllowsScope later scope where
  bindings item member := law.later store later precedes _ (allows.bindings item member)
  context value member := law.later store later precedes _ (allows.context value member)
  functions := allows.functions
  groups item member := Nat.lt_of_lt_of_le (allows.groups item member) precedes.groups

theorem blank (parent : Option (Ref .scope)) : law.AllowsScope store { parent := parent } where
  bindings := by simp
  context := by simp
  functions := by simp
  groups := by simp

theorem ofNatives {natives : List Native} (allowed : ∀ native ∈ natives, law.native native) :
    law.AllowsScope store (.ofNatives natives) where
  bindings := by simp [Scope.ofNatives, Scope.root]
  context := by simp [Scope.ofNatives, Scope.root]
  functions item mem := by
    obtain ⟨native, listed, rfl⟩ := List.mem_map.mp mem
    exact allowed native listed
  groups := by simp [Scope.ofNatives, Scope.root]

section

variable (allows : law.AllowsScope store scope)

include allows

theorem setContext {context : Option Value}
    (allowed : ∀ value ∈ context, law.value store value) :
    law.AllowsScope store { scope with context := context } :=
  { allows with context := allowed }

theorem assign {value : Value} (allowed : law.value store value) (name : String) :
    law.AllowsScope store { scope with bindings := scope.bindings.assign name value } := by
  refine { allows with bindings := ?_ }
  intro item mem
  obtain ⟨old, listed, rfl⟩ := List.mem_map.mp mem
  split
  · exact allowed
  · exact allows.bindings old listed

theorem add {additions : Additions}
    (bindings : ∀ item ∈ additions.bindings, law.value store item.2.value)
    (functions : ∀ item ∈ additions.functions, law.function item.2.value)
    (groups : ∀ item ∈ additions.groups, item.2.value.index < store.groups.size) :
    law.AllowsScope store (scope.add additions) where
  bindings := List.forall_mem_append.mpr ⟨allows.bindings, bindings⟩
  context := allows.context
  functions := List.forall_mem_append.mpr ⟨allows.functions, functions⟩
  groups := List.forall_mem_append.mpr ⟨allows.groups, groups⟩

variable {name : String} {defined : Scope}

theorem defineVariable {entry : Entry Value} (allowed : law.value store entry.value)
    (ran : scope.defineVariable name entry = .ok defined) : law.AllowsScope store defined := by
  rw [Scope.defineVariable_eq_add ran]
  exact allows.add (by simpa using allowed) (by simp) (by simp)

theorem defineFunction {entry : Entry Function} (allowed : law.function entry.value)
    (ran : scope.defineFunction name entry = .ok defined) : law.AllowsScope store defined := by
  rw [Scope.defineFunction_eq_add ran]
  exact allows.add (by simp) (by simpa using allowed) (by simp)

theorem defineGroup {entry : Entry (Ref .group)} (isThere : entry.value.index < store.groups.size)
    (ran : scope.defineGroup name entry = .ok defined) : law.AllowsScope store defined := by
  rw [Scope.defineGroup_eq_add ran]
  exact allows.add (by simp) (by simp) (by simpa using isThere)

theorem mergeFrom (libraryAllows : law.AllowsScope store library) :
    law.AllowsScope store (scope.mergeFrom library).scope := by
  obtain ⟨additions, shape, imported⟩ := Scope.mergeFrom_eq_add scope library
  rw [shape]
  apply allows.add
  · intro item isNew
    obtain ⟨original, inLibrary, rfl⟩ := List.mem_map.mp (imported.bindings.subset isNew)
    exact libraryAllows.bindings original inLibrary
  · intro item isNew
    obtain ⟨original, inLibrary, rfl⟩ := List.mem_map.mp (imported.functions.subset isNew)
    exact libraryAllows.functions original inLibrary
  · intro item isNew
    obtain ⟨original, inLibrary, rfl⟩ := List.mem_map.mp (imported.groups.subset isNew)
    exact libraryAllows.groups original inLibrary

end

end Law.AllowsScope

/-- What a store holds is allowed in another; its groups and their names refer to what is there. -/
structure Law.AllowsIn (law : Law) (within store : Store) : Prop where
  arrays : ∀ items ∈ store.arrays, ∀ value ∈ items, law.value within value
  objects : ∀ object ∈ store.objects, ∀ item ∈ object,
    law.value within item.key ∧ law.value within item.value
  functions : law.functions store.functions
  groups : ∀ group ∈ store.groups, within.HasScope group.scope
  scopes : ∀ ref, law.AllowsScope within (store.scope ref)

/-- A store holds only what a law allows. -/
abbrev Law.AllowsStore (law : Law) (store : Store) : Prop :=
  law.AllowsIn store store

namespace Law.AllowsIn

variable {law : Law} {within store : Store}

theorem mono {later : Store} (allows : law.AllowsIn within store)
    (precedes : within.Precedes later) : law.AllowsIn later store where
  arrays items member value held :=
    law.later within later precedes value (allows.arrays items member value held)
  objects object member item held :=
    (allows.objects object member item held).imp (law.later within later precedes _)
      (law.later within later precedes _)
  functions := allows.functions
  groups group member := precedes.scopes.hasScope (allows.groups group member)
  scopes ref := (allows.scopes ref).mono precedes

theorem empty (allowed : law.functions #[]) : law.AllowsIn within .empty where
  arrays := by simp [Store.empty]
  objects := by simp [Store.empty]
  functions := allowed
  groups := by simp [Store.empty]
  scopes _ := .blank none

theorem mem_modify {items : Array α} {index : Nat} {change : α → α} {item : α}
    (mem : item ∈ items.modify index change) :
    item ∈ items ∨ ∃ old ∈ items, item = change old := by
  obtain ⟨pos, found⟩ := Array.mem_iff_getElem?.mp mem
  rw [Array.getElem?_modify] at found
  split at found
  · obtain ⟨old, listed, rfl⟩ := Option.map_eq_some_iff.mp found
    exact .inr ⟨old, Array.mem_of_getElem? listed, rfl⟩
  · exact .inl (Array.mem_of_getElem? found)

section

variable (allows : law.AllowsIn within store)

include allows

theorem items (ref : Ref .array) : ∀ value ∈ store.items ref, law.value within value := by
  intro value mem
  unfold Store.items at mem
  rw [Array.getD_eq_getD_getElem?] at mem
  cases found : store.arrays[ref.index]? with
  | none =>
    rw [found] at mem
    simp at mem
  | some items =>
    rw [found] at mem
    exact allows.arrays items (Array.mem_of_getElem? found) value mem

theorem object (ref : Ref .object) :
    ∀ item ∈ store.object ref, law.value within item.key ∧ law.value within item.value := by
  intro item mem
  unfold Store.object at mem
  rw [Array.getD_eq_getD_getElem?] at mem
  cases found : store.objects[ref.index]? with
  | none =>
    rw [found] at mem
    simp at mem
  | some object =>
    rw [found] at mem
    exact allows.objects object (Array.mem_of_getElem? found) item mem

variable {name : String} {value : Value} {object : Object}

theorem variableNamed {reader : Option Site}
    (found : store.variableNamed ref reader name = .ok value) : law.value within value := by
  unfold Store.variableNamed at found
  cases seen : store.visible .variableName Scope.bindings ref name with
  | error fault =>
    rw [seen] at found
    cases found
  | ok result =>
    obtain ⟨owner, entry⟩ := result
    obtain ⟨-, looked, -⟩ := Store.visible_eq_ok seen
    rw [seen] at found
    simp only [bind, Except.bind] at found
    split at found
    · cases found
    · cases found
      exact (allows.scopes owner).bindings _ (Namespace.mem_of_lookup looked)

theorem member {group reader : Ref .scope} {entry : Entry Value}
    (found : store.member .variableName Scope.bindings group reader name = .ok entry) :
    law.value within entry.value := by
  obtain ⟨located, -⟩ := Store.member_eq_ok found
  exact (allows.scopes group).bindings _ (Namespace.mem_of_lookup located)

theorem memberFunction {group reader : Ref .scope} {entry : Entry Function}
    (found : store.member .functionName Scope.functions group reader name = .ok entry) :
    law.function entry.value := by
  obtain ⟨located, -⟩ := Store.member_eq_ok found
  exact (allows.scopes group).functions _ (Namespace.mem_of_lookup located)

theorem functionNamed {registry : Registry} {fn : Function}
    (known : law.registry registry) (found : store.functionNamed registry ref name = .ok fn) :
    law.function fn := by
  unfold Store.functionNamed at found
  split at found
  · rename_i owner entry seen
    obtain ⟨-, looked, -⟩ := Store.visible_eq_ok seen
    cases found
    exact (allows.scopes owner).functions _ (Namespace.mem_of_lookup looked)
  · split at found
    · rename_i native listed _
      cases found
      exact law.registered registry known native
        (List.mem_reverse.mp (List.mem_of_find?_eq_some listed))
    · cases found

theorem newArray {values : Array Value} (allowed : ∀ value ∈ values, law.value within value) :
    law.AllowsIn within (store.newArray values).2 := by
  refine { allows with arrays := ?_ }
  intro items mem
  rcases Array.mem_push.mp mem with old | rfl
  · exact allows.arrays items old
  · exact allowed

theorem newObject
    (allowed : ∀ item ∈ object, law.value within item.key ∧ law.value within item.value) :
    law.AllowsIn within (store.newObject object).2 := by
  refine { allows with objects := ?_ }
  intro known mem
  rcases Array.mem_push.mp mem with old | rfl
  · exact allows.objects known old
  · exact allowed

theorem modifyArray {change : Array Value → Array Value} (ref : Ref .array)
    (allowed : ∀ items : Array Value, (∀ value ∈ items, law.value within value) →
      ∀ value ∈ change items, law.value within value) :
    law.AllowsIn within (store.modifyArray ref change) := by
  refine { allows with arrays := ?_ }
  intro items mem
  rcases mem_modify mem with old | ⟨before, old, rfl⟩
  · exact allows.arrays items old
  · exact allowed before (allows.arrays before old)

theorem setKey {key : Value} (ref : Ref .object) (keyAllowed : law.value within key)
    (valueAllowed : law.value within value) : law.AllowsIn within (store.setKey ref key value) := by
  refine { allows with objects := ?_ }
  intro object mem
  rcases mem_modify mem with old | ⟨before, old, rfl⟩
  · exact allows.objects object old
  · exact Object.forall_set (allows.objects before old) keyAllowed valueAllowed

theorem withScopes {scopes : Array Scope}
    (allowed : ∀ ref, law.AllowsScope within
      (({ store with scopes := scopes } : Store).scope ref)) :
    law.AllowsIn within { store with scopes := scopes } :=
  ⟨allows.arrays, allows.objects, allows.functions, allows.groups, allowed⟩

theorem newScope {scope : Scope} (allowed : law.AllowsScope within scope) :
    law.AllowsIn within (store.newScope scope).2 := by
  apply allows.withScopes
  intro ref
  have known := allows.scopes ref
  simp only [Store.scope, Array.getD_eq_getD_getElem?, Array.getElem?_push] at known ⊢
  split
  · exact allowed
  · exact known

theorem modifyScope {change : Scope → Scope}
    (allowed : law.AllowsScope within (change (store.scope ref))) :
    law.AllowsIn within (store.modifyScope ref change) := by
  apply allows.withScopes
  intro each
  show law.AllowsScope within ((store.modifyScope ref change).scope each)
  by_cases isRef : each = ref
  · subst isRef
    by_cases existing : store.HasScope each
    · rw [Store.scope_modifyScope_self existing]
      exact allowed
    · have absent : ¬ (store.modifyScope each change).HasScope each := by
        unfold Store.HasScope
        rwa [Store.size_modifyScope]
      rw [Store.scope_of_not_hasScope absent]
      exact .blank none
  · rw [Store.scope_modifyScope_other isRef]
    exact allows.scopes each

theorem setScope {scope : Scope} (allowed : law.AllowsScope within scope) :
    law.AllowsIn within (store.setScope ref scope) := by
  have replaced : law.AllowsIn within (store.modifyScope ref fun _ => scope) :=
    allows.modifyScope allowed
  exact replaced

theorem newGroup {group : Group} (existing : within.HasScope group.scope) :
    law.AllowsIn within (store.newGroup group).2 := by
  refine ⟨allows.arrays, allows.objects, allows.functions, ?_, allows.scopes⟩
  intro known mem
  rcases Array.mem_push.mp mem with old | rfl
  · exact allows.groups known old
  · exact existing

end

end Law.AllowsIn

end ArrowScript
