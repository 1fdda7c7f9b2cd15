import ArrowScript.Machine.Basic

namespace ArrowScript

/-!
# A store on top of another one

Everything that a store holds can be put behind what another store holds.  Each
reference then has to point further back, by as much as the other store holds in
its region.  Nothing else tells the two apart: what is looked up, changed or
added there is what would be looked up, changed or added in the store alone.
-/

/-- What is there already: a store, and the number of sources read. -/
structure Ground where
  store : Store
  sources : Nat

/-- How many places of a region a ground takes. -/
def Ground.size (ground : Ground) : Region → Nat
  | .array => ground.store.arrays.size
  | .object => ground.store.objects.size
  | .function => ground.store.functions.size
  | .group => ground.store.groups.size
  | .scope => ground.store.scopes.size
  | .integer => ground.store.integers.size

/-- A reference into what lies on the ground. -/
def Ref.on {region : Region} (ref : Ref region) (ground : Ground) : Ref region :=
  ⟨ground.size region + ref.index⟩

/-- The reference that lies on the ground as another one. -/
def Ref.off {region : Region} (ref : Ref region) (ground : Ground) : Ref region :=
  ⟨ref.index - ground.size region⟩

/-- A value with another reference. -/
def Value.withRef (change : {region : Region} → Ref region → Ref region) : Value → Value
  | .array ref => .array (change ref)
  | .object ref => .object (change ref)
  | .function ref => .function (change ref)
  | .group ref => .group (change ref)
  | .integer ref => .integer (change ref)
  | value => value

/-- A value that refers to what lies on the ground. -/
def Value.on (value : Value) (ground : Ground) : Value :=
  value.withRef (·.on ground)

/-- The value that lies on the ground as another one. -/
def Value.off (value : Value) (ground : Ground) : Value :=
  value.withRef (·.off ground)

section

variable {ground : Ground} {region : Region}

@[simp]
theorem Ref.on_inj {left right : Ref region} : left.on ground = right.on ground ↔
    left = right := by
  cases left
  cases right
  simp [Ref.on]

@[simp]
theorem Ref.off_on (ref : Ref region) : (ref.on ground).off ground = ref := by
  cases ref
  simp [Ref.on, Ref.off]

theorem Ref.beq_on (left right : Ref region) :
    (left.on ground == right.on ground) = (left == right) := by
  simp [BEq.beq]

namespace Value

variable (value : Value)

@[simp]
theorem off_on : (value.on ground).off ground = value := by
  cases value <;> simp [on, off, withRef]

@[simp]
theorem on_inj {left right : Value} : left.on ground = right.on ground ↔ left = right := by
  constructor
  · intro same
    rw [← off_on left, same, off_on]
  · exact fun same => same ▸ rfl

@[simp]
theorem same_on (left right : Value) :
    (left.on ground).same (right.on ground) = left.same right := by
  cases left <;> cases right <;> simp [same, on, withRef, Ref.beq_on]

@[simp]
theorem isTrue_on : (value.on ground).isTrue = value.isTrue := by
  cases value <;> rfl

@[simp]
theorem isNull_on : (value.on ground).isNull = value.isNull := by
  cases value <;> rfl

@[simp]
theorem typeName_on : (value.on ground).typeName = value.typeName := by
  cases value <;> rfl

@[simp]
theorem ofConstant_on (constant : Constant) :
    (ofConstant constant).on ground = ofConstant constant := by
  cases constant <;> rfl

end Value

/-- An item as it is above a ground. -/
def Item.on (item : Item) (ground : Ground) : Item :=
  ⟨item.key.on ground, item.value.on ground⟩

@[simp]
theorem Item.key_on (item : Item) : (item.on ground).key = item.key.on ground :=
  rfl

@[simp]
theorem Item.value_on (item : Item) : (item.on ground).value = item.value.on ground :=
  rfl

namespace Object

variable (object : Object) (key value : Value)

/-- An object as it is above a ground. -/
def on (object : Object) (ground : Ground) : Object :=
  object.map (·.on ground)

theorem on_cons (item : Item) (rest : Object) :
    on (item :: rest) ground = item.on ground :: rest.on ground :=
  rfl

@[simp]
theorem contains_on :
    (object.on ground).contains (key.on ground) = object.contains key := by
  simp [contains, on, List.any_map, Function.comp_def]

@[simp]
theorem get?_on :
    (object.on ground).get? (key.on ground) = (object.get? key).map (·.on ground) := by
  simp [get?, on, List.find?_map, Function.comp_def]

@[simp]
theorem set_on :
    set (key.on ground) (value.on ground) (object.on ground) =
      (set key value object).on ground := by
  induction object with
  | nil => rfl
  | cons item rest ih =>
    by_cases isThere : item.key.same key
    · simp [set, on_cons, isThere]
      rfl
    · simp [set, on_cons, isThere, ih]

@[simp]
theorem setAll_on (entries : Object) :
    (object.on ground).setAll (entries.on ground) = (object.setAll entries).on ground := by
  induction entries generalizing object with
  | nil => rfl
  | cons item rest ih =>
    show setAll (set (item.key.on ground) (item.value.on ground) (object.on ground))
        (on rest ground) = (setAll (set item.key item.value object) rest).on ground
    rw [set_on, ih]

end Object

namespace HostValue

mutual

/-- What a function of the host gives back, on the ground. -/
def on (ground : Ground) : HostValue → HostValue
  | .settled value => .settled (value.on ground)
  | .integer value => .integer value
  | .list items => .list (onAll ground items)

/-- Several things that a function of the host gives back, on the ground. -/
def onAll (ground : Ground) : List HostValue → List HostValue
  | [] => []
  | item :: rest => on ground item :: onAll ground rest

end

end HostValue

/-- A function of the host that takes and gives values on the ground. -/
def HostFunction.on (fn : HostFunction) (ground : Ground) : HostFunction :=
  { fn with
    call := fun args =>
      (fn.call (args.map (·.off ground))).map (HostValue.on ground) }

/-- A native as it is above a ground. -/
def Native.on (native : Native) (ground : Ground) : Native :=
  match native with
  | .host fn => .host (fn.on ground)
  | native => native

/-- A function of a script whose closure lies on the ground. -/
def UserFunction.on (fn : UserFunction) (ground : Ground) : UserFunction :=
  { fn with
    closure := fn.closure.on ground
    source := ground.sources + fn.source }

/-- A function as it is above a ground. -/
def Function.on (fn : Function) (ground : Ground) : Function :=
  match fn with
  | .user fn => .user (fn.on ground)
  | .native fn => .native (fn.on ground)

/-- A registry as it is above a ground. -/
def Registry.on (registry : Registry) (ground : Ground) : Registry where
  functions := registry.functions.map (·.on ground)
  groups := registry.groups.map fun group => (group.1, group.2.map (·.on ground))

@[simp]
theorem Native.name_on (native : Native) : (native.on ground).name = native.name := by
  cases native <;> rfl

@[simp]
theorem Native.arity_on (native : Native) : (native.on ground).arity = native.arity := by
  cases native <;> rfl

@[simp]
theorem Function.arity_on (fn : Function) : (fn.on ground).arity = fn.arity := by
  cases fn with
  | user fn => rfl
  | native fn => exact fn.arity_on

@[simp]
theorem Function.shown_on (fn : Function) : (fn.on ground).shown = fn.shown := by
  cases fn with
  | user fn => rfl
  | native fn => simp [shown, on]

@[simp]
theorem Registry.function?_on (registry : Registry) (name : String) :
    (registry.on ground).function? name = (registry.function? name).map (·.on ground) := by
  simp only [function?, on, ← List.map_reverse, List.find?_map, Function.comp_def, Native.name_on]

@[simp]
theorem Registry.group?_on (registry : Registry)
    (name : String) : (registry.on ground).group? name =
      (registry.group? name).map fun natives => natives.map (·.on ground) := by
  unfold group? on
  induction registry.groups with
  | nil => rfl
  | cons group rest ih =>
    obtain ⟨key, natives⟩ := group
    simp only [List.map_cons, List.lookup_cons]
    split
    · rfl
    · exact ih

@[simp]
theorem Registry.standard_on : standard.on ground = standard :=
  rfl

/-- A place in a source that is read later. -/
def Site.on (site : Site) (ground : Ground) : Site :=
  ⟨ground.sources + site.source, site.place⟩

/-- An entry as it is above a ground. -/
def Entry.on (entry : Entry α) (ground : Ground) (moved : α → α) : Entry α :=
  { entry with
    value := moved entry.value
    declared := entry.declared.map (·.on ground) }

@[simp]
theorem Entry.isHidden_on {moved : α → α} (entry : Entry α) :
    (entry.on ground moved).isHidden = entry.isHidden :=
  rfl

namespace Namespace

variable {α : Type}

/-- Names as they are above a ground. -/
def on (names : Namespace α) (ground : Ground) (moved : α → α) : Namespace α :=
  names.map fun item => (item.1, item.2.on ground moved)

variable {moved : α → α}

@[simp]
theorem lookup_on (names : Namespace α) (name : String) :
    (names.on ground moved).lookup name = (names.lookup name).map (·.on ground moved) := by
  induction names with
  | nil => rfl
  | cons item rest ih =>
    obtain ⟨key, entry⟩ := item
    show List.lookup name ((key, entry.on ground moved) :: on rest ground moved) = _
    simp only [List.lookup_cons]
    split
    · rfl
    · exact ih

@[simp]
theorem has_on (names : Namespace α) (name : String) :
    (names.on ground moved).has name = names.has name := by
  simp [has]

theorem assign_on (names : Namespace α) (name : String) (value : α) :
    (names.on ground moved).assign name (moved value) =
      (names.assign name value).on ground moved := by
  simp only [assign, on, List.map_map]
  apply List.map_congr_left
  intro item _
  simp only [Function.comp_apply]
  split <;> rfl

end Namespace

namespace Scope

variable (scope : Scope) (name : String)

/-- A scope as it is above a ground. -/
def on (scope : Scope) (ground : Ground) : Scope where
  parent := scope.parent.map (·.on ground)
  bindings := scope.bindings.on ground (·.on ground)
  functions := scope.functions.on ground (·.on ground)
  groups := scope.groups.on ground (·.on ground)
  context := scope.context.map (·.on ground)

@[simp]
theorem ofNatives_on (natives : List Native) :
    (ofNatives natives).on ground = ofNatives (natives.map (·.on ground)) := by
  simp only [ofNatives, on, Namespace.on, List.map_map]
  simp [Function.comp_def, Entry.on, Function.on, root]

theorem has_on (ground : Ground) (name : String) :
    (scope.on ground).bindings.has name = scope.bindings.has name ∧
      (scope.on ground).functions.has name = scope.functions.has name ∧
      (scope.on ground).groups.has name = scope.groups.has name :=
  ⟨Namespace.has_on _ _, Namespace.has_on _ _, Namespace.has_on _ _⟩

@[simp]
theorem defineVariable_on (entry : Entry Value) :
    (scope.on ground).defineVariable name (entry.on ground (·.on ground)) =
      (scope.defineVariable name entry).map (·.on ground) := by
  obtain ⟨bindings, -, groups⟩ := scope.has_on ground name
  unfold defineVariable
  rw [bindings, groups]
  split
  · rfl
  split
  · rfl
  · simp [Except.map, on, Namespace.on]

@[simp]
theorem defineFunction_on (entry : Entry Function) :
    (scope.on ground).defineFunction name (entry.on ground (·.on ground)) =
      (scope.defineFunction name entry).map (·.on ground) := by
  unfold defineFunction
  rw [(scope.has_on ground name).2.1]
  split
  · rfl
  · simp [Except.map, on, Namespace.on]

@[simp]
theorem defineGroup_on (entry : Entry (Ref .group)) :
    (scope.on ground).defineGroup name (entry.on ground (·.on ground)) =
      (scope.defineGroup name entry).map (·.on ground) := by
  obtain ⟨bindings, -, groups⟩ := scope.has_on ground name
  unfold defineGroup
  rw [bindings, groups]
  split
  · rfl
  split
  · rfl
  · simp [Except.map, on, Namespace.on]

theorem member_on {moved : α → α} (kind : NameKind) (names : Namespace α) (inside : Bool)
    (name : String) : member kind (names.on ground moved) inside name =
      (member kind names inside name).map (·.on ground moved) := by
  unfold member
  rw [Namespace.lookup_on]
  cases names.lookup name with
  | none => rfl
  | some entry =>
    simp only [Option.map_some, Entry.on]
    split <;> rfl

/-- A scope after an import, on the ground. -/
def Merged.on (merged : Merged) (ground : Ground) : Merged :=
  { merged with scope := merged.scope.on ground }

theorem importAll_on {moved : α → α}
    {define : Scope → String → Entry α → Except ScopeFault Scope}
    (defines : ∀ scope name entry, define (scope.on ground) name (entry.on ground moved) =
      (define scope name entry).map (·.on ground))
    (scope : Scope) (names : Namespace α) :
    importAll define (scope.on ground) (names.on ground moved) =
      (importAll define scope names).on ground := by
  induction names generalizing scope with
  | nil => rfl
  | cons item rest ih =>
    obtain ⟨name, entry⟩ := item
    have defined := defines scope name { entry with isForeign := true }
    show importAll define (scope.on ground)
      ((name, entry.on ground moved) :: Namespace.on rest ground moved) = _
    unfold importAll
    cases outcome : define scope name { entry with isForeign := true } with
    | ok changed =>
      rw [outcome] at defined
      simp only [Entry.on, Except.map] at defined ⊢
      rw [defined]
      exact ih changed
    | error fault =>
      rw [outcome] at defined
      simp only [Entry.on, Except.map] at defined ⊢
      rw [defined]
      rfl

theorem Merged.andThen_on {merged first : Merged} {next nextOn : Scope → Merged}
    (same : first = merged.on ground)
    (follows : ∀ scope, nextOn (scope.on ground) = (next scope).on ground) :
    first.andThen nextOn = (merged.andThen next).on ground := by
  subst same
  unfold Merged.andThen
  cases fault : merged.fault with
  | none => simp [Merged.on, fault, follows]
  | some reason => simp [Merged.on, fault]

@[simp]
theorem mergeFrom_on (library : Scope) :
    (scope.on ground).mergeFrom (library.on ground) = (scope.mergeFrom library).on ground := by
  unfold mergeFrom
  apply Merged.andThen_on
  · apply Merged.andThen_on
    · exact importAll_on defineVariable_on scope library.bindings
    · exact fun scope => importAll_on defineFunction_on scope library.functions
  · exact fun scope => importAll_on defineGroup_on scope library.groups

end Scope

/-- A group whose scope lies on the ground. -/
def Group.on (group : Group) (ground : Ground) : Group :=
  { group with scope := group.scope.on ground }

namespace Store

/-- A store behind what is there already. -/
def on (store : Store) (ground : Ground) : Store where
  arrays := ground.store.arrays ++ store.arrays.map (·.map (·.on ground))
  objects := ground.store.objects ++ store.objects.map (·.on ground)
  functions := ground.store.functions ++ store.functions.map (·.on ground)
  groups := ground.store.groups ++ store.groups.map (·.on ground)
  scopes := ground.store.scopes ++ store.scopes.map (·.on ground)
  integers := ground.store.integers ++ store.integers

section

variable {α : Type} (front back : Array α) (moved : α → α)

theorem getElem?_behind (index : Nat) :
    (front ++ back.map moved)[front.size + index]? = back[index]?.map moved := by
  rw [Array.getElem?_append_right (Nat.le_add_right _ _), Nat.add_sub_cancel_left,
    Array.getElem?_map]

theorem getD_behind {fallback other : α} (index : Nat) (same : other = moved fallback) :
    (front ++ back.map moved).getD (front.size + index) other =
      moved (back.getD index fallback) := by
  subst same
  rw [Array.getD_eq_getD_getElem?, getElem?_behind, Array.getD_eq_getD_getElem?]
  cases back[index]? <;> rfl

theorem modify_behind {change changeOn : α → α} (index : Nat)
    (follows : ∀ item, changeOn (moved item) = moved (change item)) :
    (front ++ back.map moved).modify (front.size + index) changeOn =
      front ++ (back.modify index change).map moved := by
  apply Array.ext_getElem?
  intro place
  rw [Array.getElem?_modify]
  by_cases isOld : place < front.size
  · rw [if_neg (by omega), Array.getElem?_append_left isOld, Array.getElem?_append_left isOld]
  · obtain ⟨distance, rfl⟩ := Nat.exists_eq_add_of_le (Nat.le_of_not_lt isOld)
    rw [getElem?_behind, getElem?_behind, Array.getElem?_modify]
    by_cases isHere : index = distance
    · rw [if_pos (by omega), if_pos isHere]
      simp [Option.map_map, Function.comp_def, follows]
    · rw [if_neg (by omega), if_neg isHere]

end

variable (store : Store) (ref : Ref .scope) (name : String)

@[simp]
theorem items_on (ref : Ref .array) :
    (store.on ground).items (ref.on ground) = (store.items ref).map (·.on ground) :=
  getD_behind _ _ _ ref.index (by simp)

@[simp]
theorem object_on (ref : Ref .object) :
    (store.on ground).object (ref.on ground) = (store.object ref).on ground :=
  getD_behind _ _ _ ref.index rfl

theorem newArray_on (items : Array Value) : (store.on ground).newArray (items.map (·.on ground)) =
      ((store.newArray items).1.on ground, (store.newArray items).2.on ground) := by
  simp [newArray, on, Ref.on, Ground.size]

theorem newObject_on (object : Object) : (store.on ground).newObject (object.on ground) =
      ((store.newObject object).1.on ground, (store.newObject object).2.on ground) := by
  simp [newObject, on, Ref.on, Ground.size]

theorem modifyArray_on {change changeOn : Array Value → Array Value} (ref : Ref .array)
    (follows : ∀ items, changeOn (items.map (·.on ground)) = (change items).map (·.on ground)) :
    (store.on ground).modifyArray (ref.on ground) changeOn =
      (store.modifyArray ref change).on ground := by
  have changed := modify_behind ground.store.arrays store.arrays _ ref.index follows
  simp only [modifyArray, on, Ref.on, Ground.size, changed]

theorem setKey_on (ref : Ref .object) (key value : Value) :
    (store.on ground).setKey (ref.on ground) (key.on ground) (value.on ground) =
      (store.setKey ref key value).on ground := by
  have changed :=
    modify_behind ground.store.objects store.objects (·.on ground) ref.index
      fun object => Object.set_on object key value
  simp only [setKey, on, Ref.on, Ground.size, changed]

@[simp]
theorem functionText_on (ref : Ref .function) :
    (store.on ground).functionText (ref.on ground) = store.functionText ref := by
  have found : (store.on ground).function? (ref.on ground) =
      (store.function? ref).map (·.on ground) :=
    getElem?_behind _ _ _ ref.index
  simp [functionText, found, Function.comp_def]

@[simp]
theorem group_on (ref : Ref .group) :
    (store.on ground).group (ref.on ground) = (store.group ref).on ground :=
  getD_behind _ _ _ ref.index (by simp [Group.on, Ref.on, Ground.size, on])

theorem newGroup_on (group : Group) : (store.on ground).newGroup (group.on ground) =
      ((store.newGroup group).1.on ground, (store.newGroup group).2.on ground) := by
  simp [newGroup, on, Ref.on, Ground.size]

@[simp]
theorem integer_on (ref : Ref .integer) :
    (store.on ground).integer (ref.on ground) = store.integer ref := by
  have found : (ground.store.integers ++ store.integers.map id).getD
      (ground.store.integers.size + ref.index) 0 = id (store.integers.getD ref.index 0) :=
    getD_behind _ _ _ ref.index rfl
  simpa [integer, on, Ref.on, Ground.size] using found

@[simp]
theorem scope_on :
    (store.on ground).scope (ref.on ground) = (store.scope ref).on ground :=
  getD_behind _ _ _ ref.index rfl

theorem newScope_on (scope : Scope) : (store.on ground).newScope (scope.on ground) =
      ((store.newScope scope).1.on ground, (store.newScope scope).2.on ground) := by
  simp [newScope, on, Ref.on, Ground.size]

theorem modifyScope_on {change changeOn : Scope → Scope}
    (follows : ∀ scope, changeOn (scope.on ground) = (change scope).on ground) :
    (store.on ground).modifyScope (ref.on ground) changeOn =
      (store.modifyScope ref change).on ground := by
  have changed := modify_behind ground.store.scopes store.scopes (·.on ground) ref.index follows
  simp only [modifyScope, on, Ref.on, Ground.size, changed]

theorem setScope_eq_modifyScope (scope : Scope) :
    store.setScope ref scope = store.modifyScope ref fun _ => scope := by
  simp only [setScope, modifyScope]
  congr 1

theorem setScope_on (scope : Scope) :
    (store.on ground).setScope (ref.on ground) (scope.on ground) =
      (store.setScope ref scope).on ground := by
  rw [setScope_eq_modifyScope, setScope_eq_modifyScope]
  exact store.modifyScope_on ref fun _ => rfl

theorem setContext_on (context : Option Value) :
    (store.on ground).setContext (ref.on ground) (context.map (·.on ground)) =
      (store.setContext ref context).on ground :=
  store.modifyScope_on ref fun _ => rfl

theorem setVariable_on (owner : Ref .scope) (name : String) (value : Value) :
    (store.on ground).setVariable (owner.on ground) name (value.on ground) =
      (store.setVariable owner name value).on ground := by
  apply store.modifyScope_on
  intro scope
  have assigned : (scope.bindings.on ground (·.on ground)).assign name (value.on ground) =
      (scope.bindings.assign name value).on ground (·.on ground) :=
    Namespace.assign_on scope.bindings name value
  simp only [Scope.on, assigned]

theorem chain_on :
    (store.on ground).chain (ref.on ground) = (store.chain ref).map (·.on ground) := by
  fun_induction Store.chain store ref with
  | case1 ref isParent =>
    rw [Store.chain, scope_on]
    simp [Scope.on, isParent]
  | case2 ref parent isParent older ih =>
    have stillOlder : (parent.on ground).index < (ref.on ground).index :=
      Nat.add_lt_add_left older _
    rw [Store.chain, scope_on]
    simp [Scope.on, isParent, stillOlder, ih]
  | case3 ref parent isParent notOlder =>
    have stillNotOlder : ¬ (parent.on ground).index < (ref.on ground).index :=
      fun older => notOlder (Nat.lt_of_add_lt_add_left older)
    rw [Store.chain, scope_on]
    simp [Scope.on, isParent, stillNotOlder]

@[simp]
theorem isWithin_on (inner outer : Ref .scope) :
    (store.on ground).isWithin (inner.on ground) (outer.on ground) =
      store.isWithin inner outer := by
  simp only [isWithin, chain_on, List.contains_eq_any_beq, List.any_map, Function.comp_def,
    Ref.beq_on]

section

variable {α : Type} {names : Scope → Namespace α} {moved : α → α}

variable (follows : ∀ scope, names (scope.on ground) = (names scope).on ground moved)

include follows

theorem find?_on :
    (store.on ground).find? names (ref.on ground) name =
      (store.find? names ref name).map fun found =>
        (found.1.on ground, found.2.on ground moved) := by
  unfold find?
  rw [chain_on, List.findSome?_map, List.map_findSome?]
  congr 1
  funext each
  simp [follows, Function.comp_def]

theorem visible_on (kind : NameKind) (ref : Ref .scope) (name : String) :
    (store.on ground).visible kind names (ref.on ground) name =
      (store.visible kind names ref name).map fun found =>
        (found.1.on ground, found.2.on ground moved) := by
  unfold visible
  rw [store.find?_on ref name follows]
  cases store.find? names ref name with
  | none => rfl
  | some found =>
    by_cases hidden : found.2.isHidden
    · simp [hidden, Except.map]
    · simp [hidden, Except.map]

theorem member_on (kind : NameKind) (group reader : Ref .scope) (name : String) :
    (store.on ground).member kind names (group.on ground) (reader.on ground) name =
      (store.member kind names group reader name).map (·.on ground moved) := by
  unfold member
  rw [scope_on, follows, isWithin_on]
  exact Scope.member_on kind _ _ name

end

theorem isEarly_on {moved : α → α} (reader : Option Site) (entry : Entry α) :
    isEarly (reader.map (·.on ground)) (entry.on ground moved) = isEarly reader entry := by
  unfold isEarly
  cases reader with
  | none => rfl
  | some site =>
    cases declared : entry.declared with
    | none => simp [Entry.on, declared]
    | some place => simp [Entry.on, declared, Site.on, BEq.beq]

theorem variableNamed_on (reader : Option Site) (name : String) :
    (store.on ground).variableNamed (ref.on ground) (reader.map (·.on ground)) name =
      (store.variableNamed ref reader name).map (·.on ground) := by
  unfold variableNamed
  rw [store.visible_on (fun _ => rfl) .variableName ref name]
  cases store.visible .variableName Scope.bindings ref name with
  | error fault => rfl
  | ok found =>
    obtain ⟨owner, entry⟩ := found
    simp only [Except.map, bind, Except.bind, isEarly_on]
    split <;> rfl

theorem ownerOf_on :
    (store.on ground).ownerOf (ref.on ground) name =
      (store.ownerOf ref name).map (·.on ground) := by
  unfold ownerOf
  rw [store.visible_on (fun _ => rfl) .variableName ref name]
  cases store.visible .variableName Scope.bindings ref name <;> rfl

theorem groupNamed_on :
    (store.on ground).groupNamed (ref.on ground) name =
      (store.groupNamed ref name).map (·.on ground) := by
  unfold groupNamed
  rw [store.visible_on (fun _ => rfl) .groupName ref name]
  cases store.visible .groupName Scope.groups ref name <;> rfl

theorem functionNamed_on (registry : Registry) (ref : Ref .scope) (name : String) :
    (store.on ground).functionNamed (registry.on ground) (ref.on ground) name =
      (store.functionNamed registry ref name).map (·.on ground) := by
  unfold functionNamed
  rw [store.visible_on (fun _ => rfl) .functionName ref name, Registry.function?_on]
  cases store.visible .functionName Scope.functions ref name with
  | ok found => rfl
  | error fault => cases fault <;> cases registry.function? name <;> rfl

theorem merge_on (library : Scope) :
    (store.on ground).merge (ref.on ground) (library.on ground) =
      ((store.merge ref library).1.on ground, (store.merge ref library).2) := by
  unfold merge
  rw [scope_on, Scope.mergeFrom_on]
  simp only [Scope.Merged.on, setScope_on]

end Store

end

end ArrowScript
