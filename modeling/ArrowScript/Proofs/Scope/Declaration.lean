import ArrowScript.Proofs.Scope.Progress

namespace ArrowScript

/-!
# What a declaration adds to a scope

Declarations and imports add entries behind those that a scope has and touch
nothing else.  What is added was declared in the code that runs, or it is
foreign and the code imports something.
-/

/-- Entries to be put behind those of a scope. -/
structure Additions where
  bindings : Namespace Value := []
  functions : Namespace Function := []
  groups : Namespace (Ref .group) := []

namespace Scope

/-- A scope with more names. -/
def add (scope : Scope) (additions : Additions) : Scope :=
  { scope with
    bindings := scope.bindings ++ additions.bindings
    functions := scope.functions ++ additions.functions
    groups := scope.groups ++ additions.groups }

variable {scope defined : Scope} {name : String}

theorem defineVariable_eq_add {entry : Entry Value}
    (ran : scope.defineVariable name entry = .ok defined) :
    defined = scope.add { bindings := [(name, entry)] } := by
  unfold defineVariable at ran
  split at ran
  · cases ran
  split at ran
  · cases ran
  · cases ran
    simp [add]

theorem defineFunction_eq_add {entry : Entry Function}
    (ran : scope.defineFunction name entry = .ok defined) :
    defined = scope.add { functions := [(name, entry)] } := by
  unfold defineFunction at ran
  split at ran
  · cases ran
  · cases ran
    simp [add]

theorem defineGroup_eq_add {entry : Entry (Ref .group)}
    (ran : scope.defineGroup name entry = .ok defined) :
    defined = scope.add { groups := [(name, entry)] } := by
  unfold defineGroup at ran
  split at ran
  · cases ran
  split at ran
  · cases ran
  · cases ran
    simp [add]

end Scope

/-- A name with its entry as an import brings it. -/
def Namespace.asForeign (item : String × Entry α) : String × Entry α :=
  (item.1, { item.2 with isForeign := true })

namespace Scope

/-- Importing names adds some of the first of them, as foreign ones. -/
theorem importAll_eq {define : Scope → String → Entry α → Except ScopeFault Scope}
    (extend : Scope → Namespace α → Scope) (extend_nil : ∀ scope, extend scope [] = scope)
    (extend_append :
      ∀ scope first second, extend (extend scope first) second = extend scope (first ++ second))
    (defines : ∀ {scope name entry defined}, define scope name entry = .ok defined →
      defined = extend scope [(name, entry)])
    (scope : Scope) (names : Namespace α) :
    ∃ imported, (importAll define scope names).scope = extend scope imported ∧
      imported <+: names.map Namespace.asForeign := by
  induction names generalizing scope with
  | nil => exact ⟨[], (extend_nil scope).symm, List.nil_prefix⟩
  | cons item rest ih =>
    obtain ⟨name, entry⟩ := item
    unfold importAll
    split
    · rename_i defined ran
      obtain ⟨imported, shape, inFront⟩ := ih defined
      refine ⟨Namespace.asForeign (name, entry) :: imported, ?_, ?_⟩
      · rw [shape, defines ran, extend_append]
        rfl
      · exact List.cons_prefix_cons.mpr ⟨rfl, inFront⟩
    · exact ⟨[], (extend_nil scope).symm, List.nil_prefix⟩

/-- What a scope gains from an import comes first in the library. -/
structure Imported (library : Scope) (additions : Additions) : Prop where
  bindings : additions.bindings <+: library.bindings.map Namespace.asForeign
  functions : additions.functions <+: library.functions.map Namespace.asForeign
  groups : additions.groups <+: library.groups.map Namespace.asForeign

theorem importVariables_eq (scope : Scope) (names : Namespace Value) : ∃ imported,
      (importAll defineVariable scope names).scope = scope.add { bindings := imported } ∧
        imported <+: names.map Namespace.asForeign := by
  apply importAll_eq fun scope bindings => scope.add { bindings := bindings }
  · exact fun scope => by simp [add]
  · exact fun scope first second => by simp [add]
  · exact defineVariable_eq_add

theorem importFunctions_eq (scope : Scope) (names : Namespace Function) : ∃ imported,
      (importAll defineFunction scope names).scope = scope.add { functions := imported } ∧
        imported <+: names.map Namespace.asForeign := by
  apply importAll_eq fun scope functions => scope.add { functions := functions }
  · exact fun scope => by simp [add]
  · exact fun scope first second => by simp [add]
  · exact defineFunction_eq_add

theorem importGroups_eq (scope : Scope) (names : Namespace (Ref .group)) : ∃ imported,
      (importAll defineGroup scope names).scope = scope.add { groups := imported } ∧
        imported <+: names.map Namespace.asForeign := by
  apply importAll_eq fun scope groups => scope.add { groups := groups }
  · exact fun scope => by simp [add]
  · exact fun scope first second => by simp [add]
  · exact defineGroup_eq_add

/-- An import adds some of the first variables, functions and groups of a library, all foreign. -/
theorem mergeFrom_eq_add (scope library : Scope) : ∃ additions,
      (scope.mergeFrom library).scope = scope.add additions ∧ Imported library additions := by
  obtain ⟨bindings, variablesShape, variablesFront⟩ :=
    importVariables_eq scope library.bindings
  unfold mergeFrom
  generalize importAll defineVariable scope library.bindings = first at variablesShape ⊢
  cases firstFault : first.fault with
  | some fault =>
    simp only [Merged.andThen, firstFault]
    exact ⟨⟨bindings, [], []⟩, variablesShape, variablesFront, List.nil_prefix,
      List.nil_prefix⟩
  | none =>
    simp only [Merged.andThen, firstFault]
    obtain ⟨fns, functionsShape, functionsFront⟩ :=
      importFunctions_eq first.scope library.functions
    rw [variablesShape] at functionsShape
    rw [variablesShape]
    generalize importAll defineFunction (scope.add { bindings := bindings })
      library.functions = second at functionsShape ⊢
    cases secondFault : second.fault with
    | some fault =>
      refine ⟨⟨bindings, fns, []⟩, ?_, variablesFront, functionsFront,
        List.nil_prefix⟩
      simp [functionsShape, add]
    | none =>
      obtain ⟨groups, groupsShape, groupsFront⟩ :=
        importGroups_eq second.scope library.groups
      refine ⟨⟨bindings, fns, groups⟩, ?_, variablesFront, functionsFront,
        groupsFront⟩
      simp only
      rw [groupsShape, functionsShape]
      simp [add]

end Scope

/-- A variable that code running in a frame declares. -/
def Declared.Variable (frame : Frame) (outline : List Element)
    (item : String × Entry Value) : Prop :=
  ∃ name,
    .variable name ∈ outline ∧
      item.1 = name.lexeme ∧
      item.2.isForeign = false ∧
      item.2.declared = some (frame.site name)

/-- A function that code running in a frame declares. -/
def Declared.Function (frame : Frame) (outline : List Element)
    (item : String × Entry Function) : Prop :=
  ∃ name params block,
    .function name params block ∈ outline ∧
      item.1 = name.textValue ∧
      item.2.value =
        .user ⟨name.textValue, params.map Token.lexeme, block, frame.scope, frame.source⟩

/-- A group that code declares. -/
def Declared.Group (outline : List Element) (item : String × Entry (Ref .group)) : Prop :=
  ∃ name, .group name ∈ outline ∧ item.1 = name.lexeme

/-- An entry that comes from an import, in code that imports something. -/
def Entry.IsImported (outline : List Element) (entry : Entry α) : Prop :=
  entry.isForeign = true ∧ ∃ path, .use path ∈ outline

/-- Every one of the entries is imported or declared by code that runs in a frame. -/
structure Additions.Introduced (additions : Additions) (frame : Frame)
    (outline : List Element) : Prop where
  bindings : ∀ item ∈ additions.bindings,
    item.2.IsImported outline ∨ Declared.Variable frame outline item
  functions : ∀ item ∈ additions.functions,
    item.2.IsImported outline ∨ Declared.Function frame outline item
  groups : ∀ item ∈ additions.groups, item.2.IsImported outline ∨ Declared.Group outline item

/-- Every variable among the entries, and every function of a script, is declared by the code. -/
structure Additions.Declared (additions : Additions) (frame : Frame)
    (outline : List Element) : Prop where
  bindings : ∀ item ∈ additions.bindings, Declared.Variable frame outline item
  functions : ∀ item ∈ additions.functions, ∀ function, item.2.value = .user function →
    Declared.Function frame outline item

theorem Scope.Imported.introduced {library : Scope} {additions : Additions} {outline : List Element}
    {path : Token} (imported : Scope.Imported library additions) (frame : Frame)
    (mem : .use path ∈ outline) : additions.Introduced frame outline where
  bindings := by
    intro item isNew
    obtain ⟨original, -, rfl⟩ := List.mem_map.mp (imported.bindings.subset isNew)
    exact .inl ⟨rfl, path, mem⟩
  functions := by
    intro item isNew
    obtain ⟨original, -, rfl⟩ := List.mem_map.mp (imported.functions.subset isNew)
    exact .inl ⟨rfl, path, mem⟩
  groups := by
    intro item isNew
    obtain ⟨original, -, rfl⟩ := List.mem_map.mp (imported.groups.subset isNew)
    exact .inl ⟨rfl, path, mem⟩

/-- Natives bring no variables and no functions of a script. -/
theorem Scope.Imported.declared_of_natives {natives : List Native} {additions : Additions}
    (imported : Scope.Imported (.ofNatives natives) additions) (frame : Frame)
    (outline : List Element) : additions.Declared frame outline where
  bindings := by
    intro item isNew
    obtain ⟨original, inLibrary, -⟩ := List.mem_map.mp (imported.bindings.subset isNew)
    cases inLibrary
  functions := by
    intro item isNew fn isUser
    obtain ⟨original, inLibrary, rfl⟩ := List.mem_map.mp (imported.functions.subset isNew)
    obtain ⟨native, -, rfl⟩ := List.mem_map.mp inLibrary
    cases isUser

/-- A declaration adds entries to the scope of its frame, and the code accounts for each. -/
theorem Declares.exists_add {frame : Frame} {outline : List Element} {store : Store} {scope : Scope}
    (declares : Declares frame outline store scope) :
    ∃ additions : Additions, scope = (store.scope frame.scope).add additions ∧
      additions.Introduced frame outline ∧ additions.Declared frame outline := by
  cases declares with
  | @declareVariable name value isPublic _ mem defined =>
    have declared : Declared.Variable frame outline (name.lexeme,
        { value := value, isPublic := isPublic, declared := some (frame.site name) }) :=
      ⟨name, mem, rfl, rfl, rfl⟩
    refine ⟨_, Scope.defineVariable_eq_add defined, ⟨?_, by simp, by simp⟩,
      ⟨?_, by simp⟩⟩
    · exact fun item isNew => .inr (List.mem_singleton.mp isNew ▸ declared)
    · exact fun item isNew => List.mem_singleton.mp isNew ▸ declared
  | @declareFunction name params block isPublic _ mem defined =>
    have declared : Declared.Function frame outline
        (name.textValue,
          { value :=
              .user ⟨name.textValue, params.map Token.lexeme, block, frame.scope, frame.source⟩
            isPublic := isPublic }) :=
      ⟨name, params, block, mem, rfl, rfl⟩
    refine ⟨_, Scope.defineFunction_eq_add defined, ⟨by simp, ?_, by simp⟩,
      ⟨by simp, ?_⟩⟩
    · exact fun item isNew => .inr (List.mem_singleton.mp isNew ▸ declared)
    · exact fun item isNew _ _ => List.mem_singleton.mp isNew ▸ declared
  | @declareGroup name group isPublic _ mem defined =>
    refine ⟨_, Scope.defineGroup_eq_add defined, ⟨by simp, by simp, ?_⟩,
      ⟨by simp, by simp⟩⟩
    intro item isNew
    rw [List.mem_singleton.mp isNew]
    exact .inr ⟨name, mem, rfl⟩
  | useNatives mem =>
    obtain ⟨additions, shape, imported⟩ := Scope.mergeFrom_eq_add (store.scope frame.scope) _
    exact
      ⟨additions, shape, imported.introduced frame mem,
        imported.declared_of_natives frame outline⟩

end ArrowScript
