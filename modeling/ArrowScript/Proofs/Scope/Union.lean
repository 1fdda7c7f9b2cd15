import ArrowScript.Proofs.Session.Soundness

namespace ArrowScript

/-!
# Imports as unions

An import puts the names of one scope behind those of another one.  It stops at
the first name for which there was no room from the start: what it has brought
itself never takes the room of a name that follows.
-/

theorem Namespace.has_iff_mem {names : Namespace α} {name : String} :
    names.has name = true ↔ name ∈ names.map Prod.fst := by
  induction names with
  | nil => simp [has]
  | cons item rest ih =>
    unfold has at ih ⊢
    rw [List.lookup_cons, List.map_cons, List.mem_cons, ← ih]
    by_cases isFirst : name = item.1
    · simp [isFirst]
    · simp [isFirst, beq_false_of_ne isFirst]

/-- The kind and the name that a fault is about. -/
def ScopeFault.subject : ScopeFault → NameKind × String
  | .alreadyDefined kind name | .undefined kind name | .inaccessible kind name => (kind, name)
  | .groupHasName name | .usedBeforeDeclaration name => (.variableName, name)
  | .variableHasName name => (.groupName, name)

/-- A name that an import brings, with its entry. -/
structure Export where
  kind : NameKind
  name : String
  entry : Entry kind.Content

namespace Scope

/-- The names of a kind, as exports. -/
def exportsOf (kind : NameKind) (scope : Scope) : List Export :=
  (scope.names kind).map fun item => ⟨kind, item.1, item.2⟩

/-- All names of a scope, in the order of an import. -/
def exports (scope : Scope) : List Export :=
  scope.exportsOf .variableName ++ scope.exportsOf .functionName ++ scope.exportsOf .groupName

/-- Put a name behind those of its kind, as a foreign one. -/
def adopt (scope : Scope) : Export → Scope
  | ⟨.variableName, name, entry⟩ =>
    { scope with bindings := scope.bindings ++ [(name, { entry with isForeign := true })] }
  | ⟨.functionName, name, entry⟩ =>
    { scope with functions := scope.functions ++ [(name, { entry with isForeign := true })] }
  | ⟨.groupName, name, entry⟩ =>
    { scope with groups := scope.groups ++ [(name, { entry with isForeign := true })] }

/-- Whether there is no room for a name: variables and groups share their names. -/
def Occupied (scope : Scope) : NameKind → String → Prop
  | .variableName, name | .groupName, name =>
    scope.bindings.has name = true ∨ scope.groups.has name = true
  | .functionName, name => scope.functions.has name = true

variable {scope library : Scope}

/-- All names of a library are imported, or those in front of the first that is occupied. -/
inductive Joins (scope : Scope) (items : List Export) :
    Merged → Prop
  | whole : (∀ item ∈ items, ¬ scope.Occupied item.kind item.name) →
      Joins scope items ⟨items.foldl adopt scope, none⟩
  | upTo {front rest : List Export} {item : Export} {fault : ScopeFault} :
      items = front ++ item :: rest →
        (∀ each ∈ front, ¬ scope.Occupied each.kind each.name) →
      scope.Occupied item.kind item.name → fault.subject = (item.kind, item.name) →
      Joins scope items ⟨front.foldl adopt scope, some fault⟩

theorem kind_and_name_of_mem {kind : NameKind} {item : Export}
    (mem : item ∈ library.exportsOf kind) :
    item.kind = kind ∧ (library.names kind).has item.name = true := by
  obtain ⟨named, isNamed, rfl⟩ := List.mem_map.mp mem
  exact ⟨rfl, Namespace.has_iff_mem.mpr (List.mem_map_of_mem isNamed)⟩

theorem occupied_of_mem {item : Export} (mem : item ∈ scope.exports) :
    scope.Occupied item.kind item.name := by
  rcases List.mem_append.mp mem with ownName | isGroup
  · rcases List.mem_append.mp ownName with isVariable | isFunction
    · obtain ⟨isKind, has⟩ := kind_and_name_of_mem isVariable
      rw [isKind]
      exact .inl has
    · obtain ⟨isKind, has⟩ := kind_and_name_of_mem isFunction
      rw [isKind]
      exact has
  · obtain ⟨isKind, has⟩ := kind_and_name_of_mem isGroup
    rw [isKind]
    exact .inr has

theorem Joins.self {merged : Merged} (joins : Joins scope scope.exports merged) :
    merged.scope = scope := by
  cases joins with
  | whole free =>
    have nothing : scope.exports = [] :=
      List.eq_nil_iff_forall_not_mem.mpr fun item mem =>
        free item mem (occupied_of_mem mem)
    rw [nothing]
    rfl
  | @upTo front rest item _ shape free taken subject =>
    have nothing : front = [] :=
      List.eq_nil_iff_forall_not_mem.mpr fun each mem =>
        free each mem (occupied_of_mem (shape ▸ List.mem_append_left _ mem))
    rw [nothing]
    rfl

end Scope

/-- A library with two variables and a group, and a scope that has a group of the second name. -/
def Store.importing : Store :=
  { Store.empty with
    scopes :=
      #[{ Scope.root with
          bindings := [("a", { value := .null, isPublic := true }), ("b", default)]
          groups := [("c", default)] },
        { Scope.root with groups := [("b", default)] }] }

end ArrowScript
