import ArrowScript.Proofs.Scope.Lookup

namespace ArrowScript

/-!
# Cells of scopes

A cell is a name of some kind in some scope.  Filling it otherwise replaces what
the name stands for and leaves the rest of the entry.  New names may be defined
before or after that, and whole scopes be merged: what comes out is the same,
and every entry keeps its traits.
-/

/-- Where a name is kept. -/
structure Cell where
  scope : Ref .scope
  kind : NameKind
  name : String
deriving DecidableEq

namespace Namespace

variable {α : Type}

theorem assign_cons (first : String) (entry : Entry α) (rest : Namespace α) (name : String)
    (value : α) : Namespace.assign ((first, entry) :: rest) name value =
      (first, if first = name then { entry with value := value } else entry) ::
        rest.assign name value := by
  by_cases isFirst : first = name <;> simp [assign, isFirst]

variable (names : Namespace α)

theorem lookup_assign_other {name other : String} (different : other ≠ name)
    (value : α) : (names.assign name value).lookup other = names.lookup other := by
  induction names with
  | nil => rfl
  | cons item rest ih =>
    obtain ⟨first, entry⟩ := item
    rw [assign_cons, List.lookup_cons, List.lookup_cons, ih]
    by_cases isFirst : first = name
    · have notOther : (other == first) = false := by
        simpa [isFirst] using different
      rw [notOther]
    · rw [if_neg isFirst]

theorem lookup_assign_self {names : Namespace α} {name : String} {entry : Entry α}
    (found : names.lookup name = some entry) (value : α) :
    (names.assign name value).lookup name = some { entry with value := value } := by
  induction names with
  | nil => cases found
  | cons item rest ih =>
    obtain ⟨first, present⟩ := item
    rw [assign_cons, List.lookup_cons]
    rw [List.lookup_cons] at found
    by_cases isFirst : name = first
    · subst isFirst
      simp only [beq_self_eq_true, Option.some.injEq] at found
      simp only [beq_self_eq_true, ↓reduceIte, found]
    · rw [beq_false_of_ne isFirst] at found
      rw [beq_false_of_ne isFirst]
      exact ih found

theorem has_assign (name other : String) (value : α) :
    (names.assign name value).has other = names.has other := by
  have same := lookup_of_shape_eq other (names.shape_assign name value)
  unfold has
  rw [← Option.isSome_map, same, Option.isSome_map]

variable {name other : String}

theorem assign_append_other (different : other ≠ name) (value : α)
    (entry : Entry α) : names.assign name value ++ [(other, entry)] =
      Namespace.assign (names ++ [(other, entry)]) name value := by
  simp [assign, different]

theorem assign_comm (different : other ≠ name) (value otherValue : α) :
    (names.assign name value).assign other otherValue =
      (names.assign other otherValue).assign name value := by
  unfold assign
  rw [List.map_map, List.map_map]
  apply List.map_congr_left
  intro item _
  by_cases isName : item.1 = name
  · have notOther : item.1 ≠ other := by
      rw [isName]
      exact different.symm
    simp [isName, different.symm]
  · by_cases isOther : item.1 = other
    · simp [isOther, different]
    · simp [isName, isOther]

end Namespace

namespace Scope

/-- Replace what a name of a kind stands for. -/
def put : (kind : NameKind) → (name : String) → (content : kind.Content) → Scope → Scope
  | .variableName, name, content, scope =>
    { scope with bindings := scope.bindings.assign name content }
  | .functionName, name, content, scope =>
    { scope with functions := scope.functions.assign name content }
  | .groupName, name, content, scope => { scope with groups := scope.groups.assign name content }

variable {kind : NameKind} {name : String} {content : kind.Content}

@[simp]
theorem parent_put (scope : Scope) : (scope.put kind name content).parent = scope.parent := by
  cases kind <;> rfl

@[simp]
theorem context_put (scope : Scope) : (scope.put kind name content).context = scope.context := by
  cases kind <;> rfl

theorem put_root : root.put kind name content = root := by
  cases kind <;> rfl

theorem names_put_self (scope : Scope) :
    (scope.put kind name content).names kind = (scope.names kind).assign name content := by
  cases kind <;> rfl

theorem names_put_other {other : NameKind} (different : other ≠ kind) (scope : Scope) :
    (scope.put kind name content).names other = scope.names other := by
  cases kind <;> cases other <;> first | rfl | exact (different rfl).elim

theorem shape_put (other : NameKind) (scope : Scope) :
    ((scope.put kind name content).names other).shape = (scope.names other).shape := by
  by_cases same : other = kind
  · subst same
    rw [names_put_self, Namespace.shape_assign]
  · rw [names_put_other same]

@[simp]
theorem has_put (other : NameKind) (text : String) (scope : Scope) :
    ((scope.put kind name content).names other).has text = (scope.names other).has text := by
  by_cases same : other = kind
  · subst same
    rw [names_put_self, Namespace.has_assign]
  · rw [names_put_other same]

theorem put_comm_setBinding {text : String}
    (different : (⟨.variableName, text⟩ : (_ : NameKind) × String) ≠ ⟨kind, name⟩)
    (value : Value)
    (scope : Scope) :
    let update (scope : Scope) : Scope :=
      { scope with bindings := scope.bindings.assign text value }
    update (scope.put kind name content) = (update scope).put kind name content := by
  cases kind with
  | variableName =>
    have otherName : text ≠ name := by
      rintro rfl
      exact different rfl
    simp only [put, Namespace.assign_comm _ otherName]
  | functionName => rfl
  | groupName => rfl

/-- A later state of a scope, in which no entry is gone and none has other traits. -/
structure Retains (before after : Scope) : Prop where
  parent : after.parent = before.parent
  traits : ∀ kind name traits,
    ((before.names kind).lookup name).map Entry.traits = some traits →
    ((after.names kind).lookup name).map Entry.traits = some traits

namespace Retains

variable {first second third : Scope}

theorem of_shapes (parent : second.parent = first.parent)
    (shapes : ∀ kind, (second.names kind).shape = (first.names kind).shape) :
    first.Retains second where
  parent := parent
  traits kind name traits found := by
    rw [Namespace.lookup_of_shape_eq name (shapes kind)]
    exact found

theorem of_alike (alike : first.Alike second) : first.Retains second := by
  apply of_shapes alike.parent
  intro kind
  cases kind with
  | variableName => exact alike.bindings
  | functionName => exact congrArg Namespace.shape alike.functions
  | groupName => exact congrArg Namespace.shape alike.groups

theorem refl (scope : Scope) : scope.Retains scope :=
  of_alike (.refl scope)

theorem trans (earlier : first.Retains second) (later : second.Retains third) :
    first.Retains third where
  parent := later.parent.trans earlier.parent
  traits kind name traits found :=
    later.traits kind name traits (earlier.traits kind name traits found)

theorem add (scope : Scope) (additions : Additions) : scope.Retains (scope.add additions) where
  parent := rfl
  traits kind name traits found := by
    obtain ⟨entry, isThere, rfl⟩ := Option.map_eq_some_iff.mp found
    have appended : ∃ more, (scope.add additions).names kind = scope.names kind ++ more := by
      cases kind <;> exact ⟨_, rfl⟩
    obtain ⟨more, shape⟩ := appended
    rw [shape, List.lookup_append, isThere]
    rfl

theorem has {name : String} (retains : first.Retains second)
    (held : (first.names kind).has name = true) : (second.names kind).has name = true := by
  obtain ⟨entry, isThere⟩ := Option.isSome_iff_exists.mp held
  have found := retains.traits kind name entry.traits (by rw [isThere]; rfl)
  obtain ⟨later, isLater, -⟩ := Option.map_eq_some_iff.mp found
  exact Option.isSome_iff_exists.mpr ⟨later, isLater⟩

end Retains

/-- Define a name of a kind. -/
def define : (kind : NameKind) → Scope → String → Entry kind.Content →
    Except ScopeFault Scope
  | .variableName => defineVariable
  | .functionName => defineFunction
  | .groupName => defineGroup

/-- Put an entry behind those of its kind. -/
def append : (kind : NameKind) → String → Entry kind.Content → Scope → Scope
  | .variableName, name, entry, scope =>
    { scope with bindings := scope.bindings ++ [(name, entry)] }
  | .functionName, name, entry, scope =>
    { scope with functions := scope.functions ++ [(name, entry)] }
  | .groupName, name, entry, scope => { scope with groups := scope.groups ++ [(name, entry)] }

variable {scope other : Scope} {text : String}

/-- A definition is refused, or appends an entry to those of its kind; the names show which. -/
theorem define_alike (kind : NameKind) (text : String)
    (same : ∀ kind text, (other.names kind).has text = (scope.names kind).has text) :
    (∃ fault, ∀ entry otherEntry, scope.define kind text entry = .error fault ∧
        other.define kind text otherEntry = .error fault) ∨
          ¬ (scope.names kind).has text = true ∧
      ∀ entry otherEntry, scope.define kind text entry = .ok (scope.append kind text entry) ∧
          other.define kind text otherEntry = .ok (other.append kind text otherEntry) := by
  have sameVariable : other.bindings.has text = scope.bindings.has text := same .variableName text
  have sameFunction : other.functions.has text = scope.functions.has text := same .functionName text
  have sameGroup : other.groups.has text = scope.groups.has text := same .groupName text
  cases kind <;>
    simp only [define, defineVariable, defineFunction, defineGroup, sameVariable, sameFunction,
      sameGroup] <;>
    split
  · exact .inl ⟨_, fun _ _ => ⟨rfl, rfl⟩⟩
  · split
    · exact .inl ⟨_, fun _ _ => ⟨rfl, rfl⟩⟩
    · exact .inr ⟨by assumption, fun _ _ => ⟨rfl, rfl⟩⟩
  · exact .inl ⟨_, fun _ _ => ⟨rfl, rfl⟩⟩
  · exact .inr ⟨by assumption, fun _ _ => ⟨rfl, rfl⟩⟩
  · exact .inl ⟨_, fun _ _ => ⟨rfl, rfl⟩⟩
  · split
    · exact .inl ⟨_, fun _ _ => ⟨rfl, rfl⟩⟩
    · exact .inr ⟨by assumption, fun _ _ => ⟨rfl, rfl⟩⟩

theorem retains_of_define {entry : Entry kind.Content}
    (ran : scope.define kind text entry = .ok other) : scope.Retains other := by
  cases kind with
  | variableName => exact defineVariable_eq_add ran ▸ .add scope _
  | functionName => exact defineFunction_eq_add ran ▸ .add scope _
  | groupName => exact defineGroup_eq_add ran ▸ .add scope _

/-- A change of suitable scopes that leaves names taken and new entries where they are. -/
structure Subtle (suits : Scope → Prop) (change : Scope → Scope) : Prop where
  retained : ∀ {before after : Scope}, suits before → before.Retains after → suits after
  parent : ∀ scope, (change scope).parent = scope.parent
  has : ∀ scope kind text, ((change scope).names kind).has text = (scope.names kind).has text
  append : ∀ {scope : Scope} {kind text}, suits scope →
    ¬ (scope.names kind).has text = true →
    ∀ entry, (change scope).append kind text entry = change (scope.append kind text entry)

/-- Filling a cell that is filled already is not noticed. -/
theorem put_subtle (kind : NameKind) (name : String) (content : kind.Content) :
    Subtle (fun scope => (scope.names kind).has name = true) (put kind name content) where
  retained held retains := retains.has held
  parent := parent_put
  has scope other text := has_put other text scope
  append {scope other text} held absent entry := by
    by_cases same : other = kind
    · subst same
      have different : text ≠ name := by
        rintro rfl
        exact absent held
      cases other <;> simp only [Scope.append, put, Namespace.assign_append_other _ different]
    · cases other <;> cases kind <;> first | rfl | exact (same rfl).elim

/-- A change of a scope that was merged. -/
def Merged.map (merged : Merged) (change : Scope → Scope) : Merged :=
  { merged with scope := change merged.scope }

namespace Subtle

variable {suits : Scope → Prop} {change : Scope → Scope} (subtle : Subtle suits change)

include subtle

theorem define (isSuited : suits scope) (kind : NameKind) (text : String)
    (entry : Entry kind.Content) :
    (change scope).define kind text entry = (scope.define kind text entry).map change := by
  rcases define_alike kind text (subtle.has scope) with ⟨fault, refused⟩ | ⟨absent, appends⟩
  · rw [(refused entry entry).1, (refused entry entry).2]
    rfl
  · rw [(appends entry entry).1, (appends entry entry).2, subtle.append isSuited absent]
    rfl

theorem importAll (kind : NameKind) (isSuited : suits scope) (names : Namespace kind.Content) :
    Scope.importAll (Scope.define kind) (change scope) names =
        (Scope.importAll (Scope.define kind) scope names).map change ∧
      suits (Scope.importAll (Scope.define kind) scope names).scope := by
  induction names generalizing scope with
  | nil => exact ⟨rfl, isSuited⟩
  | cons item rest ih =>
    obtain ⟨text, entry⟩ := item
    unfold Scope.importAll
    rw [subtle.define isSuited]
    cases ran : scope.define kind text { entry with isForeign := true } with
    | error fault => exact ⟨rfl, isSuited⟩
    | ok defined => exact ih (subtle.retained isSuited (retains_of_define ran))

theorem andThen (kind : NameKind) {merged : Merged} (isSuited : suits merged.scope)
    (names : Namespace kind.Content) :
    let next (scope : Scope) := Scope.importAll (Scope.define kind) scope names
    (merged.map change).andThen next = (merged.andThen next).map change ∧
      suits (merged.andThen next).scope := by
  obtain ⟨scope, fault⟩ := merged
  cases fault with
  | none => exact subtle.importAll kind isSuited names
  | some fault => exact ⟨rfl, isSuited⟩

/-- Nor is the change noticed when whole scopes are merged. -/
theorem mergeFrom (isSuited : suits scope) (library : Scope) :
    (change scope).mergeFrom library = (scope.mergeFrom library).map change := by
  obtain ⟨bindings, suited⟩ := subtle.importAll .variableName isSuited library.bindings
  obtain ⟨fns, stillSuited⟩ := subtle.andThen .functionName suited library.functions
  obtain ⟨groups, -⟩ := subtle.andThen .groupName stillSuited library.groups
  rw [← fns, ← bindings] at groups
  exact groups

end Subtle

end Scope

end ArrowScript
