import ArrowScript.Proofs.Scope.Operation
import Mathlib.Data.List.Forall2

namespace ArrowScript

/-!
# Private imports make no difference

Two stores resemble one another if they show the same to everyone who stands
outside of some scopes that are kept apart: the values of private entries of
those scopes may differ, and so may the values of private entries that were
imported, wherever they have come to by imports of imports.

No operation that looks at names from outside tells such stores from one
another, and none makes the difference larger.
-/

/-- A private entry's value is kept from readers if it was imported or its scope is kept apart. -/
def Entry.isSecret (apart : Bool) (entry : Entry α) : Bool :=
  !entry.isPublic && (entry.isForeign || apart)

/-- Two entries that differ in nothing but a secret value. -/
structure Entry.Resembles {α : Type} (apart : Bool) (left right : Entry α) : Prop where
  traits : right.traits = left.traits
  value : left.isSecret apart = false → right.value = left.value

namespace Entry.Resembles

variable {α : Type} {apart : Bool} {left right : Entry α}

theorem refl (apart : Bool) (entry : Entry α) : entry.Resembles apart entry :=
  ⟨rfl, fun _ => rfl⟩

variable (alike : left.Resembles apart right)

include alike

theorem eq_of_not_secret (shown : left.isSecret apart = false) : right = left := by
  have sameValue := alike.value shown
  have sameTraits := alike.traits
  rcases left with ⟨value, isPublic, isForeign, declared⟩
  rcases right with ⟨other, otherPublic, otherForeign, otherDeclared⟩
  simp only [Entry.traits, Prod.mk.injEq] at sameTraits
  obtain ⟨rfl, rfl, rfl⟩ := sameTraits
  cases sameValue
  rfl

/-- An import makes a secret of what was private, and shows nothing that was kept from readers. -/
theorem asForeign (later : Bool) : ({ left with isForeign := true } : Entry α).Resembles later
      { right with isForeign := true } where
  traits := by
    have sameTraits := alike.traits
    simp only [Entry.traits, Prod.mk.injEq] at sameTraits ⊢
    exact ⟨sameTraits.1, trivial, sameTraits.2.2⟩
  value shown := by
    have isPublic : left.isPublic = true := by
      simpa [isSecret] using shown
    exact alike.value (by simp [isSecret, isPublic])

end Entry.Resembles

/-- The same names in the same order, for entries that differ in nothing but secret values. -/
def Namespace.Resembles (apart : Bool) (left right : Namespace α) : Prop :=
  List.Forall₂ (fun item other => other.1 = item.1 ∧ item.2.Resembles apart other.2) left right

namespace Namespace.Resembles

variable {α : Type} {apart : Bool} {left right : Namespace α}

theorem refl (apart : Bool) (names : Namespace α) : names.Resembles apart names :=
  List.forall₂_same.mpr fun item _ => ⟨rfl, .refl apart item.2⟩

variable (alike : left.Resembles apart right)

include alike

theorem lookup (name : String) :
    (left.lookup name = none ∧ right.lookup name = none) ∨ ∃ entry other,
      left.lookup name = some entry ∧ right.lookup name = some other ∧
        entry.Resembles apart other := by
  induction alike with
  | nil => exact .inl ⟨rfl, rfl⟩
  | @cons item other leftRest rightRest first _ ih =>
    obtain ⟨text, entry⟩ := item
    obtain ⟨otherText, otherEntry⟩ := other
    obtain ⟨rfl, sameEntry⟩ := first
    rw [List.lookup_cons, List.lookup_cons]
    cases isFirst : name == otherText with
    | true => exact .inr ⟨entry, otherEntry, rfl, rfl, sameEntry⟩
    | false => exact ih

theorem has_eq (name : String) : right.has name = left.has name := by
  unfold Namespace.has
  rcases alike.lookup name with ⟨inLeft, inRight⟩ | ⟨entry, other, inLeft, inRight, -⟩
  · rw [inLeft, inRight]
  · rw [inLeft, inRight]
    rfl

theorem append {entry other : Entry α} (name : String) (entries : entry.Resembles apart other) :
    Namespace.Resembles apart (left ++ [(name, entry)]) (right ++ [(name, other)]) :=
  List.rel_append alike (.cons ⟨rfl, entries⟩ .nil)

theorem assign (name : String) (value : α) :
    (left.assign name value).Resembles apart (right.assign name value) := by
  induction alike with
  | nil => exact .nil
  | @cons item other leftRest rightRest first _ ih =>
    obtain ⟨text, entry⟩ := item
    obtain ⟨otherText, otherEntry⟩ := other
    obtain ⟨rfl, sameEntry⟩ := first
    rw [Namespace.assign_cons, Namespace.assign_cons]
    refine .cons ⟨rfl, ?_⟩ ih
    by_cases isName : otherText = name
    · simp only [isName, ↓reduceIte]
      exact ⟨sameEntry.traits, fun _ => rfl⟩
    · simp only [isName, ↓reduceIte]
      exact sameEntry

end Namespace.Resembles

/-- The same names of every kind, for entries that differ in nothing but secret values. -/
def Scope.SameNames (apart : Bool) (left right : Scope) : Prop :=
  ∀ kind, (left.names kind).Resembles apart (right.names kind)

/-- Two states of a scope that differ in nothing but secret values. -/
structure Scope.Resembles (apart : Bool) (left right : Scope) : Prop where
  parent : right.parent = left.parent
  context : right.context = left.context
  names : left.SameNames apart right

/-- Two results of a definition: the same fault, or scopes that resemble one another. -/
inductive Scope.ResultsResemble (apart : Bool) :
    Except ScopeFault Scope → Except ScopeFault Scope → Prop
  | fault (fault : ScopeFault) : ResultsResemble apart (.error fault) (.error fault)
  | defined {left right : Scope} : left.Resembles apart right →
      ResultsResemble apart (.ok left) (.ok right)

namespace Scope.Resembles

variable {apart : Bool} {left right : Scope}

theorem refl (apart : Bool) (scope : Scope) : scope.Resembles apart scope :=
  ⟨rfl, rfl, fun kind => .refl apart (scope.names kind)⟩

variable (alike : left.Resembles apart right)

include alike

theorem append (kind : NameKind) (name : String) {entry other : Entry kind.Content}
    (entries : entry.Resembles apart other) :
    (left.append kind name entry).Resembles apart (right.append kind name other) := by
  have longer := (alike.names kind).append name entries
  cases kind <;> refine ⟨alike.parent, alike.context, fun each => ?_⟩ <;> cases each
  all_goals first | exact longer | exact alike.names _

/-- A definition finds the same names taken, and adds an entry to both scopes. -/
theorem define (kind : NameKind) (name : String) {entry other : Entry kind.Content}
    (entries : entry.Resembles apart other) :
    ResultsResemble apart (left.define kind name entry) (right.define kind name other) := by
  rcases define_alike kind name fun each text => (alike.names each).has_eq text with
    ⟨fault, refused⟩ | ⟨-, appends⟩
  · rw [(refused entry other).1, (refused entry other).2]
    exact .fault fault
  · rw [(appends entry other).1, (appends entry other).2]
    exact .defined (alike.append kind name entries)

theorem setBinding (name : String) (value : Value) :
    Scope.Resembles apart { left with bindings := left.bindings.assign name value }
      { right with bindings := right.bindings.assign name value } where
  parent := alike.parent
  context := alike.context
  names kind := by
    cases kind with
    | variableName => exact (alike.names .variableName).assign name value
    | functionName => exact alike.names .functionName
    | groupName => exact alike.names .groupName

end Scope.Resembles

/-- Two imports that stopped at the same fault, or at none, with scopes that are alike. -/
structure Scope.Merged.Resembles (apart : Bool) (left right : Scope.Merged) : Prop where
  scope : left.scope.Resembles apart right.scope
  fault : right.fault = left.fault

namespace Scope.Resembles

variable {apart source : Bool} {left right : Scope}

/-- Both imports go through the same names and stop at the same one. -/
theorem importAll (kind : NameKind) (alike : left.Resembles apart right)
    {names others : Namespace kind.Content} (libraries : names.Resembles source others) :
    (Scope.importAll (Scope.define kind) left names).Resembles apart
      (Scope.importAll (Scope.define kind) right others) := by
  induction libraries generalizing left right with
  | nil => exact ⟨alike, rfl⟩
  | @cons item other namesRest othersRest first _ ih =>
    obtain ⟨text, entry⟩ := item
    obtain ⟨otherText, otherEntry⟩ := other
    obtain ⟨rfl, sameEntry⟩ := first
    have results := alike.define kind otherText (sameEntry.asForeign apart)
    simp only [Scope.importAll]
    revert results
    generalize Scope.define kind left otherText { entry with isForeign := true } = leftResult
    generalize Scope.define kind right otherText { otherEntry with isForeign := true } =
      rightResult
    intro results
    cases results with
    | fault fault => exact ⟨alike, rfl⟩
    | defined definedAlike => exact ih definedAlike

end Scope.Resembles

theorem Scope.Merged.Resembles.andThen {apart : Bool} {left right : Scope.Merged}
    {leftNext rightNext : Scope → Scope.Merged} (alike : left.Resembles apart right)
    (next : ∀ {scope other : Scope}, scope.Resembles apart other →
      (leftNext scope).Resembles apart (rightNext other)) :
    (left.andThen leftNext).Resembles apart (right.andThen rightNext) := by
  have sameFault := alike.fault
  simp only [Scope.Merged.andThen]
  cases fault : left.fault with
  | none =>
    rw [sameFault.trans fault]
    exact next alike.scope
  | some reason =>
    rw [sameFault.trans fault]
    exact alike

/-- Importing libraries that differ in private values differs in imported private values. -/
theorem Scope.Resembles.mergeFrom {apart source : Bool} {left right library other : Scope}
    (alike : left.Resembles apart right) (libraries : library.SameNames source other) :
    (left.mergeFrom library).Resembles apart (right.mergeFrom other) :=
  ((alike.importAll .variableName (libraries .variableName)).andThen fun scopes =>
    scopes.importAll .functionName (libraries .functionName)).andThen fun scopes =>
      scopes.importAll .groupName (libraries .groupName)

/-- Two stores that differ in nothing but secret values; some scopes are kept apart. -/
structure Store.Resembles (apart : List (Ref .scope)) (left right : Store) : Prop where
  rest : right = left.withScopes right.scopes
  size : right.scopes.size = left.scopes.size
  scope : ∀ ref, (left.scope ref).Resembles (apart.contains ref) (right.scope ref)

namespace Store.Resembles

variable {apart : List (Ref .scope)} {left right : Store} {reader ref : Ref .scope}

theorem refl (apart : List (Ref .scope)) (store : Store) : store.Resembles apart store :=
  ⟨rfl, rfl, fun ref => .refl _ (store.scope ref)⟩

variable (alike : left.Resembles apart right)

include alike

theorem hasScope_iff : right.HasScope ref ↔ left.HasScope ref := by
  unfold HasScope
  rw [alike.size]

theorem modifyScope {change other : Scope → Scope} (scopes :
      (change (left.scope ref)).Resembles (apart.contains ref) (other (right.scope ref))) :
    (left.modifyScope ref change).Resembles apart (right.modifyScope ref other) where
  rest := by
    rw [alike.rest]
    rfl
  size := by
    rw [size_modifyScope, size_modifyScope, alike.size]
  scope each := by
    by_cases isRef : each = ref
    · subst isRef
      by_cases existing : left.HasScope each
      · rw [scope_modifyScope_self existing,
          scope_modifyScope_self (alike.hasScope_iff.mpr existing)]
        exact scopes
      · have leftAbsent : ¬ (left.modifyScope each change).HasScope each := by
          unfold HasScope
          rwa [size_modifyScope]
        have rightAbsent : ¬ (right.modifyScope each other).HasScope each := by
          unfold HasScope
          rw [size_modifyScope, alike.size]
          exact existing
        rw [scope_of_not_hasScope leftAbsent, scope_of_not_hasScope rightAbsent]
        exact .refl _ _
    · rw [scope_modifyScope_other isRef, scope_modifyScope_other isRef]
      exact alike.scope each

theorem setScope {scope other : Scope} (scopes : scope.Resembles (apart.contains ref) other) :
    (left.setScope ref scope).Resembles apart (right.setScope ref other) := by
  rw [setScope_eq_modifyScope, setScope_eq_modifyScope]
  exact alike.modifyScope scopes

theorem setVariable (name : String) (value : Value) :
    (left.setVariable ref name value).Resembles apart (right.setVariable ref name value) :=
  alike.modifyScope ((alike.scope ref).setBinding name value)

theorem newScope (scope : Scope) : (left.newScope scope).1 = (right.newScope scope).1 ∧
      (left.newScope scope).2.Resembles apart (right.newScope scope).2 := by
  have sameSize := alike.size
  refine ⟨by simp only [Store.newScope, sameSize], ?_, ?_, ?_⟩
  · rw [alike.rest]
    rfl
  · simp only [Store.newScope, Array.size_push, sameSize]
  · intro each
    have known := alike.scope each
    simp only [Store.newScope, Store.scope, Array.getD_eq_getD_getElem?, Array.getElem?_push,
      sameSize] at known ⊢
    split
    · exact .refl _ _
    · exact known

theorem chain_eq (ref : Ref .scope) : right.chain ref = left.chain ref :=
  chain_eq_of_parents fun other _ => (alike.scope other).parent

end Store.Resembles

/-- A reader stands in none of the scopes that are kept apart. -/
def Store.Outside (store : Store) (apart : List (Ref .scope)) (reader : Ref .scope) : Prop :=
  ∀ library ∈ apart, store.isWithin reader library = false

instance (store : Store) (apart : List (Ref .scope)) (reader : Ref .scope) :
    Decidable (store.Outside apart reader) :=
  inferInstanceAs (Decidable (∀ library ∈ apart, _))

theorem Store.Outside.not_mem {store : Store} {apart : List (Ref .scope)} {reader ref : Ref .scope}
    (outside : store.Outside apart reader) (around : ref ∈ store.chain reader) :
    apart.contains ref = false := by
  rw [Bool.eq_false_iff]
  intro isApart
  have isOutside := outside ref (List.contains_iff_mem.mp isApart)
  simp only [Store.isWithin, List.contains_iff_mem.mpr around] at isOutside
  cases isOutside

namespace Store.Resembles

variable {apart : List (Ref .scope)} {left right : Store} {reader : Ref .scope}

variable (alike : left.Resembles apart right)

include alike

/-- From outside the same entries are in sight, and the same are hidden. -/
theorem visible_eq (outside : left.Outside apart reader) (kind : NameKind) (name : String) :
    right.visible kind (Scope.names kind) reader name =
      left.visible kind (Scope.names kind) reader name := by
  have found : (left.find? (Scope.names kind) reader name = none ∧
      right.find? (Scope.names kind) reader name = none) ∨ ∃ owner entry other,
      left.find? (Scope.names kind) reader name = some (owner, entry) ∧
        right.find? (Scope.names kind) reader name = some (owner, other) ∧
        entry.Resembles false other := by
    have notApart : ∀ ref ∈ left.chain reader, apart.contains ref = false :=
      fun _ => outside.not_mem
    unfold Store.find?
    rw [alike.chain_eq reader]
    generalize left.chain reader = chain at notApart
    induction chain with
    | nil => exact .inl ⟨rfl, rfl⟩
    | cons ref rest ih =>
      have sameNames := (alike.scope ref).names kind
      rw [notApart ref List.mem_cons_self] at sameNames
      rw [List.findSome?_cons, List.findSome?_cons]
      rcases sameNames.lookup name with ⟨inLeft, inRight⟩ |
        ⟨entry, other, inLeft, inRight, same⟩
      · rw [inLeft, inRight]
        exact ih fun ref mem => notApart ref (.tail _ mem)
      · rw [inLeft, inRight]
        exact .inr ⟨ref, entry, other, rfl, rfl, same⟩
  unfold Store.visible
  rcases found with ⟨inLeft, inRight⟩ | ⟨owner, entry, other, inLeft, inRight, same⟩
  · rw [inLeft, inRight]
  · have sameTraits := same.traits
    have sameHidden : other.isHidden = entry.isHidden := by
      simp only [Entry.traits, Prod.mk.injEq] at sameTraits
      simp only [Entry.isHidden, sameTraits]
    rw [inLeft, inRight]
    simp only [sameHidden]
    cases hidden : entry.isHidden with
    | true => rfl
    | false =>
      have shown : entry.isSecret false = false := by
        simpa only [Entry.isSecret, Entry.isHidden, Bool.or_false, Bool.and_comm] using hidden
      rw [same.eq_of_not_secret shown]

theorem named_eq (outside : left.Outside apart reader) (registry : Registry) (site : Option Site)
    (name : String) (kind : NameKind) :
    right.named registry reader site name kind = left.named registry reader site name kind := by
  have sameVisible := alike.visible_eq outside kind name
  cases kind <;> simp only [Scope.names] at sameVisible <;>
    simp only [Store.named, Store.variableNamed, Store.functionNamed, Store.groupNamed, sameVisible]

theorem member_eq (outside : left.Outside apart reader) (group : Ref .scope) (kind : NameKind)
    (name : String) : right.member kind (Scope.names kind) group reader name =
      left.member kind (Scope.names kind) group reader name := by
  have sameNames := (alike.scope group).names kind
  unfold Store.member Scope.member Store.isWithin
  rw [alike.chain_eq]
  rcases sameNames.lookup name with ⟨inLeft, inRight⟩ |
    ⟨entry, other, inLeft, inRight, same⟩
  · rw [inLeft, inRight]
  · have sameTraits := same.traits
    simp only [Entry.traits, Prod.mk.injEq] at sameTraits
    obtain ⟨samePublic, sameForeign, -⟩ := sameTraits
    rw [inLeft, inRight]
    simp only [samePublic, sameForeign]
    split
    · rfl
    · rename_i allowed
      -- A private entry is shown to readers inside the group only, so the group is not kept apart.
      have shown : entry.isSecret (apart.contains group) = false := by
        cases isPublic : entry.isPublic with
        | true => simp [Entry.isSecret, isPublic]
        | false =>
          simp only [isPublic, Bool.not_false, Bool.true_and, Bool.or_eq_true, Bool.not_eq_true',
            not_or, Bool.not_eq_true, Bool.not_eq_false] at allowed
          have inside : group ∈ left.chain reader := by
            simpa [Store.isWithin] using allowed.2
          simp only [Entry.isSecret, allowed.1, outside.not_mem inside, Bool.or_self,
            Bool.and_false]
      rw [same.eq_of_not_secret shown]

theorem merge {source : Bool} {library other : Scope} (libraries : library.SameNames source other)
    (ref : Ref .scope) : (right.merge ref other).2 = (left.merge ref library).2 ∧
      (left.merge ref library).1.Resembles apart (right.merge ref other).1 := by
  have merged := (alike.scope ref).mergeFrom libraries
  exact ⟨merged.fault, alike.setScope merged.scope⟩

/-- An operation from outside is answered alike, and leaves stores that resemble one another. -/
theorem perform (registry : Registry) (operation : Operation)
    (outside : ∀ reader ∈ operation.reader?, left.Outside apart reader) :
    (operation.perform registry left).1 = (operation.perform registry right).1 ∧
      (operation.perform registry left).2.Resembles apart (operation.perform registry right).2 := by
  have others := alike.rest
  cases operation with
  | newScope parent =>
    obtain ⟨sameRef, later⟩ := alike.newScope { parent := parent }
    exact ⟨congrArg Answer.scope sameRef, later⟩
  | newGroup group =>
    have sameGroups : right.groups = left.groups := by
      rw [others]
      rfl
    refine ⟨by simp only [Operation.perform, Store.newGroup, sameGroups], ?_, alike.size,
      alike.scope⟩
    show ({ right with groups := right.groups.push group } : Store) = _
    rw [others]
    rfl
  | newFunction function =>
    have sameFunctions : right.functions = left.functions := by
      rw [others]
      rfl
    refine ⟨by simp only [Operation.perform, Store.newFunction, sameFunctions], ?_, alike.size,
      alike.scope⟩
    show ({ right with functions := right.functions.push function } : Store) = _
    rw [others]
    rfl
  | define scope kind name content isPublic site =>
    have results :=
      (alike.scope scope).define kind name
        (.refl _ (Operation.entryOf kind content isPublic site))
    simp only [Operation.perform, Store.define]
    revert results
    generalize (left.scope scope).define kind name _ = leftResult
    generalize (right.scope scope).define kind name _ = rightResult
    intro results
    cases results with
    | fault fault => exact ⟨rfl, alike⟩
    | defined definedAlike => exact ⟨rfl, alike.setScope definedAlike⟩
  | get scope kind name site =>
    have same := alike.named_eq (outside scope rfl) registry site name kind
    exact ⟨by simp only [Operation.perform, same], alike⟩
  | assign scope name value site =>
    have sameVisible := alike.visible_eq (outside scope rfl) .variableName name
    simp only [Scope.names] at sameVisible
    simp only [Operation.perform, Store.assignVariable, Store.ownerOf, sameVisible]
    cases left.visible .variableName Scope.bindings scope name with
    | error fault => exact ⟨rfl, alike⟩
    | ok found => exact ⟨rfl, alike.setVariable name value⟩
  | member group kind name reader site =>
    have same := alike.member_eq (outside reader rfl) group kind name
    exact ⟨by simp only [Operation.perform, same], alike⟩
  | merge scope library site =>
    obtain ⟨sameFault, later⟩ := alike.merge (alike.scope library).names scope
    exact ⟨by simp only [Operation.perform, sameFault], later⟩

end Store.Resembles

/-- Operations that follow one another and look at names from outside of some scopes only. -/
def Operation.KeepOutside (registry : Registry) (apart : List (Ref .scope)) :
    Store → List Operation → Prop
  | _, [] => True
  | store, operation :: rest =>
    (∀ reader ∈ operation.reader?, store.Outside apart reader) ∧
      KeepOutside registry apart (operation.perform registry store).2 rest

instance Operation.decideKeepOutside (registry : Registry) (apart : List (Ref .scope)) :
    (store : Store) →
    (operations : List Operation) →
    Decidable (KeepOutside registry apart store operations)
  | _, [] => isTrue trivial
  | store, operation :: rest =>
    have := decideKeepOutside registry apart (operation.perform registry store).2 rest
    inferInstanceAs (Decidable (_ ∧ _))

theorem Store.Resembles.answers_eq {apart : List (Ref .scope)} {left right : Store}
    (alike : left.Resembles apart right) {registry : Registry} {operations : List Operation}
    (outside : Operation.KeepOutside registry apart left operations) :
    Operation.answers registry left operations = Operation.answers registry right operations := by
  induction operations generalizing left right with
  | nil => rfl
  | cons operation rest ih =>
    obtain ⟨now, later⟩ := outside
    obtain ⟨sameAnswer, stillAlike⟩ := alike.perform registry operation now
    simp only [Operation.answers, sameAnswer, ih stillAlike later]

/--
Two libraries of the same names, kinds, flags and order, whose public values
are equal, are imported into the same scope.  Both imports go the same way,
and every sequence of operations afterwards is answered alike.

The worlds may already differ in what private imports have left behind, and
in the private values of scopes that are kept apart, such as the libraries
themselves; only a reader within those would tell the worlds from one another.
-/
theorem private_imports_do_not_interfere
    {apart : List (Ref .scope)}
    {left right : Store}
    (worlds : left.Resembles apart right)
    {leftLibrary rightLibrary : Scope}
    (libraries : leftLibrary.SameNames true rightLibrary)
    (registry : Registry)
    (importer : Ref .scope)
    (operations : List Operation)
    (outside :
      Operation.KeepOutside registry apart (left.merge importer leftLibrary).1 operations) :
    (left.merge importer leftLibrary).2 = (right.merge importer rightLibrary).2 ∧
      Operation.answers registry (left.merge importer leftLibrary).1 operations =
        Operation.answers registry (right.merge importer rightLibrary).1 operations := by
  obtain ⟨sameFault, stillAlike⟩ := worlds.merge libraries importer
  exact ⟨sameFault.symm, stillAlike.answers_eq outside⟩

/-- A library that shows a name and keeps another to itself. -/
def Scope.libraryKeeping (secret : String) : Scope :=
  { parent := none
    bindings :=
      [("shown", { value := .text "open", isPublic := true }),
        ("kept", { value := .text secret, isPublic := false })] }

theorem Scope.sameNames_libraryKeeping (secret other : String) :
    (libraryKeeping secret).SameNames true (libraryKeeping other) := by
  intro kind
  cases kind with
  | variableName =>
    exact .cons ⟨rfl, .refl _ _⟩ (.cons ⟨rfl, rfl, fun shown => by cases shown⟩ .nil)
  | functionName => exact .nil
  | groupName => exact .nil

/-- Scope 0 is the library; scope 1 imports it, and scope 2 imports scope 1. -/
theorem private_imports_do_not_interfere_through_second_import :
    let worldKeeping (secret : String) : Store :=
      ({ scopes := #[.root, .root, .root] } : Store).setScope ⟨0⟩ (.libraryKeeping secret)
    let imported (secret : String) : Store :=
      ((worldKeeping secret).merge ⟨1⟩ (.libraryKeeping secret)).1
    let operations : List Operation :=
      [.get ⟨1⟩ .variableName "kept" none, .newScope (some ⟨1⟩),
        .assign ⟨3⟩ "kept" (.text "new") none, .merge ⟨2⟩ ⟨1⟩ none,
        .get ⟨2⟩ .variableName "kept" none, .member ⟨0⟩ .variableName "kept" ⟨1⟩ none,
        .merge ⟨1⟩ ⟨2⟩ none]
    ((worldKeeping "left").scope ⟨0⟩).bindings ≠
      ((worldKeeping "right").scope ⟨0⟩).bindings ∧
      Operation.KeepOutside .standard [⟨0⟩] (imported "left") operations ∧
      Operation.answers .standard (imported "left") operations =
        Operation.answers .standard (imported "right") operations := by
  intro worldKeeping imported operations
  have worlds : (worldKeeping "left").Resembles [⟨0⟩] (worldKeeping "right") :=
    (Store.Resembles.refl [⟨0⟩] _).setScope
      ⟨rfl, rfl, Scope.sameNames_libraryKeeping "left" "right"⟩
  have outside : Operation.KeepOutside .standard [⟨0⟩] (imported "left") operations := by
    decide +kernel
  exact ⟨by decide +kernel, outside,
    (private_imports_do_not_interfere worlds (Scope.sameNames_libraryKeeping "left" "right")
      .standard ⟨1⟩ operations outside).2⟩

end ArrowScript
