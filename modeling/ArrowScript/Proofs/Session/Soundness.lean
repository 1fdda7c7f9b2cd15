import ArrowScript.Proofs.Evaluation.Mediation
import ArrowScript.Proofs.Session.Reachable

namespace ArrowScript

/-!
# Stores stay sound

A store is sound if no scope has a variable and a group of one name, and if
everything that refers to a scope or a group refers to one that is there.  The
parent of a scope is older than the scope, so that going outwards from a scope
comes to an end.

Programs keep stores sound, and so does every operation of the program around,
also one that is refused or stops midway.
-/

theorem Namespace.has_append (names : Namespace α) (name other : String) (entry : Entry α) :
    Namespace.has (names ++ [(name, entry)]) other = (names.has other || other == name) := by
  unfold Namespace.has
  rw [List.lookup_append, Option.isSome_or]
  by_cases isName : other = name
  · simp [isName]
  · have differs : (other == name) = false := beq_false_of_ne isName
    simp [List.lookup_cons, differs]

/-- No name is that of a variable and that of a group. -/
def Scope.Exclusive (scope : Scope) : Prop :=
  ∀ name, scope.bindings.has name = true → scope.groups.has name = false

namespace Scope.Exclusive

variable {scope defined : Scope} {name : String}

theorem defineVariable {entry : Entry Value} (exclusive : scope.Exclusive)
    (ran : scope.defineVariable name entry = .ok defined) : defined.Exclusive := by
  unfold Scope.defineVariable at ran
  split at ran
  · cases ran
  split at ran
  · cases ran
  rename_i noGroup
  cases ran
  intro other isVariable
  simp only [Namespace.has_append, Bool.or_eq_true, beq_iff_eq] at isVariable
  rcases isVariable with old | rfl
  · exact exclusive other old
  · exact Bool.eq_false_iff.mpr noGroup

theorem defineFunction {entry : Entry Function} (exclusive : scope.Exclusive)
    (ran : scope.defineFunction name entry = .ok defined) : defined.Exclusive := by
  unfold Scope.defineFunction at ran
  split at ran
  · cases ran
  · cases ran
    exact exclusive

theorem defineGroup {entry : Entry (Ref .group)} (exclusive : scope.Exclusive)
    (ran : scope.defineGroup name entry = .ok defined) : defined.Exclusive := by
  unfold Scope.defineGroup at ran
  split at ran
  · cases ran
  split at ran
  · cases ran
  rename_i noVariable
  cases ran
  intro other isVariable
  simp only [Namespace.has_append, Bool.or_eq_false_iff, beq_eq_false_iff_ne]
  refine ⟨exclusive other isVariable, ?_⟩
  rintro rfl
  exact noVariable isVariable

theorem importAll (define : Scope → String → Entry α → Except ScopeFault Scope)
    (keeps : ∀ (scope : Scope) name entry defined, scope.Exclusive →
      define scope name entry = .ok defined → defined.Exclusive)
    (exclusive : scope.Exclusive) (names : Namespace α) :
    (Scope.importAll define scope names).scope.Exclusive := by
  induction names generalizing scope with
  | nil => exact exclusive
  | cons item rest ih =>
    unfold Scope.importAll
    split
    · rename_i defined ran
      exact ih (keeps _ _ _ _ exclusive ran)
    · exact exclusive

theorem andThen {merged : Merged} {next : Scope → Merged} (exclusive : merged.scope.Exclusive)
    (keeps : ∀ scope : Scope, scope.Exclusive → (next scope).scope.Exclusive) :
    (merged.andThen next).scope.Exclusive := by
  unfold Merged.andThen
  split
  · exact keeps merged.scope exclusive
  · exact exclusive

/-- An import stops at the first name that would stand for two things. -/
theorem mergeFrom (exclusive : scope.Exclusive) (library : Scope) :
    (scope.mergeFrom library).scope.Exclusive := by
  have first := exclusive.importAll Scope.defineVariable
    (fun _ _ _ _ => defineVariable) library.bindings
  have second := first.andThen fun _ before =>
    before.importAll Scope.defineFunction (fun _ _ _ _ => defineFunction) library.functions
  exact second.andThen fun _ before =>
    before.importAll Scope.defineGroup (fun _ _ _ _ => defineGroup) library.groups

end Scope.Exclusive

variable {store : Store}

theorem Function.IsGrounded.expand {later : Store} {function : Function}
    (isGrounded : function.IsGrounded store) (expands : store.Expands later) :
    function.IsGrounded later := by
  cases function with
  | native native => trivial
  | user function => exact expands.hasScope isGrounded

/-- A scope that may stand at a reference: its parent is older, and the closures are there. -/
structure Scope.FitsAt (scope : Scope) (store : Store) (ref : Ref .scope) : Prop where
  exclusive : scope.Exclusive
  older : ∀ parent ∈ scope.parent, parent.index < ref.index
  closures : ∀ item ∈ scope.functions, item.2.value.IsGrounded store

namespace Scope.FitsAt

variable {store : Store} {ref : Ref .scope} {scope defined : Scope} {name : String}

theorem expand {later : Store} (fits : scope.FitsAt store ref) (expands : store.Expands later) :
    scope.FitsAt later ref :=
  { fits with closures := fun item mem => (fits.closures item mem).expand expands }

theorem of_no_names (functions : scope.functions = []) (groups : scope.groups = [])
    (older : ∀ parent ∈ scope.parent, parent.index < ref.index) : scope.FitsAt store ref where
  exclusive name _ := by
    rw [groups]
    rfl
  older := older
  closures := by simp [functions]

variable (fits : scope.FitsAt store ref)

include fits

theorem add {additions : Additions} (exclusive : (scope.add additions).Exclusive)
    (closures : ∀ item ∈ additions.functions, item.2.value.IsGrounded store) :
    (scope.add additions).FitsAt store ref where
  exclusive := exclusive
  older := fits.older
  closures := List.forall_mem_append.mpr ⟨fits.closures, closures⟩

theorem define {kind : NameKind} {entry : Entry kind.Content}
    (isGrounded : kind.IsGrounded store entry.value)
    (ran : scope.define kind name entry = .ok defined) : defined.FitsAt store ref := by
  cases kind with
  | variableName =>
    have exclusive := fits.exclusive.defineVariable ran
    rw [Scope.defineVariable_eq_add ran] at exclusive ⊢
    exact fits.add exclusive (by simp)
  | functionName =>
    have exclusive := fits.exclusive.defineFunction ran
    have closure : entry.value.IsGrounded store := isGrounded
    rw [Scope.defineFunction_eq_add ran] at exclusive ⊢
    exact fits.add exclusive (by simpa using closure)
  | groupName =>
    have exclusive := fits.exclusive.defineGroup ran
    rw [Scope.defineGroup_eq_add ran] at exclusive ⊢
    exact fits.add exclusive (by simp)

theorem mergeFrom {library : Scope}
    (closures : ∀ item ∈ library.functions, item.2.value.IsGrounded store) :
    (scope.mergeFrom library).scope.FitsAt store ref := by
  have exclusive := fits.exclusive.mergeFrom library
  obtain ⟨additions, shape, imported⟩ := Scope.mergeFrom_eq_add scope library
  rw [shape] at exclusive ⊢
  apply fits.add exclusive
  intro item isNew
  obtain ⟨original, inLibrary, rfl⟩ := List.mem_map.mp (imported.functions.subset isNew)
  exact closures original inLibrary

theorem assign (name : String) (value : Value) :
    Scope.FitsAt { scope with bindings := scope.bindings.assign name value } store ref := by
  refine { fits with exclusive := ?_ }
  intro other isVariable
  exact fits.exclusive other (by rwa [← Namespace.has_assign])

end Scope.FitsAt

/-- Every scope of a store may stand where it does. -/
def Store.Rooted (store : Store) : Prop :=
  ∀ ref, (store.scope ref).FitsAt store ref

namespace Store.Rooted

variable {store before after : Store} {ref : Ref .scope} {scope : Scope}

theorem absent (absent : ¬ store.HasScope ref) : (store.scope ref).FitsAt store ref := by
  rw [scope_of_not_hasScope absent]
  exact .of_no_names rfl rfl (by simp [Scope.root])

theorem empty : Store.empty.Rooted :=
  fun _ => absent (Nat.not_lt_zero _)

theorem of_scopes_eq (rooted : before.Rooted) (same : after.scopes = before.scopes) :
    after.Rooted := by
  intro ref
  rw [scope_of_scopes_eq same]
  exact (rooted ref).expand (Nat.le_of_eq (by rw [same]))

theorem push (rooted : before.Rooted) (pushed : after.scopes = before.scopes.push scope)
    (fits : scope.FitsAt before ⟨before.scopes.size⟩) : after.Rooted := by
  have expands : before.Expands after := by
    unfold Expands
    rw [pushed, Array.size_push]
    exact Nat.le_succ _
  intro ref
  rcases Nat.lt_trichotomy ref.index before.scopes.size with existing | isNew | beyond
  · rw [scope_of_push pushed existing]
    exact (rooted ref).expand expands
  · have isNext : ref = ⟨before.scopes.size⟩ := ref_eq_of_index_eq isNew
    rw [isNext, scope_of_push_new pushed]
    exact fits.expand expands
  · apply absent
    unfold HasScope
    rw [pushed, Array.size_push]
    omega

theorem modifyScope {change : Scope → Scope} (rooted : store.Rooted)
    (fits : (change (store.scope ref)).FitsAt store ref) :
    (store.modifyScope ref change).Rooted := by
  intro each
  by_cases isRef : each = ref
  · subst isRef
    by_cases existing : store.HasScope each
    · rw [scope_modifyScope_self existing]
      exact fits.expand (.modifyScope store each change)
    · apply absent
      unfold HasScope
      rwa [size_modifyScope]
  · rw [scope_modifyScope_other isRef]
    exact (rooted each).expand (.modifyScope store ref change)

theorem setScope (rooted : store.Rooted) (fits : scope.FitsAt store ref) :
    (store.setScope ref scope).Rooted := by
  have replaced : (store.modifyScope ref fun _ => scope).Rooted := rooted.modifyScope fits
  exact replaced

theorem setContext (rooted : store.Rooted) (ref : Ref .scope) (context : Option Value) :
    (store.setContext ref context).Rooted := by
  apply rooted.modifyScope
  obtain ⟨exclusive, older, closures⟩ := rooted ref
  exact ⟨exclusive, older, closures⟩

theorem setVariable (rooted : store.Rooted) (owner : Ref .scope) (name : String) (value : Value) :
    (store.setVariable owner name value).Rooted :=
  rooted.modifyScope ((rooted owner).assign name value)

end Store.Rooted

section

variable {frame inner : Frame} {outline : List Element} {body : Body} {isOpen : Bool}
  {before started after : Machine} {visit : Visit}

theorem Machine.Loads.rooted (loads : before.Loads inner started) (rooted : before.store.Rooted) :
    started.store.Rooted :=
  rooted.push loads.scopes (.of_no_names rfl rfl (by simp [Scope.root]))

theorem Machine.Loads.hasScope (loads : before.Loads inner started) :
    started.store.HasScope inner.scope := by
  rw [loads.frame]
  exact Store.hasScope_of_push_new loads.scopes

/-- The scope of a body lies inside the scope of the code or inside the closure of a function. -/
theorem Opens.rooted (opens : Opens frame outline before inner body started)
    (rooted : before.store.Rooted) (existing : before.store.HasScope frame.scope) :
    started.store.Rooted := by
  cases opens with
  | inner mem gains isParent starts =>
    apply rooted.push gains.scopes
    apply Scope.FitsAt.of_no_names starts.functions starts.groups
    rw [isParent]
    rintro parent ⟨⟩
    exact existing
  | @call scope owner name entry fn _ stored isUser gains isParent starts =>
    have grounded := (rooted owner).closures (name, entry) stored
    rw [isUser] at grounded
    apply rooted.push gains.scopes
    apply Scope.FitsAt.of_no_names starts.functions starts.groups
    rw [isParent]
    rintro parent ⟨⟩
    exact grounded
  | load loads => exact loads.rooted rooted

theorem Opens.hasScope (opens : Opens frame outline before inner body started) :
    started.store.HasScope inner.scope := by
  obtain ⟨scope, gains, isNext, -⟩ := opens.exists_gains
  rw [isNext]
  exact Store.hasScope_of_push_new gains.scopes

theorem Declares.fitsAt {store : Store} {scope : Scope}
    (declares : Declares frame outline store scope) (rooted : store.Rooted)
    (existing : store.HasScope frame.scope) : scope.FitsAt store frame.scope := by
  have fits := rooted frame.scope
  cases declares with
  | declareVariable mem defined =>
    have ran : Scope.define .variableName _ _ _ = .ok scope := defined
    refine fits.define ?_ ran
    trivial
  | declareFunction mem defined =>
    have ran : Scope.define .functionName _ _ _ = .ok scope := defined
    refine fits.define ?_ ran
    exact existing
  | declareGroup mem defined =>
    have exclusive := fits.exclusive.defineGroup defined
    rw [Scope.defineGroup_eq_add defined] at exclusive ⊢
    exact fits.add exclusive (by simp)
  | useNatives mem =>
    apply fits.mergeFrom
    intro item listed
    obtain ⟨native, -, rfl⟩ := List.mem_map.mp listed
    trivial

/-- Whatever code does to scopes, parents are older and closures are there. -/
theorem Progress.rooted (progress : Progress frame outline isOpen before after)
    (rooted : before.store.Rooted) (existing : before.store.HasScope frame.scope) :
    after.store.Rooted := by
  induction progress with
  | kept scopes sources => exact rooted.of_scopes_eq scopes
  | trans first _ firstKeeps secondKeeps =>
    exact secondKeeps (firstKeeps rooted existing)
      (Nat.lt_of_lt_of_le existing first.size_le)
  | context value => exact rooted.setContext _ value
  | restore _ ih => exact (ih rooted existing).setContext _ _
  | declare declares => exact rooted.setScope (declares.fitsAt rooted existing)
  | assign owner name value => exact rooted.setVariable owner name value
  | enter opens _ ih =>
    exact ih (opens.rooted rooted existing) opens.hasScope
  | adopt _ loads _ ih =>
    have ranRooted := ih (loads.rooted rooted) loads.hasScope
    exact ranRooted.setScope ((ranRooted _).mergeFrom (ranRooted _).closures)

theorem Executes.rooted (executes : Executes frame body before visit) (rooted : before.store.Rooted)
    (existing : before.store.HasScope frame.scope) :
    visit.machine.store.Rooted ∧ before.store.Expands visit.machine.store := by
  cases executes with
  | statement progress mem => exact ⟨progress.rooted rooted existing, progress.size_le⟩

theorem Enters.rooted (enters : Enters frame outline before visit) (rooted : before.store.Rooted)
    (existing : before.store.HasScope frame.scope) :
    visit.machine.store.Rooted ∧ before.store.Expands visit.machine.store := by
  cases enters with
  | evaluates progress inside => exact ⟨progress.rooted rooted existing, progress.size_le⟩
  | executes progress opens executes =>
    have stillExisting := Nat.lt_of_lt_of_le existing progress.size_le
    have openedRooted := opens.rooted (progress.rooted rooted existing) stillExisting
    obtain ⟨visitRooted, expands⟩ := executes.rooted openedRooted opens.hasScope
    exact ⟨visitRooted, Nat.le_trans (Nat.le_trans progress.size_le opens.size_le) expands⟩

end

namespace Session

variable {depth level : Nat} {scope : Ref .scope} {text : String} {machine : Machine}
  {visit : Visit}

/-- Whatever a run visits runs in a scope that is there, in a store that is rooted. -/
theorem visited_rooted (visited : Visited depth (·.runSource scope text) machine level visit)
    (rooted : machine.store.Rooted) (existing : machine.store.HasScope scope) :
    visit.machine.store.Rooted ∧ visit.machine.store.HasScope visit.frame.scope ∧
      machine.store.Expands visit.machine.store := by
  induction visited with
  | first calls =>
    obtain ⟨executes, -⟩ :=
      (Evaluator.runSource_keeps (evaluator_steady depth) scope text machine).enters calls
    obtain ⟨visitRooted, expands⟩ := executes.rooted rooted existing
    exact ⟨visitRooted, executes.hasScope existing, expands⟩
  | next _ calls ih =>
    obtain ⟨outerRooted, outerExisting, outerExpands⟩ := ih
    have enters := calls.step_enters
    obtain ⟨visitRooted, expands⟩ := enters.rooted outerRooted outerExisting
    exact ⟨visitRooted, enters.hasScope outerExisting, outerExpands.trans expands⟩

end Session

/-- What a store refers to is there, and no scope has a variable and a group of one name. -/
structure Store.Sound (store : Store) : Prop where
  exclusive : ∀ ref, (store.scope ref).Exclusive
  parents : ∀ ref, ∀ parent ∈ (store.scope ref).parent,
    store.HasScope parent ∧ parent.index < ref.index
  closures : ∀ ref, ∀ item ∈ (store.scope ref).functions, item.2.value.IsGrounded store
  values : ∀ function ∈ store.functions, function.IsGrounded store
  groupNames : ∀ ref, ∀ item ∈ (store.scope ref).groups,
    item.2.value.index < store.groups.size
  groups : ∀ group ∈ store.groups, store.HasScope group.scope

theorem Law.lax_function {functions : Array Function → Prop} (fn : Function) :
    (Law.lax functions).function fn := by
  cases fn <;> trivial

theorem Store.hasScope_of_parent {ref parent : Ref .scope}
    (isParent : parent ∈ (store.scope ref).parent) : store.HasScope ref := by
  by_cases existing : store.HasScope ref
  · exact existing
  · rw [scope_of_not_hasScope existing] at isParent
    cases isParent

theorem Store.define_eq_ok {changed : Store} {ref : Ref .scope}
    {change : Scope → Except ScopeFault Scope} (ran : store.define ref change = .ok changed) :
    ∃ scope, change (store.scope ref) = .ok scope ∧ changed = store.setScope ref scope := by
  unfold Store.define at ran
  cases defined : change (store.scope ref) with
  | error fault =>
    rw [defined] at ran
    cases ran
  | ok scope =>
    rw [defined] at ran
    cases ran
    exact ⟨scope, rfl, rfl⟩

namespace Store.Sound

variable {store : Store} {functions : Array Function → Prop}

theorem rooted (sound : store.Sound) : store.Rooted :=
  fun ref =>
    ⟨sound.exclusive ref, fun parent isParent => (sound.parents ref parent isParent).2,
      sound.closures ref⟩

theorem allows (sound : store.Sound) (known : functions store.functions) :
    (Law.lax functions).AllowsStore store where
  arrays _ _ _ _ := trivial
  objects _ _ _ _ := ⟨trivial, trivial⟩
  functions := known
  groups := sound.groups
  scopes ref :=
    ⟨fun _ _ => trivial, fun _ _ => trivial, fun _ _ => Law.lax_function _,
      sound.groupNames ref⟩

theorem allowsAny (sound : store.Sound) : (Law.lax fun _ => True).AllowsStore store :=
  sound.allows trivial

theorem of_rooted (rooted : store.Rooted) (values : ∀ fn ∈ store.functions, fn.IsGrounded store)
    (allows : (Law.lax functions).AllowsStore store) : store.Sound where
  exclusive ref := (rooted ref).exclusive
  parents ref parent isParent := by
    have older := (rooted ref).older parent isParent
    exact ⟨Nat.lt_trans older (hasScope_of_parent isParent), older⟩
  closures ref := (rooted ref).closures
  values := values
  groupNames ref := (allows.scopes ref).groups
  groups := allows.groups

variable {registry : Registry} {ref : Ref .scope} {scope : Scope}

variable (sound : store.Sound)

include sound

theorem setScope (fits : scope.FitsAt store ref)
    (named : ∀ item ∈ scope.groups, item.2.value.index < store.groups.size) :
    (store.setScope ref scope).Sound := by
  apply of_rooted (sound.rooted.setScope fits)
  · exact fun fn mem =>
      (sound.values fn mem).expand (.setScope store ref scope)
  · have allowed : (Law.lax fun _ => True).AllowsScope store scope :=
      ⟨fun _ _ => trivial, fun _ _ => trivial, fun _ _ => Law.lax_function _, named⟩
    exact (sound.allowsAny.setScope allowed).mono (.setScope store ref scope)

theorem newScope {parent : Option (Ref .scope)}
    (existing : ∀ ref ∈ parent, store.HasScope ref) :
    (store.newScope { parent := parent }).2.Sound := by
  refine of_rooted (sound.rooted.push rfl (.of_no_names rfl rfl existing)) ?_
    ((sound.allowsAny.newScope (.blank parent)).mono (.newScope store _))
  exact fun fn mem => (sound.values fn mem).expand (.newScope store _)

theorem newGroup {group : Group} (existing : store.HasScope group.scope) :
    (store.newGroup group).2.Sound := by
  refine of_rooted (sound.rooted.of_scopes_eq rfl) ?_
    ((sound.allowsAny.newGroup existing).mono (.newGroup store group))
  exact fun fn mem => (sound.values fn mem).expand (Nat.le_refl _)

theorem newFunction {fn : Function} (isGrounded : fn.IsGrounded store) :
    (store.newFunction fn).2.Sound := by
  have precedes : store.Precedes (store.newFunction fn).2 :=
    ⟨Nat.le_refl _, Nat.le_refl _, Nat.le_refl _, Nat.le_refl _⟩
  have allows : (Law.lax fun _ => True).AllowsStore (store.newFunction fn).2 :=
    { sound.allowsAny.mono precedes with functions := trivial }
  refine of_rooted (sound.rooted.of_scopes_eq rfl) ?_ allows
  intro each mem
  rcases Array.mem_push.mp mem with old | rfl
  · exact (sound.values each old).expand (Nat.le_refl _)
  · exact isGrounded.expand (Nat.le_refl _)

theorem define {kind : NameKind} {name : String} {entry : Entry kind.Content}
    (isGrounded : kind.IsGrounded store entry.value)
    (ran : (store.scope ref).define kind name entry = .ok scope) :
    (store.setScope ref scope).Sound := by
  apply sound.setScope ((sound.rooted ref).define isGrounded ran)
  have known := sound.groupNames ref
  cases kind with
  | variableName =>
    rw [Scope.defineVariable_eq_add ran]
    exact List.forall_mem_append.mpr ⟨known, by simp⟩
  | functionName =>
    rw [Scope.defineFunction_eq_add ran]
    exact List.forall_mem_append.mpr ⟨known, by simp⟩
  | groupName =>
    have isThere : entry.value.index < store.groups.size := isGrounded
    rw [Scope.defineGroup_eq_add ran]
    exact List.forall_mem_append.mpr ⟨known, by simpa using isThere⟩

theorem setVariable (owner : Ref .scope) (name : String) (value : Value) :
    (store.setVariable owner name value).Sound := by
  apply of_rooted (sound.rooted.setVariable owner name value)
  · exact fun fn mem =>
      (sound.values fn mem).expand (.modifyScope store owner _)
  · have allows : (Law.lax fun _ => True).AllowsIn store (store.setVariable owner name value) :=
      sound.allowsAny.modifyScope ((sound.allowsAny.scopes owner).assign trivial name)
    exact allows.mono (.modifyScope store owner _)

theorem merge (scope library : Ref .scope) : (store.merge scope (store.scope library)).1.Sound :=
  sound.setScope ((sound.rooted scope).mergeFrom (sound.closures library))
    ((sound.allowsAny.scopes scope).mergeFrom (sound.allowsAny.scopes library)).groups

theorem changing {result : Except ScopeFault Store} (site : Option Site)
    (keeps : ∀ changed, result = .ok changed → changed.Sound) :
    (Operation.changing store site result).2.Sound := by
  cases result with
  | error fault => exact sound
  | ok changed => exact keeps changed rfl

/-- Every operation keeps a store sound, whether it is done, refused or stops midway. -/
theorem perform {operation : Operation} (isGrounded : operation.IsGrounded store) :
    (operation.perform registry store).2.Sound := by
  cases operation with
  | newScope parent => exact sound.newScope isGrounded
  | newGroup group => exact sound.newGroup isGrounded
  | newFunction fn => exact sound.newFunction isGrounded
  | define scope kind name content isPublic site =>
    apply sound.changing site
    intro changed ran
    obtain ⟨result, defined, rfl⟩ := define_eq_ok ran
    exact sound.define isGrounded.2 defined
  | get scope kind name site => exact sound
  | assign scope name value site =>
    apply sound.changing site
    intro changed ran
    unfold Store.assignVariable at ran
    cases found : store.ownerOf scope name with
    | error fault =>
      rw [found] at ran
      cases ran
    | ok owner =>
      rw [found] at ran
      cases ran
      exact sound.setVariable owner name value
  | member group kind name reader site => exact sound
  | merge scope library site => exact sound.merge scope library

end Store.Sound

/-- Going from parent to parent passes certain scopes and ends at an outermost one. -/
inductive Store.Climbs (store : Store) :
    Ref .scope → List (Ref .scope) → Prop
  | outermost {ref : Ref .scope} : (store.scope ref).parent = none → Climbs store ref [ref]
  | outwards {ref parent : Ref .scope} {rest : List (Ref .scope)} :
      (store.scope ref).parent = some parent → Climbs store parent rest →
      Climbs store ref (ref :: rest)

namespace Store

variable {store : Store}

theorem Rooted.climbs (rooted : store.Rooted) (ref : Ref .scope) :
    store.Climbs ref (store.chain ref) := by
  fun_induction Store.chain store ref with
  | case1 ref isParent => exact .outermost isParent
  | case2 ref parent isParent older ih =>
    exact .outwards isParent ih
  | case3 ref parent isParent notOlder => exact (notOlder ((rooted ref).older parent isParent)).elim

theorem Climbs.ne_nil {ref : Ref .scope} {path : List (Ref .scope)}
    (climbs : store.Climbs ref path) : path ≠ [] := by
  cases climbs <;> simp

end Store

namespace Session

theorem run_sound {machine : Machine} {scope : Ref .scope} (sound : machine.store.Sound)
    (existing : machine.store.HasScope scope) (depth : Nat) (text : String) :
    (Action.after (run depth scope text machine)).store.Sound ∧ ∀ level visit,
      Visited depth (·.runSource scope text) machine level visit →
        visit.machine.store.Sound := by
  let law := Law.lax (· = machine.store.functions)
  have isLoud : law.IsLoud :=
    { alone := rfl, numbered _ := trivial, grouped _ _ _ _ _ _ _ := trivial }
  have allows : law.Allows machine :=
    ⟨sound.allows rfl, trivial, trivial, by simp [law, Law.lax]⟩
  have stays : ∀ later : Machine, later.store.Rooted → machine.store.Expands later.store →
      law.Allows later → later.store.Sound := by
    intro later rooted expands laterAllows
    have sameValues : later.store.functions = machine.store.functions := laterAllows.store.functions
    refine .of_rooted rooted ?_ laterAllows.store
    rw [sameValues]
    exact fun fn mem => (sound.values fn mem).expand expands
  refine ⟨?_, ?_⟩
  · have progress := (Evaluator.runSource_keeps (evaluator_steady depth) scope text machine).moves
    exact stays _ (progress.rooted sound.rooted existing) progress.size_le
      (run_allowed isLoud allows depth scope text)
  · intro level visit visited
    obtain ⟨rooted, -, expands⟩ := visited_rooted visited sound.rooted existing
    exact stays visit.machine rooted expands (visited_admitted isLoud allows visited).machine

theorem ComesUp.sound {registry : Registry} {machine : Machine}
    (comesUp : ComesUp (fun _ => True) registry machine) : machine.store.Sound := by
  induction comesUp with
  | fresh isEmpty isRegistry =>
    have allows : (Law.lax fun _ => True).AllowsStore .empty := .empty trivial
    rw [isEmpty]
    exact .of_rooted .empty (by simp [Store.empty]) allows
  | operation _ _ isGrounded ih => exact ih.perform isGrounded
  | run depth text _ existing ih =>
    exact (run_sound ih existing depth text).1
  | during _ existing visited ih =>
    exact (run_sound ih existing _ _).2 _ _ visited
  | elsewhere _ sameStore _ ih =>
    rw [sameStore]
    exact ih

/--
Stores stay sound.  On every machine of a session, whatever programs it runs and
whatever operations it uses, no scope has a variable and a group of one name, and
parents, closures and groups refer to scopes that are there.

Parents are older than what lies inside them, so going from parent to parent ends
at an outermost scope.  That one is the root, a scope lies within those that are
passed on the way, and a name is found in the first of them that has it.
-/
theorem store_stays_sound
    {registry : Registry}
    {machine : Machine}
    (comesUp : ComesUp (fun _ => True) registry machine) :
    machine.store.Sound ∧
      ∀ ref, ∃ path,
        machine.store.Climbs ref path ∧
          path.getLast? = some (machine.store.rootOf ref) ∧
          (∀ outer, machine.store.isWithin ref outer = true ↔ outer ∈ path) ∧
          ∀ kind name,
            machine.store.find? (Scope.names kind) ref name =
              path.findSome? fun each =>
                ((Scope.names kind (machine.store.scope each)).lookup name).map fun entry =>
                  (each, entry) := by
  have sound := comesUp.sound
  refine ⟨sound, fun ref => ?_⟩
  have climbs := sound.rooted.climbs ref
  refine ⟨machine.store.chain ref, climbs, ?_, ?_, fun kind name => rfl⟩
  · rw [Store.rootOf, List.getLastD_eq_getLast?, List.getLast?_eq_some_getLast climbs.ne_nil]
    rfl
  · exact fun outer => List.contains_iff_mem

/-- An import that stops midway: the name of a group is that of a variable to be imported. -/
theorem store_stays_sound_after_broken_import :
    let perform (machine : Machine) (operation : Operation) : Machine :=
      { machine with store := (operation.perform .standard machine.store).2 }
    let rooted := perform {} (.newScope none)
    let grouped := perform rooted (.newGroup ⟨"b", ⟨0⟩⟩)
    let named := perform grouped (.define ⟨0⟩ .groupName "b" ⟨0⟩ false none)
    let prepared := perform named (.newScope none)
    let ran := Action.after (run 8 ⟨1⟩ "1 -> var a\n2 -> var b" prepared)
    let machine := perform ran (.merge ⟨0⟩ ⟨1⟩ none)
    ComesUp (fun _ => True) .standard machine ∧
      (machine.store.scope ⟨0⟩).bindings.map Prod.fst = ["a"] ∧
      machine.store.Sound := by
  intro perform rooted grouped named prepared ran machine
  have fresh : ComesUp (fun _ => True) .standard {} := .fresh rfl rfl
  have rootedComesUp : ComesUp (fun _ => True) .standard rooted :=
    .operation fresh trivial (by simp [Operation.IsGrounded])
  have groupedComesUp : ComesUp (fun _ => True) .standard grouped :=
    .operation rootedComesUp trivial Nat.one_pos
  have namedComesUp : ComesUp (fun _ => True) .standard named :=
    .operation groupedComesUp trivial ⟨Nat.one_pos, Nat.one_pos⟩
  have preparedComesUp : ComesUp (fun _ => True) .standard prepared :=
    .operation namedComesUp trivial (by simp [Operation.IsGrounded])
  have ranComesUp : ComesUp (fun _ => True) .standard ran :=
    .run 8 _ preparedComesUp (Nat.lt_succ_self 1)
  have size : ran.store.scopes.size = 2 := by decide +kernel
  have comesUp : ComesUp (fun _ => True) .standard machine := by
    refine .operation ranComesUp trivial ?_
    simp [Operation.IsGrounded, Store.HasScope, size]
  exact ⟨comesUp, by decide +kernel, (store_stays_sound comesUp).1⟩

end Session

end ArrowScript
