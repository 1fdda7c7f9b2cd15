import ArrowScript.Proofs.Tree.Outline
import ArrowScript.Proofs.Evaluation.Visit

namespace ArrowScript

/-!
# What running code does to scopes

`Progress` lists everything that code running in a frame can do to the scopes
of a machine.  What the code declares is limited to what stands in its outline.
Every body starts in a new scope, and `@` is set only between a point where it
is saved and the point where it is put back.

Every invariant of scopes follows from this list by induction.
-/

theorem Namespace.mem_of_lookup {names : Namespace α} {name : String} {entry : Entry α}
    (found : names.lookup name = some entry) : (name, entry) ∈ names := by
  obtain ⟨front, back, shape, -⟩ := List.lookup_eq_some_iff.mp found
  rw [shape]
  exact List.mem_append_right front List.mem_cons_self

namespace Store

section

variable {α : Type} {store : Store} {kind : NameKind} {names : Scope → Namespace α}
  {name : String} {entry : Entry α}

theorem visible_eq_ok {ref owner : Ref .scope}
    (found : store.visible kind names ref name = .ok (owner, entry)) :
    owner ∈ store.chain ref ∧ (names (store.scope owner)).lookup name = some entry ∧
      entry.isHidden = false := by
  unfold visible at found
  split at found
  · cases found
  · rename_i result located
    split at found
    · cases found
    · rename_i shown
      cases found
      obtain ⟨ref, inChain, defined⟩ := List.exists_of_findSome?_eq_some located
      obtain ⟨entry, looked, same⟩ := Option.map_eq_some_iff.mp defined
      cases same
      exact ⟨inChain, looked, Bool.eq_false_iff.mpr shown⟩

theorem member_eq_ok {group reader : Ref .scope}
    (given : store.member kind names group reader name = .ok entry) :
    (names (store.scope group)).lookup name = some entry ∧ (entry.isPublic = false →
      entry.isForeign = false ∧ store.isWithin reader group = true) := by
  unfold member Scope.member at given
  split at given
  · cases given
  · rename_i located
    split at given
    · cases given
    · rename_i allowed
      cases given
      refine ⟨located, ?_⟩
      intro isPrivate
      simpa [isPrivate] using allowed

end

/-- A reference points to a scope of the store. -/
def HasScope (store : Store) (ref : Ref .scope) : Prop :=
  ref.index < store.scopes.size

variable {before after : Store} {ref other : Ref .scope} {scope : Scope}

theorem scope_of_scopes_eq (same : after.scopes = before.scopes) (ref : Ref .scope) :
    after.scope ref = before.scope ref := by
  simp only [Store.scope, same]

theorem scope_of_not_hasScope {store : Store} (absent : ¬ store.HasScope ref) :
    store.scope ref = .root := by
  unfold HasScope at absent
  simp [Store.scope, absent]

theorem hasScope_of_function {store : Store} {item : String × Entry Function}
    (mem : item ∈ (store.scope ref).functions) : store.HasScope ref := by
  by_cases existing : store.HasScope ref
  · exact existing
  · rw [scope_of_not_hasScope existing] at mem
    cases mem

section

variable (pushed : after.scopes = before.scopes.push scope)

include pushed

theorem scope_of_push (existing : before.HasScope ref) : after.scope ref = before.scope ref := by
  have notLast : ref.index ≠ before.scopes.size :=
    Nat.ne_of_lt existing
  simp only [Store.scope, pushed, Array.getD_eq_getD_getElem?]
  rw [Array.getElem?_push, if_neg notLast]

theorem scope_of_push_new : after.scope ⟨before.scopes.size⟩ = scope := by
  simp only [Store.scope, pushed, Array.getD_eq_getD_getElem?]
  rw [Array.getElem?_push, if_pos rfl, Option.getD_some]

theorem hasScope_of_push (existing : before.HasScope ref) : after.HasScope ref := by
  unfold HasScope at existing ⊢
  rw [pushed, Array.size_push]
  omega

theorem hasScope_of_push_new : after.HasScope ⟨before.scopes.size⟩ := by
  unfold HasScope
  rw [pushed, Array.size_push]
  exact Nat.lt_succ_self before.scopes.size

end

theorem ref_eq_of_index_eq {first second : Ref .scope} (same : first.index = second.index) :
    first = second := by
  cases first
  cases second
  cases same
  rfl

theorem scope_setScope_self (existing : before.HasScope ref) (scope : Scope) :
    (before.setScope ref scope).scope ref = scope := by
  simp only [Store.scope, Store.setScope, Array.getD_eq_getD_getElem?]
  rw [Array.getElem?_setIfInBounds_self_of_lt existing, Option.getD_some]

theorem scope_setScope_other (different : other ≠ ref) (scope : Scope) :
    (before.setScope ref scope).scope other = before.scope other := by
  have indexes : ref.index ≠ other.index :=
    fun same => different (ref_eq_of_index_eq same.symm)
  simp only [Store.scope, Store.setScope, Array.getD_eq_getD_getElem?]
  rw [Array.getElem?_setIfInBounds_ne indexes]

theorem scope_modifyScope_self (existing : before.HasScope ref) (change : Scope → Scope) :
    (before.modifyScope ref change).scope ref = change (before.scope ref) := by
  have bound : ref.index < before.scopes.size := existing
  simp only [Store.scope, Store.modifyScope, Array.getD_eq_getD_getElem?]
  rw [Array.getElem?_modify, if_pos rfl, Array.getElem?_eq_getElem bound]
  rfl

theorem scope_modifyScope_other (different : other ≠ ref) (change : Scope → Scope) :
    (before.modifyScope ref change).scope other = before.scope other := by
  have indexes : ref.index ≠ other.index :=
    fun same => different (ref_eq_of_index_eq same.symm)
  simp only [Store.scope, Store.modifyScope, Array.getD_eq_getD_getElem?]
  rw [Array.getElem?_modify, if_neg indexes]

@[simp]
theorem size_setScope (store : Store) (ref : Ref .scope) (scope : Scope) :
    (store.setScope ref scope).scopes.size = store.scopes.size := by
  simp [Store.setScope]

@[simp]
theorem size_modifyScope (store : Store) (ref : Ref .scope) (change : Scope → Scope) :
    (store.modifyScope ref change).scopes.size = store.scopes.size := by
  simp [Store.modifyScope]

end Store

/-- The body of a function. -/
def UserFunction.code (fn : UserFunction) : Body :=
  ⟨fn.parameters, fn.body.statements⟩

/-- A scope in which nothing is defined but names bound for a body. -/
structure Scope.Starts (scope : Scope) (body : Body) : Prop where
  bindings : ∀ item ∈ scope.bindings,
    item.1 ∈ body.bound ∧ item.2.declared = none ∧ item.2.isForeign = false
  functions : scope.functions = []
  groups : scope.groups = []
  context : scope.context = none

/-- A machine gets one more scope and keeps those it has. -/
structure Machine.Gains (before : Machine) (scope : Scope) (after : Machine) : Prop where
  scopes : after.store.scopes = before.store.scopes.push scope
  sources : before.sources ≤ after.sources

/-- The reference that the next new scope of a machine gets. -/
def Machine.nextScope (machine : Machine) : Ref .scope :=
  ⟨machine.store.scopes.size⟩

/-- A machine gets an outermost scope and a number for a source that is to run in it. -/
structure Machine.Loads (before : Machine) (inner : Frame)
    (after : Machine) : Prop extends before.Gains .root after where
  frame : inner = ⟨before.nextScope, before.sources⟩
  numbered : before.sources < after.sources

/--
How code comes to run a body, in a new scope: the body stands in the code, or
it belongs to a function found in some scope, or it is a whole program that was
read.
-/
inductive Opens (frame : Frame) (outline : List Element) (before : Machine) :
    Frame → Body → Machine → Prop
  | inner {scope : Scope} {body : Body} {started : Machine} : .body body ∈ outline →
      before.Gains scope started → scope.parent = some frame.scope → scope.Starts body →
      Opens frame outline before ⟨before.nextScope, frame.source⟩ body started
  | call
      {scope : Scope}
      {owner : Ref .scope}
      {name : String}
      {entry : Entry Function}
      {function : UserFunction}
      {started : Machine} :
      (name, entry) ∈ (before.store.scope owner).functions → entry.value = .user function →
      before.Gains scope started → scope.parent = some function.closure →
      scope.Starts function.code →
      Opens frame outline before ⟨before.nextScope, function.source⟩ function.code started
  | load {inner : Frame} {text : String} {started : Machine} : before.Loads inner started →
      Opens frame outline before inner (.ofText text) started

/-- What a declaration that stands in the code makes of the scope it runs in. -/
inductive Declares (frame : Frame) (outline : List Element) (store : Store) :
    Scope → Prop
  | declareVariable {name : Token} {value : Value} {isPublic : Bool} {scope : Scope} :
      .variable name ∈ outline →
      (store.scope frame.scope).defineVariable name.lexeme
          { value := value, isPublic := isPublic, declared := some (frame.site name) } =
        .ok scope →
      Declares frame outline store scope
  | declareFunction
      {name : Token}
      {parameters : List Token}
      {block : Block}
      {isPublic : Bool}
      {scope : Scope} :
      .function name parameters block ∈ outline →
      (store.scope frame.scope).defineFunction name.textValue
          { value :=
              .user
                ⟨name.textValue, parameters.map Token.lexeme, block, frame.scope, frame.source⟩
            isPublic := isPublic } =
        .ok scope →
      Declares frame outline store scope
  | declareGroup {name : Token} {group : Ref .group} {isPublic : Bool} {scope : Scope} :
      .group name ∈ outline →
      (store.scope frame.scope).defineGroup name.lexeme
          { value := group, isPublic := isPublic } =
        .ok scope →
      Declares frame outline store scope
  | useNatives {path : Token} {natives : List Native} :
      .use path ∈ outline →
      Declares frame outline store
        ((store.scope frame.scope).mergeFrom (.ofNatives natives)).scope

/-- Import the names of a scope into another one. -/
def Machine.adopt (machine : Machine) (scope library : Ref .scope) : Machine :=
  machine.modifyStore fun store =>
    store.setScope scope ((store.scope scope).mergeFrom (store.scope library)).scope

/--
What code with an outline can do in a frame to the scopes of a machine.  While
`@` is open, the code may leave another value of `@` behind.
-/
inductive Progress :
    Frame → List Element → Bool → Machine → Machine → Prop
  | kept {frame : Frame} {outline : List Element} {isOpen : Bool} {before after : Machine} :
      after.store.scopes = before.store.scopes → before.sources ≤ after.sources →
      Progress frame outline isOpen before after
  | trans {frame : Frame} {outline : List Element} {isOpen : Bool} {first second third : Machine} :
      Progress frame outline isOpen first second → Progress frame outline isOpen second third →
      Progress frame outline isOpen first third
  | context {frame : Frame} {outline : List Element} {machine : Machine} (value : Option Value) :
      Progress frame outline true machine (machine.modifyStore (·.setContext frame.scope value))
  | restore {frame : Frame} {outline : List Element} {isOpen : Bool} {before after : Machine} :
      Progress frame outline true before after → Progress frame outline isOpen before
        (after.modifyStore (·.setContext frame.scope (before.store.scope frame.scope).context))
  | declare
      {frame : Frame}
      {outline : List Element}
      {isOpen : Bool}
      {machine : Machine}
      {scope : Scope} :
      Declares frame outline machine.store scope →
      Progress frame outline isOpen machine (machine.modifyStore (·.setScope frame.scope scope))
  | assign
      {frame : Frame}
      {outline : List Element}
      {isOpen : Bool}
      {machine : Machine}
      (owner : Ref .scope)
      (name : String)
      (value : Value) :
      Progress frame outline isOpen machine
        (machine.modifyStore (·.setVariable owner name value))
  | enter
      {frame inner : Frame}
      {outline : List Element}
      {isOpen : Bool}
      {body : Body}
      {before started after : Machine} :
      Opens frame outline before inner body started →
      Progress inner body.outline false started after → Progress frame outline isOpen before after
  | adopt
      {frame inner : Frame}
      {outline : List Element}
      {isOpen : Bool}
      {path : Token}
      {text : String}
      {before started after : Machine} :
      .use path ∈ outline →
      before.Loads inner started →
        Progress inner (Body.ofText text).outline false started after →
      Progress frame outline isOpen before (after.adopt frame.scope inner.scope)

theorem Machine.Gains.size_le {before after : Machine} {scope : Scope}
    (gains : before.Gains scope after) : before.store.scopes.size ≤ after.store.scopes.size := by
  rw [gains.scopes, Array.size_push]
  exact Nat.le_succ _

namespace Opens

variable {frame inner : Frame} {outline more : List Element} {body : Body}
  {before started : Machine} (opens : Opens frame outline before inner body started)

include opens

theorem exists_gains :
    ∃ scope, before.Gains scope started ∧ inner.scope = before.nextScope ∧
      scope.Starts body := by
  cases opens with
  | inner mem gains parent starts => exact ⟨_, gains, rfl, starts⟩
  | call stored isUser gains parent starts => exact ⟨_, gains, rfl, starts⟩
  | load loads =>
    exact ⟨_, loads.toGains, by rw [loads.frame], by simp [Scope.root], rfl, rfl, rfl⟩

theorem mono (inside : outline ⊆ more) : Opens frame more before inner body started := by
  cases opens with
  | inner mem gains parent starts => exact .inner (inside mem) gains parent starts
  | call stored isUser gains parent starts => exact .call stored isUser gains parent starts
  | load loads => exact .load loads

theorem size_le : before.store.scopes.size ≤ started.store.scopes.size := by
  obtain ⟨scope, gains, -⟩ := opens.exists_gains
  exact gains.size_le

theorem sources_le : before.sources ≤ started.sources := by
  obtain ⟨scope, gains, -⟩ := opens.exists_gains
  exact gains.sources

end Opens

theorem Declares.mono {frame : Frame} {fewer more : List Element} {store : Store} {scope : Scope}
    (declares : Declares frame fewer store scope) (inside : fewer ⊆ more) :
    Declares frame more store scope := by
  cases declares with
  | declareVariable mem defined => exact .declareVariable (inside mem) defined
  | declareFunction mem defined => exact .declareFunction (inside mem) defined
  | declareGroup mem defined => exact .declareGroup (inside mem) defined
  | useNatives mem => exact .useNatives (inside mem)

namespace Progress

variable {frame : Frame} {outline : List Element} {isOpen : Bool} {before after : Machine}

theorem refl (machine : Machine) : Progress frame outline isOpen machine machine :=
  .kept rfl (Nat.le_refl _)

section

variable (progress : Progress frame outline isOpen before after)

include progress

theorem mono {more : List Element} (inside : outline ⊆ more) :
    Progress frame more isOpen before after := by
  induction progress with
  | kept scopes sources => exact .kept scopes sources
  | trans _ _ first second => exact .trans (first inside) (second inside)
  | context value => exact .context value
  | restore _ ih => exact .restore (ih inside)
  | declare declares => exact .declare (declares.mono inside)
  | assign owner name value => exact .assign owner name value
  | enter opens runs _ => exact .enter (opens.mono inside) runs
  | adopt mem loads runs _ => exact .adopt (inside mem) loads runs

/-- Code that leaves `@` alone may also run where `@` is open. -/
theorem opened : Progress frame outline true before after := by
  induction progress with
  | kept scopes sources => exact .kept scopes sources
  | trans _ _ first second => exact .trans first second
  | context value => exact .context value
  | restore progress _ => exact .restore progress
  | declare declares => exact .declare declares
  | assign owner name value => exact .assign owner name value
  | enter opens runs _ => exact .enter opens runs
  | adopt mem loads runs _ => exact .adopt mem loads runs

theorem size_le : before.store.scopes.size ≤ after.store.scopes.size := by
  induction progress with
  | kept scopes sources => exact Nat.le_of_eq (by rw [scopes])
  | trans _ _ first second => exact Nat.le_trans first second
  | context value => simp [Machine.modifyStore, Store.setContext]
  | restore _ ih =>
    simpa [Machine.modifyStore, Store.setContext] using ih
  | declare declares => simp [Machine.modifyStore]
  | assign owner name value => simp [Machine.modifyStore, Store.setVariable]
  | enter opens _ ih => exact Nat.le_trans opens.size_le ih
  | adopt _ loads _ ih =>
    have grown : _ ≤ _ := Nat.le_trans loads.size_le ih
    simpa [Machine.adopt, Machine.modifyStore] using grown

theorem sources_le : before.sources ≤ after.sources := by
  induction progress with
  | kept scopes sources => exact sources
  | trans _ _ first second => exact Nat.le_trans first second
  | context value => exact Nat.le_refl _
  | restore _ ih => exact ih
  | declare declares => exact Nat.le_refl _
  | assign owner name value => exact Nat.le_refl _
  | enter opens _ ih => exact Nat.le_trans opens.sources_le ih
  | adopt _ loads _ ih => exact Nat.le_trans loads.sources ih

end

theorem of_closed (progress : Progress frame outline false before after) :
    Progress frame outline isOpen before after := by
  cases isOpen with
  | false => exact progress
  | true => exact progress.opened

end Progress

/-- What a task does in the scope where it runs. -/
def Task.outline : Task → List Element
  | .evaluate expr => expr.outline
  | .execute stmt => stmt.outline

/-- A statement of a body starts in the scope of the body. -/
inductive Executes (frame : Frame) (body : Body) (start : Machine) :
    Visit → Prop
  | statement {statement : Stmt} {machine : Machine} :
      Progress frame body.outline false start machine → statement ∈ body.statements →
      Executes frame body start ⟨frame, .execute statement, machine⟩

/--
What code in a frame hands over: an expression of its own, evaluated in the
same frame, or a statement of a body that it opens.
-/
inductive Enters (frame : Frame) (outline : List Element) (start : Machine) :
    Visit → Prop
  | evaluates {expression : Expr} {machine : Machine} : Progress frame outline true start
    machine →
      expression.outline ⊆ outline →
      Enters frame outline start ⟨frame, .evaluate expression, machine⟩
  | executes {inner : Frame} {body : Body} {before started : Machine} {visit : Visit} :
      Progress frame outline true start before → Opens frame outline before inner body started →
      Executes inner body started visit → Enters frame outline start visit

/-- A statement that code starts behind other code of its body. -/
theorem Executes.behind {frame : Frame} {body : Body} {first second : Machine} {visit : Visit}
    (moved : Progress frame body.outline false first second)
    (executes : Executes frame body second visit) : Executes frame body first visit := by
  cases executes with
  | statement progress mem => exact .statement (moved.trans progress) mem

/-- A task that code hands over behind other code with its outline. -/
theorem Enters.behind {frame : Frame} {outline : List Element} {first second : Machine}
    {visit : Visit} (moved : Progress frame outline true first second)
    (enters : Enters frame outline second visit) : Enters frame outline first visit := by
  cases enters with
  | evaluates progress inside => exact .evaluates (moved.trans progress) inside
  | executes progress opens runs => exact .executes (moved.trans progress) opens runs

/-- An evaluator whose tasks do to scopes what their outlines allow. -/
def Evaluator.Faithful (evaluator : Evaluator) : Prop :=
  ∀ visit : Visit,
    Progress visit.frame visit.task.outline false visit.machine
      (Action.after (evaluator.answer visit))

end ArrowScript
