import ArrowScript.Proofs.Evaluation.Course
import ArrowScript.Proofs.Evaluation.Discipline
import ArrowScript.Proofs.Native.Deeds

namespace ArrowScript

/-!
# Keeping to an outline

Code keeps to an outline in a frame when it does to scopes only what the
outline allows, and hands over only expressions of its own and statements of
bodies that it opens.  These are the steps of such code.
-/

open ArrowScript.Action

variable {final before : Machine}

namespace Action

variable {place : Option Position} {ref : Ref .scope} {machine : Machine} {scope : Scope}
  {definition : Scope → Except ScopeFault Scope}

theorem lookUp_eq_ok {view : Store → Except ScopeFault α} {value : α}
    (looked : lookUp place view machine = .ok value final) :
    view machine.store = .ok value ∧ final = machine := by
  unfold lookUp at looked
  split at looked
  · rename_i seen
    cases looked
    exact ⟨seen, rfl⟩
  · cases looked

theorem define_of_ok (defined : definition (machine.store.scope ref) = .ok scope) :
    define place ref definition machine = .ok () (machine.modifyStore (·.setScope ref scope)) := by
  have looked :
      lookUp place (fun store => definition (store.scope ref)) machine = .ok scope machine := by
    simp only [lookUp, defined]
  exact bind_of_ok looked

theorem define_of_error {fault : ScopeFault}
    (refused : definition (machine.store.scope ref) = .error fault) :
    define place ref definition machine =
      .error (.raised { place := place, fault := .scope fault }) machine := by
  have looked : lookUp place (fun store => definition (store.scope ref)) machine =
      .error (.raised { place := place, fault := .scope fault }) machine := by
    simp only [lookUp, refused]
  exact bind_of_error looked

end Action

/-- An evaluator that edits stores and leaves alone the imports that go on. -/
def Evaluator.Edits (evaluator : Evaluator) : Prop :=
  ∀ visit : Visit, visit.machine.Edits (after (evaluator.answer visit))

/-- An evaluator whose tasks keep to their outlines and edit stores. -/
structure Evaluator.Steady (evaluator : Evaluator) : Prop where
  faithful : evaluator.Faithful
  edits : evaluator.Edits

namespace Keeps

variable {α : Type} {told : Option (Option Position → Fault → Prop)}
  {may : Option Position → Fault → Prop} {actual : Evaluator} {contract : Contract}
  {frame : Frame} {outline : List Element} {isOpen : Bool}

theorem quiet {action : Action α} (deed : Deed may action) (quiet : Quiet action) :
    Keeps (some may) actual contract fun _ => action :=
  fun machine => .deed deed (.kept (quiet machine) (deed.edits machine).sources)

theorem pure (value : α) : Keeps told actual contract fun _ => Pure.pure value := by
  refine fun machine => .own (.refl machine) (.refl machine) ?_
  intro _ _ failure final failed
  cases failed

theorem raiseAt (token : Token) (fault : Fault) :
    Keeps (some Placed) actual contract fun _ => (Action.raiseAt token fault : Action α) :=
  quiet (.raiseAt token fault) (.raiseAt token fault)

theorem inspect (view : Store → α) :
    Keeps (some may) actual contract fun _ => Action.inspect view :=
  quiet (.inspect view) (.inspect view)

theorem lookUp (place : Position) (view : Store → Except ScopeFault α) :
    Keeps (some Placed) actual contract fun _ => Action.lookUp (some place) view :=
  quiet (.lookUp place view) (.lookUp _ view)

theorem trace (level : Nat) (line : Store → String) :
    Keeps (some may) actual contract fun _ => Action.trace level line :=
  quiet (.trace level line) (.trace level line)

theorem evaluate (steady : actual.Steady) {expr : Expr} (inside : expr.outline ⊆ outline) :
    Keeps told actual (.code frame outline isOpen) (·.evaluate frame expr) := by
  intro machine
  have progress := steady.faithful ⟨frame, .evaluate expr, machine⟩
  have enters : Enters frame outline machine ⟨frame, .evaluate expr, machine⟩ :=
    .evaluates (.refl machine) inside
  exact .perform frame (.evaluate expr) ⟨enters, .refl machine⟩
    (progress.mono inside).of_closed (steady.edits ⟨frame, .evaluate expr, machine⟩)

theorem setContext (value : Option Value) :
    Keeps (some may) actual (.code frame outline true) fun _ => Evaluator.setContext frame value :=
  fun _ => .deed (.change fun store => .setContext store frame.scope value) (.context value)

theorem setVariable (owner : Ref .scope) (name : String) (value : Value) :
    Keeps (some may) actual contract fun _ => Action.change (·.setVariable owner name value) :=
  fun _ => .deed (.change fun store => .modifyScope store owner _) (.assign owner name value)

theorem define {place : Position} {definition : Scope → Except ScopeFault Scope}
    (declares : ∀ store scope, definition (store.scope frame.scope) = .ok scope →
      Declares frame outline store scope) :
    Keeps (some Placed) actual (.code frame outline isOpen)
      fun _ => Action.define (some place) frame.scope definition := by
  refine fun machine => .deed (.define place frame.scope definition) ?_
  cases defined : definition (machine.store.scope frame.scope) with
  | ok scope =>
    rw [define_of_ok defined]
    exact .declare (declares machine.store scope defined)
  | error fault =>
    rw [define_of_error defined]
    exact .refl machine

/-- To keep to contracts is a habit, whatever the ground is. -/
def habit {World : Type} (told : Option (Option Position → Fault → Prop)) (actual : Evaluator)
    (contract : World → Contract) : Habit ⟨.empty, 0⟩ (fun _ : World => .nothing) where
  Holds world _ code := Keeps told actual (contract world) code
  Later before after := before = after
  grows _ := .refl .nothing
  pure result _ := .pure result
  bind holds next := holds.bind fun result => next _ rfl result (Carried.nothing result)

end Keeps

namespace Evaluator

variable {told : Option (Option Position → Fault → Prop)}
    {may : Option Position → Fault → Prop}
  {actual : Evaluator} {frame : Frame} {outline : List Element} {isOpen : Bool}
  {machine : Machine} {body : Body} {bindings : List (String × Value)}

theorem executes_keeps (steady : actual.Steady) (frame : Frame) {stmts : List Stmt}
    (members : stmts ⊆ body.statements) :
    (Keeps.habit told actual fun _ : Unit => .statements frame body).Executes frame stmts := by
  intro _ stmt isOwn machine
  have mem := members isOwn
  have progress := steady.faithful ⟨frame, .execute stmt, machine⟩
  have enters : Executes frame body machine ⟨frame, .execute stmt, machine⟩ :=
    .statement (.refl machine) mem
  exact .perform frame (.execute stmt) ⟨enters, .refl machine⟩
    (progress.mono (Body.outline_subset mem)) (steady.edits ⟨frame, .execute stmt, machine⟩)

theorem executeBody_keeps (steady : actual.Steady) (frame : Frame) {block : Block}
    (members : block.statements ⊆ body.statements) :
    Keeps told actual (.statements frame body) (·.executeBody frame block) := by
  let habit := Keeps.habit told actual fun _ : Unit => .statements frame body
  have executed : habit.Holds () _ (·.executeBody frame block) :=
    habit.executeBody (executes_keeps steady frame members)
  exact executed

theorem setScope_of_gains {scope : Scope} (gains : before.Gains scope machine)
    (changed : Scope) :
    before.Gains changed (machine.modifyStore (·.setScope before.nextScope changed)) where
  scopes := by
    simp only [Machine.modifyStore, Store.setScope, gains.scopes, Machine.nextScope,
      Array.setIfInBounds]
    rw [dif_pos (by simp), Array.set_push]
    simp
  sources := gains.sources

/-- Binding names in a new scope leaves it a scope in which a body starts. -/
theorem gains_bindParameters {scope : Scope}
    (bound : ∀ binding ∈ bindings, binding.1 ∈ body.bound)
    (gains : before.Gains scope machine)
    (starts : scope.Starts body) :
    ∃ final, before.Gains final (after (bindParameters before.nextScope bindings machine)) ∧
      final.parent = scope.parent ∧ final.Starts body := by
  induction bindings generalizing machine scope with
  | nil => exact ⟨scope, gains, rfl, starts⟩
  | cons binding rest ih =>
    obtain ⟨name, value⟩ := binding
    obtain ⟨nameBound, restBound⟩ := List.forall_mem_cons.mp bound
    have current : machine.store.scope before.nextScope = scope :=
      Store.scope_of_push_new gains.scopes
    let definition : Scope → Except ScopeFault Scope :=
      fun scope => scope.defineVariable name { value := value, isPublic := false }
    unfold bindParameters
    cases defined : definition (machine.store.scope before.nextScope) with
    | error fault =>
      rw [bind_of_error (define_of_error defined)]
      exact ⟨scope, gains, rfl, starts⟩
    | ok changed =>
      have shape : changed = { scope with bindings :=
                scope.bindings ++ [(name, { value := value, isPublic := false })] } := by
        rw [current] at defined
        simpa [Scope.add] using Scope.defineVariable_eq_add defined
      have changedStarts : changed.Starts body := by
        subst shape
        refine ⟨?_, starts.functions, starts.groups, starts.context⟩
        intro item mem
        rcases List.mem_append.mp mem with earlier | isNew
        · exact starts.bindings item earlier
        · rw [List.mem_singleton.mp isNew]
          exact ⟨nameBound, rfl, rfl⟩
      rw [bind_of_ok (define_of_ok defined)]
      obtain ⟨final, finalGains, parent, finalStarts⟩ :=
        ih restBound (setScope_of_gains gains changed) changedStarts
      exact ⟨final, finalGains, by rw [parent, shape], finalStarts⟩

/-- A machine with a new scope inside the scope of a frame. -/
def withInner (machine : Machine) (parent : Frame) : Machine :=
  machine.modifyStore fun store => (store.newScope (.child parent.scope)).2

theorem openBody_eq (machine : Machine) (parent : Frame) (bindings : List (String × Value)) :
    openBody parent bindings machine = (do
        bindParameters machine.nextScope bindings
        return ⟨machine.nextScope, parent.source⟩ : Action Frame) (withInner machine parent) :=
  rfl

theorem gains_openBody (machine : Machine) (parent : Frame)
    (bound : ∀ binding ∈ bindings, binding.1 ∈ body.bound) :
    ∃ scope, machine.Gains scope (after (openBody parent bindings machine)) ∧
      scope.parent = some parent.scope ∧ scope.Starts body := by
  have gains : machine.Gains (.child parent.scope) (withInner machine parent) :=
    ⟨rfl, Nat.le_refl _⟩
  have starts : (Scope.child parent.scope).Starts body :=
    ⟨by simp [Scope.child], rfl, rfl, rfl⟩
  obtain ⟨final, finalGains, sameParent, finalStarts⟩ :=
    gains_bindParameters bound gains starts
  refine ⟨final, ?_, sameParent, finalStarts⟩
  rw [openBody_eq]
  cases outcome : bindParameters machine.nextScope bindings (withInner machine parent) with
  | ok value middle =>
    rw [outcome] at finalGains
    rw [bind_of_ok outcome]
    exact finalGains
  | error failure middle =>
    rw [outcome] at finalGains
    rw [bind_of_error outcome]
    exact finalGains

theorem openBody_frame {parent inner : Frame}
    (ran : openBody parent bindings machine = .ok inner final) :
    inner = ⟨machine.nextScope, parent.source⟩ := by
  rw [openBody_eq] at ran
  cases outcome : bindParameters machine.nextScope bindings (withInner machine parent) with
  | ok value middle =>
    rw [bind_of_ok outcome] at ran
    cases ran
    rfl
  | error failure middle =>
    rw [bind_of_error outcome] at ran
    cases ran

theorem openBody_keeps {parent : Frame} {next : Frame → Evaluator → Action α}
    (deed : Deed may (openBody parent bindings))
    (bound : ∀ binding ∈ bindings, binding.1 ∈ body.bound) (opens : ∀ scope started,
        machine.Gains scope started → scope.parent = some parent.scope → scope.Starts body →
        Opens frame outline machine ⟨machine.nextScope, parent.source⟩ body started)
    (runs : ∀ inner, Keeps (some may) actual (.statements inner body) (next inner)) :
    KeepsAt (some may) actual (.code frame outline isOpen)
      (fun evaluator => openBody parent bindings >>= fun inner => next inner evaluator)
      machine := by
  obtain ⟨scope, gains, isChild, starts⟩ := gains_openBody machine parent bound
  have starting := opens scope _ gains isChild starts
  have opened : KeepsAt (some may) actual (.code frame outline isOpen)
      (fun _ => openBody parent bindings) machine :=
    .deed deed (.enter starting (.refl _))
  apply opened.compose
  intro inner started ran
  have edits := deed.edits machine
  obtain rfl := openBody_frame ran
  rw [ran] at starting edits
  refine ⟨_, runs _ started, ?_, ?_⟩
  · exact fun final progress => .enter starting progress
  · exact fun visit entered =>
      ⟨.executes (.refl machine) starting entered.1, edits.trans entered.2⟩

/-- Binding a name twice is an error without a place. -/
def Rebinding (names : List String) (place : Option Position) (fault : Fault) : Prop :=
  place = none ∧
    ∃ name, fault = .scope (.alreadyDefined .variableName name) ∧ 1 < names.count name

theorem bindParameters_edits (scope : Ref .scope) (items : List (String × Value))
    (machine : Machine) : machine.Edits (Action.after (bindParameters scope items machine)) := by
  induction items generalizing machine with
  | nil => exact .refl machine
  | cons item rest ih =>
    obtain ⟨name, value⟩ := item
    let definition : Scope → Except ScopeFault Scope :=
      fun scope => scope.defineVariable name { value := value, isPublic := false }
    unfold bindParameters
    cases defined : definition (machine.store.scope scope) with
    | ok changed =>
      rw [Action.bind_of_ok (Action.define_of_ok defined)]
      exact (Machine.Edits.modifyStore (.setScope _ scope changed)).trans
        (ih _)
    | error fault =>
      rw [Action.bind_of_error (Action.define_of_error defined)]
      exact .refl machine

/-- Where there are no groups, a variable can be defined unless there is one of its name. -/
theorem defineVariable_eq_error {scope : Scope} {name : String} {entry : Entry Value}
    {fault : ScopeFault} (groupless : scope.groups = [])
    (failed : scope.defineVariable name entry = .error fault) :
    fault = .alreadyDefined .variableName name ∧ name ∈ scope.bindings.map Prod.fst := by
  unfold Scope.defineVariable at failed
  split at failed
  · rename_i isDefined
    cases failed
    obtain ⟨entry, found⟩ := Option.isSome_iff_exists.mp isDefined
    exact ⟨rfl, List.mem_map_of_mem (Namespace.mem_of_lookup found)⟩
  · simp [groupless, Namespace.has] at failed

/-- In a new scope binding fails only on a name that was bound there before. -/
theorem bindParameters_raises {machine : Machine} {scope : Scope}
    {items : List (String × Value)} {failure : Failure} (gains : before.Gains scope machine)
    (groupless : scope.groups = [])
    (failed : bindParameters before.nextScope items machine = .error failure final) :
    failure.Fresh (Rebinding (scope.bindings.map Prod.fst ++ items.map Prod.fst)) := by
  induction items generalizing machine scope with
  | nil => cases failed
  | cons item rest ih =>
    obtain ⟨name, value⟩ := item
    have current : machine.store.scope before.nextScope = scope :=
      Store.scope_of_push_new gains.scopes
    let definition : Scope → Except ScopeFault Scope :=
      fun scope => scope.defineVariable name { value := value, isPublic := false }
    unfold bindParameters at failed
    cases defined : definition (machine.store.scope before.nextScope) with
    | ok changed =>
      rw [Action.bind_of_ok (Action.define_of_ok defined)] at failed
      have shape : changed =
          scope.add { bindings := [(name, { value := value, isPublic := false })] } := by
        rw [current] at defined
        exact Scope.defineVariable_eq_add defined
      have fresh :=
        ih (setScope_of_gains gains changed)
          (by simp [shape, Scope.add, groupless]) failed
      simpa [shape, Scope.add] using fresh
    | error fault =>
      rw [Action.bind_of_error (Action.define_of_error defined)] at failed
      cases failed
      rw [current] at defined
      obtain ⟨rfl, isBound⟩ := defineVariable_eq_error groupless defined
      refine ⟨rfl, rfl, name, rfl, ?_⟩
      have once := List.count_pos_iff.mpr isBound
      simp only [List.map_cons, List.count_append, List.count_cons_self]
      omega

/-- A body is opened by a deed that fails only on a name that is to be bound twice. -/
theorem openBody_deed (frame : Frame) (items : List (String × Value)) :
    Deed (Rebinding (items.map Prod.fst)) (openBody frame items) where
  edits machine := by
    have opened : machine.Edits (withInner machine frame) :=
      .modifyStore (.newScope machine.store (.child frame.scope))
    rw [openBody_eq]
    have bound := bindParameters_edits machine.nextScope items (withInner machine frame)
    exact opened.trans (bound.bind fun _ final => .refl final)
  raises machine failure final failed := by
    have gains : machine.Gains (.child frame.scope) (withInner machine frame) :=
      ⟨rfl, Nat.le_refl _⟩
    rw [openBody_eq] at failed
    cases outcome : bindParameters machine.nextScope items (withInner machine frame) with
    | ok value final =>
      rw [Action.bind_of_ok outcome] at failed
      cases failed
    | error failure final =>
      rw [Action.bind_of_error outcome] at failed
      cases failed
      exact bindParameters_raises gains rfl outcome

theorem openBody_deed_of_nodup (frame : Frame) {items : List (String × Value)}
    (nodup : (items.map Prod.fst).Nodup) : Deed may (openBody frame items) := by
  apply (openBody_deed frame items).mono
  rintro place fault ⟨-, name, -, repeated⟩
  exact absurd repeated (Nat.not_lt.mpr (List.nodup_iff_count.mp nodup name))

end Evaluator

end ArrowScript
