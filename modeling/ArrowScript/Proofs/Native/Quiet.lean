import ArrowScript.Proofs.Evaluation.Visit

namespace ArrowScript

/-!
# Actions that leave scopes alone

Natives read and write the world and make arrays, but no native touches a
scope.  An action that leaves the scopes of the machine alone is quiet.  No
native looks at a scope either: an action to which the scopes make no difference
is detached from them.

A native that cannot use its arguments refuses them.  Only a replacement that
names an unknown group fails in another way, which nothing reports.
-/

/-- A store with other scopes. -/
def Store.withScopes (store : Store) (scopes : Array Scope) : Store :=
  { store with scopes := scopes }

/-- A machine with other scopes. -/
def Machine.withScopes (machine : Machine) (scopes : Array Scope) : Machine :=
  { machine with store := machine.store.withScopes scopes }

theorem Store.groupText_withScopes (store : Store) (scopes : Array Scope) (ref : Ref .group) :
    (store.withScopes scopes).groupText ref = store.groupText ref := by
  have sameName : ((store.withScopes scopes).group ref).name = (store.group ref).name := by
    simp only [Store.group, Store.withScopes, Array.getD_eq_getD_getElem?]
    cases store.groups[ref.index]? <;> rfl
  simp only [groupText, sameName]

theorem Store.textIn_withScopes (store : Store) (scopes : Array Scope) (depth : Nat) :
    (store.withScopes scopes).textIn depth = store.textIn depth := by
  induction depth with
  | zero =>
    funext around quoted value
    cases value with
    | group ref => simp only [textIn, groupText_withScopes]
    | _ => rfl
  | succ depth ih =>
    funext around quoted value
    cases value with
    | group ref => simp only [textIn, groupText_withScopes]
    | array ref =>
      simp only [textIn, ih]
      rfl
    | object ref =>
      simp only [textIn, ih]
      rfl
    | _ => rfl

theorem Store.text_withScopes (store : Store) (scopes : Array Scope) (quoted : Bool)
    (value : Value) :
    (store.withScopes scopes).text quoted value = store.text quoted value :=
  congrFun (congrFun (congrFun (store.textIn_withScopes scopes _) []) quoted) value

namespace Action

/-- How an action ends, with a change of the machine that it leaves behind. -/
def mapAfter (change : Machine → Machine) :
    EStateM.Result Failure Machine α → EStateM.Result Failure Machine α
  | .ok value machine => .ok value (change machine)
  | .error failure machine => .error failure (change machine)

@[simp]
theorem after_mapAfter (change : Machine → Machine) (result : EStateM.Result Failure Machine α) :
    after (mapAfter change result) = change (after result) := by
  cases result <;> rfl

theorem keepingContext_eq (scope : Ref .scope) (action : Action α) (machine : Machine) :
    keepingContext scope action machine =
      mapAfter (·.modifyStore (·.setContext scope (machine.store.scope scope).context))
        (action machine) := by
  unfold keepingContext
  cases action machine <;> rfl

/-- An action that leaves the scopes alone, however it ends. -/
def Quiet (action : Action α) : Prop :=
  ∀ machine : Machine, (after (action machine)).store.scopes = machine.store.scopes

namespace Quiet

variable {α β : Type}

theorem scopes_of_ok {action : Action α} {machine final : Machine} {value : α}
    (quiet : Quiet action) (ran : action machine = .ok value final) :
    final.store.scopes = machine.store.scopes := by
  have scopes := quiet machine
  rwa [ran] at scopes

theorem raiseAt (token : Token) (fault : Fault) : Quiet (Action.raiseAt token fault : Action α) :=
  fun _ => rfl

theorem look (view : Machine → α) :
    Quiet (fun machine => .ok (view machine) machine : Action α) :=
  fun _ => rfl

theorem inspect (view : Store → α) : Quiet (Action.inspect view) :=
  look fun machine => view machine.store

theorem lookUp (place : Option Position) (view : Store → Except ScopeFault α) :
    Quiet (Action.lookUp place view) := by
  intro machine
  unfold Action.lookUp
  split <;> rfl

theorem change {update : Store → Store}
    (keeps : ∀ store, (update store).scopes = store.scopes) :
    Quiet (Action.change update) :=
  fun machine => keeps machine.store

theorem changeGet {update : Store → α × Store}
    (keeps : ∀ store, (update store).2.scopes = store.scopes) : Quiet (Action.changeGet update) :=
  fun machine => keeps machine.store

theorem changeWorld (update : World → World) : Quiet (Action.changeWorld update) :=
  fun _ => rfl

theorem trace (level : Nat) (line : Store → String) : Quiet (Action.trace level line) := by
  intro machine
  unfold Action.trace
  split
  · unfold Machine.addTrace
    split <;> rfl
  · rfl

end Quiet

/-- An action to which the scopes make no difference; it leaves those behind that it finds. -/
def Detached (action : Action α) : Prop :=
  ∀ (machine : Machine) (scopes : Array Scope),
    action (machine.withScopes scopes) = mapAfter (·.withScopes scopes) (action machine)

namespace Detached

variable {α β : Type}

theorem pure (value : α) : Detached (Pure.pure value) :=
  fun _ _ => rfl

theorem throw (failure : Failure) : Detached (MonadExcept.throw failure : Action α) :=
  fun _ _ => rfl

theorem bind {action : Action α} {next : α → Action β} (detached : Detached action)
    (nextDetached : ∀ value, Detached (next value)) : Detached (action >>= next) := by
  intro machine scopes
  have first := detached machine scopes
  cases outcome : action machine with
  | ok value middle =>
    rw [outcome] at first
    rw [bind_of_ok outcome, bind_of_ok first]
    exact nextDetached value middle scopes
  | error failure middle =>
    rw [outcome] at first
    rw [bind_of_error outcome, bind_of_error first]
    rfl

theorem quiet {action : Action α} (detached : Detached action) : Quiet action := by
  intro machine
  have same : action machine = mapAfter _ (action machine) :=
    detached machine machine.store.scopes
  rw [same]
  cases action machine <;> rfl

theorem look {view : Machine → α}
    (same : ∀ machine scopes, view (machine.withScopes scopes) = view machine) :
    Detached (fun machine => .ok (view machine) machine : Action α) := by
  intro machine scopes
  simp only [same, mapAfter]

theorem inspect {view : Store → α}
    (same : ∀ store scopes, view (store.withScopes scopes) = view store) :
    Detached (Action.inspect view) :=
  look fun machine => same machine.store

theorem change {update : Store → Store}
    (same : ∀ store scopes, update (store.withScopes scopes) = (update store).withScopes scopes) :
    Detached (Action.change update) := by
  intro machine scopes
  simp only [Action.change, Machine.modifyStore, Machine.withScopes, same, mapAfter]

theorem changeGet {update : Store → α × Store} (same : ∀ store scopes,
      update (store.withScopes scopes) = ((update store).1, (update store).2.withScopes scopes)) :
    Detached (Action.changeGet update) := by
  intro machine scopes
  simp only [Action.changeGet, Machine.withScopes, same, mapAfter]

theorem changeWorld (update : World → World) : Detached (Action.changeWorld update) :=
  fun _ _ => rfl

theorem trace {line : Store → String} (level : Nat)
    (same : ∀ store scopes, line (store.withScopes scopes) = line store) :
    Detached (Action.trace level line) := by
  intro machine scopes
  have traced : line (machine.withScopes scopes).store = line machine.store :=
    same machine.store scopes
  have sameTrace : (machine.withScopes scopes).trace = machine.trace :=
    rfl
  unfold Action.trace
  rw [traced, sameTrace]
  split
  · unfold Machine.addTrace
    rw [sameTrace]
    split <;> rfl
  · rfl

end Detached

/-- The failure of a native. -/
def Refused (failure : Failure) : Prop :=
  ∃ fault, failure = .raised { place := none, fault := .native fault }

end Action

end ArrowScript
