import ArrowScript.Proofs.Evaluation.Visit
import ArrowScript.Proofs.Store.Text

namespace ArrowScript

/-!
# Actions on top of another store

An action follows another one if on top of any ground it does what the other
one does alone: it gives the same value up to references, or the same failure,
and leaves what the other one leaves behind, on the same ground.  These are the
rules for putting such actions together.
-/

/-- A machine that holds its own things behind those of the ground. -/
def Machine.on (machine : Machine) (ground : Ground) : Machine :=
  { machine with
    registry := machine.registry.on ground
    store := machine.store.on ground
    sources := ground.sources + machine.sources }

/-- How an action ends, with its value and its machine on the ground. -/
def Ground.outcome (ground : Ground) (moved : α → α) :
    EStateM.Result Failure Machine α → EStateM.Result Failure Machine α
  | .ok value machine => .ok (moved value) (machine.on ground)
  | .error failure machine => .error failure (machine.on ground)

namespace Action

/-- On the ground an action does what another one does alone. -/
def Follows (ground : Ground) (moved : α → α) (left right : Action α) : Prop :=
  ∀ machine : Machine, left (machine.on ground) = ground.outcome moved (right machine)

namespace Follows

variable {α β : Type} {ground : Ground} {moved : α → α}

theorem pure {value other : α} (same : other = moved value) :
    Follows ground moved (Pure.pure other) (Pure.pure value) := by
  subst same
  exact fun _ => rfl

theorem raise (place : Option Position) (fault : Fault) :
    Follows ground moved (Action.raise place fault) (Action.raise place fault) :=
  fun _ => rfl

theorem raiseAt (token : Token) (fault : Fault) :
    Follows ground moved (Action.raiseAt token fault) (Action.raiseAt token fault) :=
  fun _ => rfl

variable {movedNext : β → β} {left right : Action α} {leftNext rightNext : α → Action β}

theorem bind (follows : Follows ground moved left right)
    (next : ∀ value, Follows ground movedNext (leftNext (moved value)) (rightNext value)) :
    Follows ground movedNext (left >>= leftNext) (right >>= rightNext) := by
  intro machine
  have first := follows machine
  cases outcome : right machine with
  | ok value middle =>
    rw [outcome] at first
    rw [bind_of_ok outcome, bind_of_ok first]
    exact next value middle
  | error failure middle =>
    rw [outcome] at first
    rw [bind_of_error outcome, bind_of_error first]
    rfl

theorem andThen (follows : Follows ground id left right)
    (next : ∀ value, Follows ground movedNext (leftNext value) (rightNext value)) :
    Follows ground movedNext (left >>= leftNext) (right >>= rightNext) :=
  follows.bind next

theorem raiseAt_bind {token : Token} {fault : Fault} : Follows ground movedNext
      (Action.raiseAt token fault >>= leftNext) (Action.raiseAt token fault >>= rightNext) :=
  fun _ => rfl

theorem look {view viewOn : Machine → α}
    (same : ∀ machine : Machine, viewOn (machine.on ground) = moved (view machine)) :
    Follows ground moved
      (fun machine => .ok (viewOn machine) machine)
        (fun machine => .ok (view machine) machine) := by
  intro machine
  simp only [same, Ground.outcome]

theorem inspect {view viewOn : Store → α}
    (same : ∀ store : Store, viewOn (store.on ground) = moved (view store)) :
    Follows ground moved (Action.inspect viewOn) (Action.inspect view) :=
  look fun machine => same machine.store

/-- The text of a value does not show where in the store it is. -/
theorem text (quoted : Bool) (value : Value) :
    Follows ground id (Action.inspect fun store => store.text quoted (value.on ground))
      (Action.inspect fun store => store.text quoted value) :=
  inspect fun store => store.text_on quoted value

theorem change {update updateOn : Store → Store}
    (same : ∀ store : Store, updateOn (store.on ground) = (update store).on ground) :
    Follows ground id (Action.change updateOn) (Action.change update) := by
  intro machine
  simp only [Action.change, Machine.modifyStore, Machine.on, same, Ground.outcome, id]

theorem changeGet {update updateOn : Store → α × Store} (same : ∀ store : Store,
      updateOn (store.on ground) = (moved (update store).1, (update store).2.on ground)) :
    Follows ground moved (Action.changeGet updateOn) (Action.changeGet update) := by
  intro machine
  simp only [Action.changeGet, Machine.on, same, Ground.outcome]

theorem changeWorld (update : World → World) :
    Follows ground id (Action.changeWorld update) (Action.changeWorld update) :=
  fun _ => rfl

theorem lookUp {place : Option Position} {view viewOn : Store → Except ScopeFault α}
    (same : ∀ store : Store, viewOn (store.on ground) = (view store).map moved) :
    Follows ground moved (Action.lookUp place viewOn) (Action.lookUp place view) := by
  intro machine
  have seen := same machine.store
  unfold Action.lookUp
  simp only [Machine.on, seen]
  cases view machine.store <;> rfl

theorem define {place : Option Position}
    {definition definitionOn : Scope → Except ScopeFault Scope}
    (ref : Ref .scope)
    (same : ∀ scope : Scope, definitionOn (scope.on ground) =
      (definition scope).map (·.on ground)) :
    Follows ground id
      (Action.define place (ref.on ground) definitionOn) (Action.define place ref definition) := by
  have looked : Follows ground (·.on ground)
      (Action.lookUp place fun store => definitionOn (store.scope (ref.on ground)))
      (Action.lookUp place fun store => definition (store.scope ref)) := by
    apply lookUp
    intro store
    rw [Store.scope_on, same]
  exact looked.bind fun defined => change fun store => store.setScope_on ref defined

theorem trace {line lineOn : Store → String} (level : Nat)
    (same : ∀ store : Store, lineOn (store.on ground) = line store) :
    Follows ground id (Action.trace level lineOn) (Action.trace level line) := by
  intro machine
  have traced : lineOn (machine.on ground).store = line machine.store :=
    same machine.store
  have sameLevel : (machine.on ground).trace = machine.trace :=
    rfl
  unfold Action.trace
  rw [traced, sameLevel]
  split
  · unfold Machine.addTrace
    rw [sameLevel]
    split <;> rfl
  · rfl

theorem keepingContext (ref : Ref .scope) (follows : Follows ground moved left right) :
    Follows ground moved
      (Action.keepingContext (ref.on ground) left) (Action.keepingContext ref right) := by
  intro machine
  have inner := follows machine
  have saved : ((machine.on ground).store.scope (ref.on ground)).context =
      (machine.store.scope ref).context.map (·.on ground) := by
    simp only [Machine.on, Store.scope_on, Scope.on]
  have restored : ∀ (final : Machine) (context : Option Value), (final.on ground).modifyStore
        (·.setContext (ref.on ground) (context.map (·.on ground))) =
      (final.modifyStore (·.setContext ref context)).on ground := by
    intro final context
    simp only [Machine.modifyStore, Machine.on, Store.setContext_on]
  unfold Action.keepingContext
  simp only [inner, saved]
  cases right machine <;> simp only [Ground.outcome, restored]

theorem inCall (site : CallSite) (follows : Follows ground moved left right) :
    Follows ground moved (Action.inCall site left) (Action.inCall site right) := by
  intro machine
  have inner := follows machine
  unfold Action.inCall
  rw [inner]
  rcases right machine with ⟨value, final⟩ | ⟨failure, final⟩
  · rfl
  · cases failure <;> rfl

theorem reporting {left right : Action Unit} (follows : Follows ground id left right) :
    Follows ground id (Evaluator.reporting left) (Evaluator.reporting right) := by
  intro machine
  have inner := follows machine
  unfold Evaluator.reporting
  rw [inner]
  rcases right machine with ⟨value, final⟩ | ⟨failure, final⟩
  · rfl
  · cases failure <;> rfl

theorem whileImporting (path : String) (follows : Follows ground moved left right) :
    Follows ground moved
      (Evaluator.whileImporting path left) (Evaluator.whileImporting path right) := by
  intro machine
  have inner := follows { machine with importing := path :: machine.importing }
  have marked :
      ({ machine with importing := path :: machine.importing } : Machine).on ground =
        { machine.on ground with importing := path :: (machine.on ground).importing } :=
    rfl
  rw [marked] at inner
  unfold Evaluator.whileImporting
  simp only [inner]
  cases right { machine with importing := path :: machine.importing } <;> rfl

end Follows

end Action

end ArrowScript
