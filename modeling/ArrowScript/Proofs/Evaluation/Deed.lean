import ArrowScript.Proofs.Store.Edit

namespace ArrowScript

/-!
# What code does by itself

A deed is what code does without handing anything over.  It edits the store and
leaves the imports that go on alone.  If it raises an error, no call is noted on
it yet, and the place and the fault are such as the deed may raise.
-/

namespace Action

variable {α β : Type} {action : Action α} {next : α → Action β} {machine final : Machine}

theorem bind_eq_ok {result : β} : (action >>= next) machine = .ok result final ↔
      ∃ value middle, action machine = .ok value middle ∧
        next value middle = .ok result final := by
  cases outcome : action machine with
  | ok value middle => simp [bind_of_ok outcome, and_assoc]
  | error failure middle => simp [bind_of_error outcome]

theorem bind_eq_error {failure : Failure} :
    (action >>= next) machine = .error failure final ↔ action machine = .error failure final ∨
      ∃ value middle,
        action machine = .ok value middle ∧ next value middle = .error failure final := by
  cases outcome : action machine with
  | ok value middle => simp [bind_of_ok outcome, and_assoc]
  | error reason middle => simp [bind_of_error outcome]

end Action

section

variable {α β : Type} {action : Action α} {next : α → Action β} {machine : Machine}

theorem Machine.Edits.behind
    (nextEdits : ∀ value (middle : Machine), middle.Edits (Action.after (next value middle))) :
    (Action.after (action machine)).Edits (Action.after ((action >>= next) machine)) := by
  cases outcome : action machine with
  | ok value middle =>
    rw [Action.bind_of_ok outcome]
    exact nextEdits value middle
  | error failure middle =>
    rw [Action.bind_of_error outcome]
    exact .refl middle

theorem Machine.Edits.bind (edits : machine.Edits (Action.after (action machine)))
    (nextEdits : ∀ value (middle : Machine), middle.Edits (Action.after (next value middle))) :
    machine.Edits (Action.after ((action >>= next) machine)) :=
  edits.trans (behind nextEdits)

end

/-- A failure as code raises it by itself: no call is noted on an error. -/
def Failure.Fresh (may : Option Position → Fault → Prop) : Failure → Prop
  | .raised error => error.calls = [] ∧ may error.place error.fault
  | _ => True

/-- Errors that have a place. -/
def Placed (place : Option Position) (_ : Fault) : Prop :=
  place ≠ none

/-- An action that code does by itself. -/
structure Deed {α : Type} (may : Option Position → Fault → Prop)
    (action : Action α) : Prop where
  edits : ∀ machine : Machine, machine.Edits (Action.after (action machine))
  raises : ∀ machine failure final, action machine = .error failure final → failure.Fresh may

namespace Deed

variable {α β : Type} {may : Option Position → Fault → Prop} {action : Action α}

theorem mono {more : Option Position → Fault → Prop} (deed : Deed may action)
    (implied : ∀ place fault, may place fault → more place fault) : Deed more action where
  edits := deed.edits
  raises machine failure final failed := by
    have fresh := deed.raises machine failure final failed
    cases failure with
    | raised error => exact ⟨fresh.1, implied _ _ fresh.2⟩
    | _ => trivial

theorem succeed {change : Machine → Machine} {give : Machine → α}
    (ran : ∀ machine, action machine = .ok (give machine) (change machine))
    (edits : ∀ machine : Machine, machine.Edits (change machine)) : Deed may action where
  edits machine := by
    rw [ran]
    exact edits machine
  raises machine failure final failed := by
    rw [ran] at failed
    cases failed

theorem look (view : Machine → α) : Deed may (fun machine => .ok (view machine) machine) :=
  succeed (fun _ => rfl) .refl

theorem pure (value : α) : Deed may (Pure.pure value) :=
  look fun _ => value

theorem inspect (view : Store → α) : Deed may (Action.inspect view) :=
  look fun machine => view machine.store

theorem throw {failure : Failure} (fresh : failure.Fresh may) :
    Deed may (MonadExcept.throw failure : Action α) where
  edits := .refl
  raises _ _ _ failed := by
    cases failed
    exact fresh

theorem raise {place : Option Position} {fault : Fault} (allowed : may place fault) :
    Deed may (Action.raise place fault : Action α) :=
  throw ⟨rfl, allowed⟩

theorem raiseAt (token : Token) (fault : Fault) :
    Deed Placed (Action.raiseAt token fault : Action α) :=
  raise (Option.some_ne_none token.start)

theorem bind {next : α → Action β} (deed : Deed may action)
    (nextDeed : ∀ value, Deed may (next value)) : Deed may (action >>= next) where
  edits machine := (deed.edits machine).bind fun value => (nextDeed value).edits
  raises machine failure final failed := by
    rcases Action.bind_eq_error.mp failed with failed | ⟨value, middle, -, failed⟩
    · exact deed.raises machine failure final failed
    · exact (nextDeed value).raises middle failure final failed

theorem raiseAt_bind {token : Token} {fault : Fault} {next : α → Action β} :
    Deed Placed (Action.raiseAt token fault >>= next) :=
  raiseAt token fault

theorem lookUp (place : Position) (view : Store → Except ScopeFault α) :
    Deed Placed (Action.lookUp (some place) view) where
  edits machine := by
    unfold Action.lookUp
    split <;> exact .refl machine
  raises machine failure final failed := by
    unfold Action.lookUp at failed
    split at failed
    · cases failed
    · cases failed
      exact ⟨rfl, Option.some_ne_none place⟩

theorem change {update : Store → Store} (edits : ∀ store : Store, store.Edits (update store)) :
    Deed may (Action.change update) :=
  succeed (fun _ => rfl) fun machine => .modifyStore (edits machine.store)

theorem changeGet {update : Store → α × Store}
    (edits : ∀ store : Store, store.Edits (update store).2) :
      Deed may (Action.changeGet update) :=
  succeed (fun _ => rfl) fun machine => ⟨edits machine.store, rfl, rfl, Nat.le_refl _⟩

theorem changeWorld (update : World → World) : Deed may (Action.changeWorld update) :=
  succeed (fun _ => rfl) fun machine => ⟨.refl machine.store, rfl, rfl, Nat.le_refl _⟩

theorem trace (level : Nat) (line : Store → String) : Deed may (Action.trace level line) where
  edits machine := by
    unfold Action.trace
    split
    · unfold Machine.addTrace
      split <;> exact ⟨.refl machine.store, rfl, rfl, Nat.le_refl _⟩
    · exact .refl machine
  raises machine failure final failed := by
    unfold Action.trace at failed
    split at failed <;> cases failed

theorem define (place : Position) (ref : Ref .scope)
    (definition : Scope → Except ScopeFault Scope) :
    Deed Placed (Action.define (some place) ref definition) :=
  (lookUp place _).bind fun defined => change fun store => .setScope store ref defined

end Deed

namespace Evaluator

variable {may : Option Position → Fault → Prop}

theorem mergeScope_deed (frame : Frame) (place : Token) (library : Scope) :
    Deed Placed (mergeScope frame place library) := by
  have merged : Deed Placed
      (Action.changeGet fun store => (store.merge frame.scope library).swap) :=
    .changeGet fun store => .setScope store frame.scope _
  apply merged.bind
  intro fault
  cases fault with
  | none => exact .pure ()
  | some fault => exact .raiseAt place (.scope fault)

theorem newSource_deed : Deed may newSource :=
  .succeed (fun _ => rfl) fun machine => ⟨.refl machine.store, rfl, rfl, Nat.le_succ _⟩

end Evaluator

end ArrowScript
