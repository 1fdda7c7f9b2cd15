import ArrowScript.Proofs.Evaluation.Relocated
import ArrowScript.Session

namespace ArrowScript

/-!
# Runs in a new outermost scope

Nothing that is reached from a new outermost scope leads into what was there
before.  A run there is therefore the run that an empty store would see, put on
top of what was there: it changes nothing old, and nothing old shows in it.
-/

open ArrowScript.Action

/-- Everything in a store is still there as it was; what is new lies behind it. -/
structure Store.Within (before after : Store) : Prop where
  arrays : before.arrays.toList <+: after.arrays.toList
  objects : before.objects.toList <+: after.objects.toList
  functions : before.functions.toList <+: after.functions.toList
  groups : before.groups.toList <+: after.groups.toList
  scopes : before.scopes.toList <+: after.scopes.toList
  integers : before.integers.toList <+: after.integers.toList

theorem Store.within_on (ground : Ground) (store : Store) :
    ground.store.Within (store.on ground) := by
  constructor <;> simp [Store.on]

/-- What a machine holds already. -/
def Machine.ground (machine : Machine) : Ground :=
  ⟨machine.store, machine.sources⟩

/-- A machine that holds nothing yet. -/
def Machine.cleared (machine : Machine) : Machine :=
  { machine with
    store := .empty
    sources := 0 }

/-- A machine with the natives of the language holds what it holds on top of nothing. -/
theorem Machine.cleared_on {machine : Machine} (isStandard : machine.registry = .standard) :
    machine.cleared.on machine.ground = machine := by
  have sameStore : Store.empty.on machine.ground = machine.store := by
    simp [Store.on, Store.empty, ground]
  simp only [on, cleared, sameStore, isStandard, Registry.standard_on]
  simp [ground, ← isStandard]

/-- What a task gives, on the ground. -/
def Task.moved (ground : Ground) : (task : Task) → task.Result → task.Result
  | .evaluate _ => fun value => value.on ground
  | .execute _ => fun completion => completion.on ground

/-- A visit as it is above a ground. -/
def Visit.on (visit : Visit) (ground : Ground) : Visit :=
  ⟨visit.frame.on ground, visit.task, visit.machine.on ground⟩

variable {α : Type} {ground : Ground}

theorem Action.after_outcome (moved : α → α) (result : EStateM.Result Failure Machine α) :
    after (ground.outcome moved result) = (after result).on ground := by
  cases result <;> rfl

theorem Action.Follows.within {moved : α → α} {left right : Action α}
    (follows : Action.Follows ground moved left right) (machine : Machine) :
    ground.store.Within (after (left (machine.on ground))).store := by
  rw [follows machine, after_outcome]
  exact Store.within_on ground _

namespace Evaluator

variable {left right : Evaluator}

theorem perform_follows (follows : left.Follows ground right) (frame : Frame) (task : Task) :
    Action.Follows ground (task.moved ground)
      (left.perform (frame.on ground) task) (right.perform frame task) := by
  cases task with
  | evaluate expr => exact follows.evaluate frame expr
  | execute stmt => exact follows.execute frame stmt

theorem step_follows (follows : left.Follows ground right) (frame : Frame) (task : Task) :
    Action.Follows ground (task.moved ground)
      (left.step (frame.on ground) task) (right.step frame task) := by
  cases task with
  | evaluate expr => exact evaluateExpression_follows follows frame expr
  | execute stmt => exact executeStatement_follows follows frame stmt

/-- How an evaluator answers off the ground does not matter. -/
theorem Follows.of_answers {other : Evaluator} (follows : left.Follows ground right)
    (sameRounds : other.rounds = left.rounds)
    (same : ∀ visit : Visit, other.answer (visit.on ground) = left.answer (visit.on ground)) :
    other.Follows ground right where
  rounds := sameRounds.trans follows.rounds
  evaluate frame expr machine :=
    (same ⟨frame, .evaluate expr, machine⟩).trans (follows.evaluate frame expr machine)
  execute frame stmt machine :=
    (same ⟨frame, .execute stmt, machine⟩).trans (follows.execute frame stmt machine)

end Evaluator

section

variable {moved : α → α} {code alone : Evaluator → Action α} {machine : Machine}
    {visit : Visit}

/-- Code on the ground hands over tasks on the ground only. -/
theorem Calls.exists_on {left right : Evaluator} {action : Action α}
    (shifts : ∀ other : Evaluator, other.Follows ground right →
      Action.Follows ground moved (code other) action)
    (follows : left.Follows ground right) (calls : Calls left code (machine.on ground) visit) :
    ∃ inner : Visit, visit = inner.on ground := by
  by_contra outside
  obtain ⟨other, sameRounds, elsewhere, differs⟩ := calls
  -- The other answer is given off the ground, so the code never asks for it.
  have otherFollows : other.Follows ground right := by
    apply follows.of_answers sameRounds
    intro inner
    exact elsewhere _ fun same => outside ⟨inner, same.symm⟩
  exact differs ((shifts other otherFollows machine).trans (shifts left follows machine).symm)

theorem Visited.exists_on {depth level : Nat}
    (shifts : ∀ left right : Evaluator, left.Follows ground right →
      Action.Follows ground moved (code left) (alone right))
    (visited : Visited depth code (machine.on ground) level visit) :
    ∃ inner : Visit, visit = inner.on ground := by
  induction visited with
  | first calls =>
    exact calls.exists_on (fun other => shifts other _) (evaluator_follows ground depth)
  | @next level outer inner _ calls ih =>
    obtain ⟨⟨frame, task, moment⟩, rfl⟩ := ih
    have stepped :
        Calls (evaluator level) (·.step (frame.on ground) task) (moment.on ground) inner :=
      calls
    exact stepped.exists_on
      (fun _ follows => Evaluator.step_follows follows frame task)
      (evaluator_follows ground level)

/-- Nothing on the ground changes up to a visit, nor while its task is done. -/
theorem Visited.within {depth level : Nat}
    (shifts : ∀ left right : Evaluator, left.Follows ground right →
      Action.Follows ground moved (code left) (alone right))
    (visited : Visited depth code (machine.on ground) level visit) :
    ground.store.Within visit.machine.store ∧
      ground.store.Within (after ((evaluator level).answer visit)).store := by
  obtain ⟨⟨frame, task, moment⟩, rfl⟩ := visited.exists_on shifts
  have performed := Evaluator.perform_follows (evaluator_follows ground level) frame task
  exact ⟨Store.within_on ground _, performed.within moment⟩

end

/-- A new outermost scope is the first scope of an empty store, on the ground. -/
theorem Session.newRoot_on_ground {machine opened : Machine} {imported : Ref .scope}
    (isStandard : machine.registry = .standard) (created : newRoot machine = .ok imported opened) :
    ∃ root started, newRoot machine.cleared = .ok root started ∧
      imported = root.on machine.ground ∧ opened = started.on machine.ground := by
  refine ⟨_, _, rfl, ?_⟩
  have onGround : newRoot (machine.cleared.on machine.ground) =
      machine.ground.outcome (·.on machine.ground) (newRoot machine.cleared) :=
    Evaluator.newRoot_follows machine.cleared
  rw [Machine.cleared_on isStandard, created] at onGround
  exact EStateM.Result.ok.inj onGround

/--
While a source runs in a new outermost scope, whatever the machine held before
stays as it is.  The run ends as it would end on a machine that holds nothing:
with the same result and the same effects on the world, and with the same
bindings in the new scope up to where in the store they lie.
-/
theorem Session.run_in_new_root_isolated
    {machine opened : Machine}
    {imported : Ref .scope}
    (isStandard : machine.registry = .standard)
    (created : newRoot machine = .ok imported opened)
    (depth : Nat)
    (text : String) :
    (∀ level visit,
      Visited depth (·.runSource imported text) opened level visit →
      machine.store.Within visit.machine.store ∧
        machine.store.Within (after ((evaluator level).answer visit)).store) ∧
    machine.store.Within (after (run depth imported text opened)).store ∧
    ∃ root started,
      newRoot machine.cleared = .ok root started ∧
        run depth imported text opened =
          machine.ground.outcome id (run depth root text started) ∧
        (after (run depth imported text opened)).world =
          (after (run depth root text started)).world ∧
        (after (run depth imported text opened)).store.scope imported =
          ((after (run depth root text started)).store.scope root).on machine.ground := by
  obtain ⟨root, started, createdAlone, rfl, rfl⟩ := newRoot_on_ground isStandard created
  have shifts : ∀ left right : Evaluator, left.Follows machine.ground right →
      Action.Follows machine.ground id
        (left.runSource (root.on machine.ground) text) (right.runSource root text) :=
    fun _ _ follows => Evaluator.runSource_follows follows root text
  have runs : Action.Follows machine.ground id
      (run depth (root.on machine.ground) text) (run depth root text) :=
    shifts _ _ (evaluator_follows machine.ground depth)
  have ran := runs started
  refine ⟨?_, runs.within started, root, started, createdAlone, ran, ?_, ?_⟩
  · exact fun level visit visited => visited.within shifts
  · rw [ran, after_outcome]
    rfl
  · rw [ran, after_outcome]
    exact Store.scope_on _ root

/-- Beside an array that a variable holds, a variable of that name holds a new array. -/
theorem Session.run_in_new_root_isolated_beside_array :
    let outer : Scope :=
      { Scope.root with bindings := [("shared", { value := .array ⟨0⟩, isPublic := true })] }
    let machine : Machine :=
      { store := { arrays := #[#[.text "old"]], scopes := #[outer] }, sources := 1 }
    let opened := after (newRoot machine)
    let final := after (run 8 ⟨1⟩ "[\"new\"] -> var shared" opened)
    machine.registry = .standard ∧
      newRoot machine = .ok ⟨1⟩ opened ∧
      machine.store.Within final.store ∧
      final.store.arrays = #[#[.text "old"], #[.text "new"]] ∧
      ((final.store.scope ⟨1⟩).bindings.lookup "shared").map Entry.value =
        some (.array ⟨1⟩) := by
  intro outer machine opened final
  have created : newRoot machine = .ok ⟨1⟩ opened := rfl
  refine ⟨rfl, created, ?_, ?_, ?_⟩
  · exact (run_in_new_root_isolated rfl created 8 _).2.1
  · decide +kernel
  · decide +kernel

end ArrowScript
