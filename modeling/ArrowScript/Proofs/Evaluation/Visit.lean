import ArrowScript.Evaluation.Statement

namespace ArrowScript

/-!
# The moments of a run

Code reaches what is nested inside it only through its evaluator.  A visit is
one such moment: a task handed to the evaluator, with the frame it runs in and
the machine at that moment.

`Calls` says that code hands over a task at a visit.  It does not look at how
the code is written: its outcome depends on the answer given there.  A run goes
on inside every task that was handed over, which gives the visits of the whole
run.
-/

variable {failure : Failure}

/-- What an evaluator can be asked to do. -/
inductive Task
  | evaluate (expression : Expr)
  | execute (statement : Stmt)

/-- What a task gives. -/
abbrev Task.Result : Task → Type
  | .evaluate _ => Value
  | .execute _ => Completion

/-- A task that starts in a frame at a moment. -/
structure Visit where
  frame : Frame
  task : Task
  machine : Machine

/-- Do a task in a frame. -/
def Evaluator.perform (evaluator : Evaluator) (frame : Frame) : (task : Task) → Action task.Result
  | .evaluate expr => evaluator.evaluate frame expr
  | .execute stmt => evaluator.execute frame stmt

/-- Do a task, leaving what is nested inside it to an evaluator. -/
def Evaluator.step (evaluator : Evaluator) (frame : Frame) : (task : Task) → Action task.Result
  | .evaluate expr => evaluator.evaluateExpression frame expr
  | .execute stmt => evaluator.executeStatement frame stmt

/-- What a visit comes to. -/
def Evaluator.answer (evaluator : Evaluator)
    (visit : Visit) : EStateM.Result Failure Machine visit.task.Result :=
  evaluator.perform visit.frame visit.task visit.machine

theorem evaluator_succ_perform (depth : Nat) (frame : Frame) (task : Task) :
    (evaluator (depth + 1)).perform frame task = (evaluator depth).step frame task := by
  cases task <;> rfl

namespace Action

/-- The machine behind an action, however the action ends. -/
def after : EStateM.Result Failure Machine α → Machine
  | .ok _ machine => machine
  | .error _ machine => machine

def failure? : EStateM.Result Failure Machine α → Option Failure
  | .ok _ _ => none
  | .error failure _ => some failure

theorem exists_of_failure? :
    {result : EStateM.Result Failure Machine α} → failure? result = some failure →
      ∃ final, result = .error failure final
  | .error _ final, rfl => ⟨final, rfl⟩

variable {α β : Type} {action : Action α} {next : α → Action β} {machine middle : Machine}

theorem bind_of_ok {value : α} (ran : action machine = .ok value middle) :
    (action >>= next) machine = next value middle := by
  simp only [Bind.bind, EStateM.bind, ran]

theorem bind_of_error (failed : action machine = .error failure middle) :
    (action >>= next) machine = .error failure middle := by
  simp only [Bind.bind, EStateM.bind, failed]

end Action

/--
Code hands over a task at a visit: a different answer at this visit alone can
change how the code ends.
-/
def Calls (evaluator : Evaluator) (code : Evaluator → Action α) (machine : Machine)
    (visit : Visit) : Prop :=
  ∃ other : Evaluator,
    other.rounds = evaluator.rounds ∧
      (∀ elsewhere, elsewhere ≠ visit →
        other.answer elsewhere = evaluator.answer elsewhere) ∧
      code other machine ≠ code evaluator machine

namespace Evaluator

open Classical in
/-- An evaluator that fails at a visit and goes on as before elsewhere. -/
noncomputable def failingAt (evaluator : Evaluator) (visit : Visit)
    (failure : Failure) : Evaluator where
  rounds := evaluator.rounds
  evaluate frame expr machine :=
    if (⟨frame, .evaluate expr, machine⟩ : Visit) = visit then .error failure machine
    else evaluator.evaluate frame expr machine
  execute frame stmt machine :=
    if (⟨frame, .execute stmt, machine⟩ : Visit) = visit then .error failure machine
    else evaluator.execute frame stmt machine

theorem failingAt_perform (evaluator : Evaluator) (frame : Frame) (task : Task) (machine : Machine)
    (failure : Failure) :
    (evaluator.failingAt ⟨frame, task, machine⟩ failure).perform frame task machine =
      .error failure machine := by
  cases task <;> exact if_pos rfl

theorem failingAt_answer_other (evaluator : Evaluator) {visit elsewhere : Visit}
    (different : elsewhere ≠ visit) (failure : Failure) :
    (evaluator.failingAt visit failure).answer elsewhere = evaluator.answer elsewhere := by
  obtain ⟨frame, task, machine⟩ := elsewhere
  cases task <;> exact if_neg different

end Evaluator

/-- A failure that is not an error of the script, so that nothing reports it. -/
def Failure.IsHard (failure : Failure) : Prop :=
  ∀ error, failure ≠ .raised error

theorem Failure.IsHard.inCall (isHard : failure.IsHard)
    (site : CallSite) (machine middle : Machine) :
    ∃ final, Action.inCall site (fun _ => .error failure middle : Action α) machine =
      .error failure final := by
  cases failure with
  | raised error => exact (isHard error rfl).elim
  | _ => exact ⟨_, rfl⟩

variable {machine : Machine}

/-- Code that fails hard as its evaluator does at a visit hands over a task there. -/
theorem Calls.of_failures {evaluator : Evaluator} {code : Evaluator → Action α}
    {visit : Visit} (final : Machine) (fails : ∀ failure : Failure, failure.IsHard →
      code (evaluator.failingAt visit failure) machine = .error failure final) :
    Calls evaluator code machine visit := by
  by_cases same : code evaluator machine = .error .exhausted final
  · refine ⟨evaluator.failingAt visit .unexpectedNode, rfl, ?_, ?_⟩
    · exact fun elsewhere different => evaluator.failingAt_answer_other different _
    · rw [fails _ (by simp [Failure.IsHard]), same]
      simp
  · refine ⟨evaluator.failingAt visit .exhausted, rfl, ?_, ?_⟩
    · exact fun elsewhere different => evaluator.failingAt_answer_other different _
    · rw [fails _ (by simp [Failure.IsHard])]
      exact Ne.symm same

section

variable (evaluator : Evaluator) (frame : Frame)

theorem Evaluator.interpret_failingAt (stmt : Stmt)
    (rest : List Stmt) (silent : machine.trace.level = 0)
    (isHard : failure.IsHard) :
    (evaluator.failingAt ⟨frame, .execute stmt, machine⟩ failure).interpret frame
      (stmt :: rest) machine = .error failure machine := by
  have failed := evaluator.failingAt_perform frame (.execute stmt) machine failure
  generalize evaluator.failingAt ⟨frame, .execute stmt, machine⟩ failure = failing at failed ⊢
  have ran : failing.executeProgram frame (stmt :: rest) machine = .error failure machine :=
    Action.bind_of_error failed
  have reported : reporting (failing.executeProgram frame (stmt :: rest)) machine =
      .error failure machine := by
    unfold reporting
    rw [ran]
    cases failure with
    | raised error => exact (isHard error rfl).elim
    | _ => rfl
  unfold interpret
  have untraced : ¬ 1 ≤ machine.trace.level := by
    omega
  rw [Action.bind_of_ok (if_neg untraced)]
  exact Action.bind_of_error reported

theorem calls_interpret (stmt : Stmt)
    (rest : List Stmt) (silent : machine.trace.level = 0) :
    Calls evaluator (·.interpret frame (stmt :: rest)) machine
      ⟨frame, .execute stmt, machine⟩ := by
  apply Calls.of_failures machine
  intro failure isHard
  exact evaluator.interpret_failingAt frame stmt rest silent isHard

theorem calls_perform (task : Task) (machine : Machine) :
    Calls evaluator (·.perform frame task) machine ⟨frame, task, machine⟩ := by
  apply Calls.of_failures machine
  intro failure _
  exact evaluator.failingAt_perform frame task machine failure

theorem calls_perform_bind (task : Task)
    (machine : Machine) (next : Evaluator → task.Result → Action β) :
    Calls evaluator (fun each => each.perform frame task >>= next each) machine
      ⟨frame, task, machine⟩ := by
  apply Calls.of_failures machine
  intro failure _
  exact Action.bind_of_error (evaluator.failingAt_perform frame task machine failure)

theorem calls_block (opening closing : Token)
    (stmt : Stmt) (rest : List Stmt) {started : Machine}
    (isStarted : started = machine.modifyStore fun store =>
      (store.newScope (.child frame.scope)).2) :
    Calls evaluator
      (·.step frame (.execute (.expression (.block ⟨opening, stmt :: rest, closing⟩)))) machine
      ⟨⟨⟨machine.store.scopes.size⟩, frame.source⟩, .execute stmt, started⟩ := by
  apply Calls.of_failures started
  intro failure _
  have failed :=
    evaluator.failingAt_perform ⟨⟨machine.store.scopes.size⟩, frame.source⟩ (.execute stmt)
      started failure
  have opened : Evaluator.innerFrame frame machine =
      .ok ⟨⟨machine.store.scopes.size⟩, frame.source⟩ started := by
    rw [isStarted]
    rfl
  exact (Action.bind_of_ok opened).trans (Action.bind_of_error failed)

theorem calls_each (evaluator : Evaluator) {frame inner : Frame}
    {keyword item opening closing : Token} {collection : Expr} {stmt : Stmt} {rest : List Stmt}
    {values first : Value} {others : List Value} {opened bound : Machine}
    (evaluated : evaluator.evaluate frame collection machine = .ok values machine)
    (elements : Evaluator.elementsOf item values machine = .ok (first :: others) machine)
    (opens : Evaluator.innerFrame frame machine = .ok inner opened)
    (binds : Evaluator.bindParameters inner.scope [(item.lexeme, first)] opened = .ok () bound) :
    Calls evaluator
      (·.step frame
        (.execute (.each keyword item collection ⟨opening, stmt :: rest, closing⟩)))
      machine ⟨inner, .execute stmt, bound⟩ := by
  apply Calls.of_failures bound
  intro failure _
  have failed := evaluator.failingAt_perform inner (.execute stmt) bound failure
  have different :
      (⟨frame, .evaluate collection, machine⟩ : Visit) ≠
        ⟨inner, .execute stmt, bound⟩ := by
    simp
  have same := evaluator.failingAt_answer_other different failure
  generalize evaluator.failingAt ⟨inner, .execute stmt, bound⟩ failure = failing
    at failed same ⊢
  have evaluatedAlike : failing.evaluate frame collection machine = .ok values machine :=
    same.trans evaluated
  have round : failing.executeEach frame item ⟨opening, stmt :: rest, closing⟩ .nothing
      (first :: others) machine = .error failure bound := by
    unfold Evaluator.executeEach
    rw [Action.bind_of_ok opens, Action.bind_of_ok binds]
    exact Action.bind_of_error (Action.bind_of_error failed)
  show (failing.evaluate frame collection >>= _) machine = _
  rw [Action.bind_of_ok evaluatedAlike, Action.bind_of_ok elements]
  exact Action.bind_of_error round

end

/--
The visits of a run of code whose evaluations may be nested `depth` times; a
visit at a level may nest as many more.
-/
inductive Visited {α : Type} (depth : Nat) (code : Evaluator → Action α) (machine : Machine) :
    Nat → Visit → Prop
  | first {visit : Visit} : Calls (evaluator depth) code machine visit →
      Visited depth code machine depth visit
  | next {level : Nat} {outer inner : Visit} : Visited depth code machine (level + 1) outer →
      Calls (evaluator level) (·.step outer.frame outer.task) outer.machine inner →
      Visited depth code machine level inner

end ArrowScript
