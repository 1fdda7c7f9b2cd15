import ArrowScript.Proofs.Evaluation.Faithful
import ArrowScript.Session

namespace ArrowScript

/-!
# The calls that an error names

An error is raised by some code, and it passes through every task inside which
that code runs.  `Arises` says where an error comes from, and lists the calls
inside whose callees it was raised, the outermost first.  A call is listed when
the error comes from its callee, not when it comes from an argument, from
looking for the callee or from the check of the number of arguments.

An error of a task names exactly these calls.
-/

/-- A callee that starts: the site of its call, the function, its arguments and the machine then. -/
structure Callee where
  site : CallSite
  function : Function
  arguments : List Value
  machine : Machine

/-- The call with its arguments. -/
def Callee.code (callee : Callee) (evaluator : Evaluator) : Action Value :=
  evaluator.callFunction callee.function callee.arguments

namespace Visit

/-- What a task does until a callee of its own starts: everything, unless it is a call. -/
def front (visit : Visit) (evaluator : Evaluator) : Action Unit :=
  match visit.task with
  | .evaluate (.call callee args) =>
    evaluator.prepareCall visit.frame callee args >>= fun _ => pure ()
  | task => evaluator.step visit.frame task >>= fun _ => pure ()

/-- A task is a call that gets to start a callee. -/
def Starts (visit : Visit) (level : Nat) (callee : Callee) : Prop :=
  ∃ called args name,
    visit.task = .evaluate (.call called args) ∧
      (evaluator level).prepareCall visit.frame called args visit.machine =
        .ok (callee.function, name, callee.arguments) callee.machine ∧
      callee.site = ⟨name.lexeme, name.start⟩

/--
A task hands over another one before a callee of its own starts.  The tasks of
an import belong to the program of the file, which reports its own errors.
-/
def Hands (visit : Visit) (level : Nat) (inner : Visit) : Prop :=
  (∀ keyword path, visit.task ≠ .execute (.use keyword path)) ∧
    Calls (evaluator level) visit.front visit.machine inner

/-- A visit ends in an error at a level. -/
def Fails (visit : Visit) (level : Nat) (error : RuntimeError) : Prop :=
  ∃ final, (evaluator level).answer visit = .error (.raised error) final

end Visit

/--
An error arises in a task: it is raised with a fault and perhaps a place, inside
the callees of the listed calls.  Unless the code of a task raises it, a function
does so by itself.
-/
inductive Arises :
    Nat → Visit → List CallSite → Option Function → Option Position → Fault → Prop
  /-- The task itself raises the error, none of the tasks that it handed over has. -/
  | itself {level : Nat} {visit : Visit} {place : Option Position} {fault : Fault} : (∃ final,
        visit.front (evaluator level) visit.machine =
          .error (.raised ⟨[], place, fault⟩) final) →
      (∀ inner error, visit.Hands level inner → ¬ inner.Fails level error) →
      Arises (level + 1) visit [] none place fault
  /-- The error arises in a task that is handed over before a callee starts. -/
  | handed
      {level : Nat}
      {visit inner : Visit}
      {calls : List CallSite}
      {raiser : Option Function}
      {place : Option Position}
      {fault : Fault} :
      visit.Hands level inner →
      Arises level inner calls raiser place fault →
      Arises (level + 1) visit calls raiser place fault
  /-- The callee itself raises the error. -/
  | callee
      {level : Nat}
      {visit : Visit}
      {callee : Callee}
      {place : Option Position}
      {fault : Fault} :
      visit.Starts level callee → (∃ final,
        callee.code (evaluator level) callee.machine =
          .error (.raised ⟨[], place, fault⟩) final) →
      (∀ inner error, Calls (evaluator level) callee.code callee.machine inner →
        ¬ inner.Fails level error) →
      Arises (level + 1) visit [callee.site] (some callee.function) place fault
  /-- The error arises in a task that the callee hands over. -/
  | insideCallee
      {level : Nat}
      {visit inner : Visit}
      {callee : Callee}
      {calls : List CallSite}
      {raiser : Option Function}
      {place : Option Position}
      {fault : Fault} :
      visit.Starts level callee → Calls (evaluator level) callee.code callee.machine inner →
      Arises level inner calls raiser place fault →
      Arises (level + 1) visit (callee.site :: calls) raiser place fault

/-- Code that fails with an error either raises it by itself or passes on the error of a task. -/
structure Blames {α : Type} (may : Option Position → Fault → Prop) (level : Nat)
    (code : Evaluator → Action α) (hands : Visit → Prop) (machine : Machine) : Prop where
  passes : ∀ inner error, hands inner → inner.Fails level error →
    ∃ final, code (evaluator level) machine = .error (.raised error) final
  raises : ∀ error final, code (evaluator level) machine = .error (.raised error) final →
    (error.calls = [] ∧ may error.place error.fault ∧
        ∀ inner other, hands inner → ¬ inner.Fails level other) ∨
      ∃ inner, hands inner ∧ inner.Fails level error

variable {α : Type} {may : Option Position → Fault → Prop} {level : Nat}
    {machine final : Machine}
  {error : RuntimeError} {visit : Visit}

theorem KeepsAt.blames {contract : Contract} {code : Evaluator → Action α}
    (keeps : KeepsAt (some may) (evaluator level) contract code machine) :
    Blames may level code (Calls (evaluator level) code machine) machine := by
  obtain ⟨visits, course⟩ := keeps
  have passes : ∀ inner error, Calls (evaluator level) code machine inner →
      inner.Fails level error →
      ∃ final, code (evaluator level) machine = .error (.raised error) final := by
    rintro inner error calls ⟨middle, failed⟩
    exact course.passes rfl inner (course.attends.mem_of_calls calls) _ middle failed
  refine ⟨passes, ?_⟩
  intro error final failed
  by_cases handed : ∃ inner other, Calls (evaluator level) code machine inner ∧
    inner.Fails level other
  · obtain ⟨inner, other, calls, fails⟩ := handed
    obtain ⟨final, passed⟩ := passes inner other calls fails
    rw [failed] at passed
    cases passed
    exact .inr ⟨inner, calls, fails⟩
  · have unhanded :
        ∀ inner other, Calls (evaluator level) code machine inner →
          ¬ inner.Fails level other :=
      fun inner other calls fails => handed ⟨inner, other, calls, fails⟩
    rcases course.raises may rfl _ final failed with
      ⟨fresh, allowed⟩ | ⟨inner, mem, middle, answered⟩
    · exact .inl ⟨fresh, allowed, unhanded⟩
    · have calls := course.attends.calls_of_mem mem
      exact (unhanded inner error calls ⟨middle, answered⟩).elim

theorem Visit.Starts.blames {callee : Callee} (starts : visit.Starts level callee) :
    Blames (Evaluator.calleeRaises callee.function) level callee.code
      (Calls (evaluator level) callee.code callee.machine) callee.machine := by
  obtain ⟨called, args, name, -, prepared, -⟩ := starts
  have keeps : KeepsAt (some (Evaluator.calleeRaises callee.function)) (evaluator level)
      (.code visit.frame [] false) callee.code callee.machine :=
    Evaluator.callFunction_keeps (evaluator_steady level) (Evaluator.stored_of_prepareCall prepared)
  exact keeps.blames

theorem Failure.IsHard.fresh {failure : Failure} (isHard : failure.IsHard) : failure.Fresh may := by
  cases failure with
  | raised error => exact (isHard error rfl).elim
  | _ => trivial

namespace Evaluator

variable {evaluator : Evaluator} {frame : Frame} {machine final : Machine} {failure : Failure}

theorem trace_ne_error (level : Nat) (line : Store → String) :
    Action.trace level line machine ≠ .error failure final := by
  unfold Action.trace
  split <;> simp

theorem reporting_isHard {action : Action Unit}
    (failed : reporting action machine = .error failure final) : failure.IsHard := by
  unfold reporting at failed
  split at failed
  · cases failed
  · cases failed
  · rename_i notRaised _
    cases failed
    exact notRaised

/-- A program reports its errors, so none leaves it. -/
theorem interpret_isHard {stmts : List Stmt}
    (failed : evaluator.interpret frame stmts machine = .error failure final) :
    failure.IsHard := by
  rcases Action.bind_eq_error.mp failed with failed | ⟨_, _, -, failed⟩
  · exact (trace_ne_error _ _ failed).elim
  rcases Action.bind_eq_error.mp failed with failed | ⟨_, _, -, failed⟩
  · exact reporting_isHard failed
  rcases Action.bind_eq_error.mp failed with failed | ⟨_, _, -, failed⟩
  · exact (trace_ne_error _ _ failed).elim
  · cases failed

theorem runNumbered_isHard {text : String}
    (failed : evaluator.runNumbered frame text machine = .error failure final) :
    failure.IsHard := by
  rcases Action.bind_eq_error.mp failed with failed | ⟨_, _, -, failed⟩
  · cases failed
  split at failed
  · rcases Action.bind_eq_error.mp failed with failed | ⟨_, _, -, failed⟩
    · exact interpret_isHard failed
    · cases failed
  · cases failed

theorem loadFile_isHard {path text : String}
    (failed : evaluator.loadFile path text machine = .error failure final) : failure.IsHard := by
  rw [loadFile_eq] at failed
  split at failed
  · cases failed
  · rename_i outcome
    cases failed
    exact runNumbered_isHard outcome

/-- Whatever the program of a file does, an import raises errors of its own only. -/
theorem use_fresh {path : Token}
    (failed : evaluator.use frame path machine = .error failure final) : failure.Fresh Placed := by
  rw [use_eq] at failed
  split at failed
  · exact ((Deed.trace _ _).bind fun _ => mergeScope_deed frame path _).raises _ _ _ failed
  rw [useFile_eq] at failed
  rcases Action.bind_eq_error.mp failed with failed | ⟨_, _, -, failed⟩
  · exact (findFile_deed path path.textValue).raises _ _ _ failed
  rcases Action.bind_eq_error.mp failed with failed | ⟨_, _, -, failed⟩
  · exact (loadFile_isHard failed).fresh
  · exact (adoptLoaded_deed frame path path.textValue _).raises _ _ _ failed

end Evaluator

theorem error_of_discarded {action : Action α} {value : β} {failure : Failure}
    (failed : (action >>= fun _ => pure value) machine = .error failure final) :
    action machine = .error failure final := by
  rcases Action.bind_eq_error.mp failed with failed | ⟨_, _, -, impossible⟩
  · exact failed
  · cases impossible

theorem error_of_inCall {site : CallSite} {action : Action α}
    (failed : Action.inCall site action machine = .error (.raised error) final) :
    ∃ raised, action machine = .error (.raised raised) final ∧
      error = { raised with calls := site :: raised.calls } := by
  unfold Action.inCall at failed
  split at failed
  · cases failed
  · rename_i raised middle outcome
    cases failed
    exact ⟨raised, outcome, rfl⟩
  · rename_i notRaised _
    cases failed
    exact (notRaised error rfl).elim

namespace Visit

variable {visit : Visit} {level : Nat}

theorem front_of_not_call
    (notCall : ∀ callee args, visit.task ≠ .evaluate (.call callee args))
    (evaluator : Evaluator) :
    visit.front evaluator = evaluator.step visit.frame visit.task >>= fun _ => pure () := by
  unfold front
  split
  · rename_i isCall
    exact (notCall _ _ isCall).elim
  · rfl

theorem front_of_call {callee : Expr} {args : List Expr}
    (isCall : visit.task = .evaluate (.call callee args)) (evaluator : Evaluator) :
    visit.front evaluator = evaluator.prepareCall visit.frame callee args >>= fun _ => pure () := by
  unfold front
  rw [isCall]

theorem front_keeps (notUse : ∀ keyword path, visit.task ≠ .execute (.use keyword path)) :
    Keeps (some Placed) (evaluator level) (.code visit.frame visit.task.outline false)
      visit.front := by
  have steady := evaluator_steady level
  by_cases isPlain : visit.task.IsPlain
  · have notCall : ∀ callee args, visit.task ≠ .evaluate (.call callee args) := by
      intro callee args isCall
      rw [isCall] at isPlain
      exact isPlain
    rw [funext (front_of_not_call notCall)]
    exact (Evaluator.plainStep_keeps steady visit.frame isPlain).bind fun _ => .pure ()
  · rcases visit.task.call_or_use_of_not_isPlain isPlain with
      ⟨callee, args, isCall⟩ | ⟨keyword, path, isUse⟩
    · rw [funext (front_of_call isCall), isCall]
      exact (Evaluator.prepareCall_keeps steady (fits_of_outline (List.Subset.refl _))).bind
        fun _ => .pure ()
    · exact (notUse keyword path isUse).elim

theorem front_blames (visit : Visit) (level : Nat) :
    Blames Placed level visit.front (visit.Hands level) visit.machine := by
  by_cases isUse : ∃ keyword path, visit.task = .execute (.use keyword path)
  · obtain ⟨keyword, path, isUse⟩ := isUse
    have handsNothing : ∀ inner, ¬ visit.Hands level inner :=
      fun inner hands => hands.1 keyword path isUse
    refine ⟨fun inner error hands => (handsNothing inner hands).elim, ?_⟩
    intro error final failed
    have notCall : ∀ callee args, visit.task ≠ .evaluate (.call callee args) := by
      simp [isUse]
    rw [front_of_not_call notCall] at failed
    have stepped := error_of_discarded failed
    rw [isUse] at stepped
    have used : (evaluator level).use visit.frame path visit.machine =
        .error (.raised error) final :=
      error_of_discarded stepped
    obtain ⟨fresh, placed⟩ := Evaluator.use_fresh used
    exact .inl ⟨fresh, placed, fun inner other hands => (handsNothing inner hands).elim⟩
  · have notUse : ∀ keyword path, visit.task ≠ .execute (.use keyword path) :=
      fun keyword path same => isUse ⟨keyword, path, same⟩
    have blames := (front_keeps notUse visit.machine : KeepsAt _ (evaluator level) _ _ _).blames
    have same : Calls (evaluator level) visit.front visit.machine = visit.Hands level := by
      funext inner
      exact propext ⟨fun calls => ⟨notUse, calls⟩, fun hands => hands.2⟩
    rwa [same] at blames

variable {error : RuntimeError}

theorem fails_succ : visit.Fails (level + 1) error ↔ ∃ final,
      (evaluator level).step visit.frame visit.task visit.machine =
        .error (.raised error) final := by
  unfold Fails Evaluator.answer
  rw [evaluator_succ_perform]

theorem fails_succ_of_call {callee : Expr} {args : List Expr}
    (isCall : visit.task = .evaluate (.call callee args)) :
    visit.Fails (level + 1) error ↔ ∃ final,
      (evaluator level).evaluateCall visit.frame callee args visit.machine =
        .error (.raised error) final := by
  obtain ⟨frame, task, machine⟩ := visit
  subst isCall
  exact fails_succ

theorem fails_of_front {final : Machine}
    (failed : visit.front (evaluator level) visit.machine = .error (.raised error) final) :
    visit.Fails (level + 1) error := by
  by_cases isCall : ∃ callee args, visit.task = .evaluate (.call callee args)
  · obtain ⟨callee, args, isCall⟩ := isCall
    rw [front_of_call isCall] at failed
    rw [fails_succ_of_call isCall, Evaluator.evaluateCall_eq]
    exact ⟨final, Action.bind_of_error (error_of_discarded failed)⟩
  · have notCall : ∀ callee args, visit.task ≠ .evaluate (.call callee args) :=
      fun callee args same => isCall ⟨callee, args, same⟩
    rw [front_of_not_call notCall] at failed
    exact fails_succ.mpr ⟨final, error_of_discarded failed⟩

theorem fails_of_callee {final : Machine} {callee : Callee} (starts : visit.Starts level callee)
    (failed : callee.code (evaluator level) callee.machine = .error (.raised error) final) :
    visit.Fails (level + 1) { error with calls := callee.site :: error.calls } := by
  obtain ⟨called, args, name, isCall, prepared, isSite⟩ := starts
  rw [fails_succ_of_call isCall, Evaluator.evaluateCall_eq, Action.bind_of_ok prepared]
  refine ⟨final, ?_⟩
  unfold Callee.code at failed
  simp only [Action.inCall, failed, isSite]

theorem front_or_callee_of_fails (fails : visit.Fails (level + 1) error) :
    (∃ final, visit.front (evaluator level) visit.machine = .error (.raised error) final) ∨
      ∃ callee raised final, visit.Starts level callee ∧
          callee.code (evaluator level) callee.machine = .error (.raised raised) final ∧
          error = { raised with calls := callee.site :: raised.calls } := by
  by_cases isCall : ∃ callee args, visit.task = .evaluate (.call callee args)
  · obtain ⟨callee, args, isCall⟩ := isCall
    obtain ⟨final, failed⟩ := (fails_succ_of_call isCall).mp fails
    rw [Evaluator.evaluateCall_eq] at failed
    rcases Action.bind_eq_error.mp failed with
      failed | ⟨⟨fn, name, values⟩, started, prepared, called⟩
    · rw [front_of_call isCall]
      exact .inl ⟨final, Action.bind_of_error failed⟩
    · let started : Callee := ⟨⟨name.lexeme, name.start⟩, fn, values, started⟩
      obtain ⟨raised, failed, isError⟩ := error_of_inCall called
      exact .inr ⟨started, raised, final, ⟨callee, args, name, isCall, prepared, rfl⟩,
        failed, isError⟩
  · have notCall : ∀ callee args, visit.task ≠ .evaluate (.call callee args) :=
      fun callee args same => isCall ⟨callee, args, same⟩
    obtain ⟨final, failed⟩ := fails_succ.mp fails
    rw [front_of_not_call notCall]
    exact .inl ⟨final, Action.bind_of_error failed⟩

end Visit

theorem Arises.fails {calls : List CallSite} {raiser : Option Function} {place : Option Position}
    {fault : Fault} (arises : Arises level visit calls raiser place fault) :
    visit.Fails level ⟨calls, place, fault⟩ := by
  induction arises with
  | itself raised _ =>
    obtain ⟨final, failed⟩ := raised
    exact Visit.fails_of_front failed
  | handed hands _ ih =>
    obtain ⟨final, failed⟩ := (Visit.front_blames _ _).passes _ _ hands ih
    exact Visit.fails_of_front failed
  | callee starts raised _ =>
    obtain ⟨final, failed⟩ := raised
    exact Visit.fails_of_callee starts failed
  | insideCallee starts calls _ ih =>
    obtain ⟨final, failed⟩ := starts.blames.passes _ _ calls ih
    exact Visit.fails_of_callee starts failed

/-- An error arises somewhere, and it names the calls inside whose callees it does. -/
theorem Visit.Fails.arises (fails : visit.Fails level error) :
    ∃ raiser, Arises level visit error.calls raiser error.place error.fault := by
  induction level generalizing visit error with
  | zero =>
    obtain ⟨final, failed⟩ := fails
    obtain ⟨frame, task, machine⟩ := visit
    cases task <;> cases failed
  | succ level ih =>
    rcases Visit.front_or_callee_of_fails fails with
      ⟨final, failed⟩ | ⟨callee, raised, final, starts, failed, rfl⟩
    · rcases (visit.front_blames level).raises error final failed with
        ⟨fresh, -, unhanded⟩ | ⟨inner, hands, innerFails⟩
      · rw [fresh]
        refine ⟨none, .itself ⟨final, ?_⟩ unhanded⟩
        rw [failed, ← fresh]
      · obtain ⟨raiser, arises⟩ := ih innerFails
        exact ⟨raiser, .handed hands arises⟩
    · rcases starts.blames.raises raised final failed with
        ⟨fresh, -, unhanded⟩ | ⟨inner, calls, innerFails⟩
      · rw [fresh]
        refine ⟨some callee.function, .callee starts ⟨final, ?_⟩ unhanded⟩
        rw [failed, ← fresh]
      · obtain ⟨raiser, arises⟩ := ih innerFails
        exact ⟨raiser, .insideCallee starts calls arises⟩

/-- What is known of the place of an error: a function raises its errors without one. -/
theorem Arises.located {calls : List CallSite} {raiser : Option Function} {place : Option Position}
    {fault : Fault} (arises : Arises level visit calls raiser place fault) :
    (raiser = none ∧ place ≠ none) ∨ ∃ fn,
      raiser = some fn ∧ calls ≠ [] ∧ Evaluator.calleeRaises fn place fault := by
  induction arises with
  | itself raised unhanded =>
    obtain ⟨final, failed⟩ := raised
    rcases (Visit.front_blames _ _).raises _ final failed with
      ⟨-, placed, -⟩ | ⟨inner, hands, fails⟩
    · exact .inl ⟨rfl, placed⟩
    · exact (unhanded inner _ hands fails).elim
  | handed _ _ ih => exact ih
  | callee starts raised unhanded =>
    obtain ⟨final, failed⟩ := raised
    rcases starts.blames.raises _ final failed with
      ⟨-, allowed, -⟩ | ⟨inner, calls, fails⟩
    · exact .inr ⟨_, rfl, by simp, allowed⟩
    · exact (unhanded inner _ calls fails).elim
  | insideCallee _ _ _ ih =>
    rcases ih with located | ⟨fn, isRaiser, -, allowed⟩
    · exact .inl located
    · exact .inr ⟨fn, isRaiser, by simp, allowed⟩

end ArrowScript
