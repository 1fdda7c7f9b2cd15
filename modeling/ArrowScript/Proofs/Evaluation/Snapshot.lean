import ArrowScript.Proofs.Evaluation.Keeps

namespace ArrowScript

/-!
# Loops over a collection

A loop over a collection takes the elements once, before its first round.  Each
round runs the body in a scope of its own that has nothing but the loop variable,
so that no round can change which element a later one is given.
-/

/-- The elements of a collection: the items of an array, or the characters of a text. -/
def Store.elements? (store : Store) : Value → Option (List Value)
  | .array ref => some (store.items ref).toList
  | .text value => some (value.toList.map Value.ofCharacter)
  | _ => none

/-- The machine with a new scope inside that of a frame, in which only one variable is defined. -/
def Machine.withVariable (machine : Machine) (frame : Frame) (name : String)
    (value : Value) : Machine :=
  machine.modifyStore fun store =>
    (store.newScope
      { parent := some frame.scope
        bindings := [(name, { value := value, isPublic := false })] }).2

/-- One round of a loop: its element and how its body ends. -/
structure Round where
  value : Value
  ending : EStateM.Result Failure Machine Completion

/-- The body ends without a failure or a break. -/
def Round.EndsNormally (round : Round) : Prop :=
  ∃ outcome after, round.ending = .ok (.normal outcome) after

/-- How a loop ends: like its last round, where a break gives what the round had so far. -/
def Round.conclude (last : Outcome) (machine : Machine)
    (rounds : List Round) : EStateM.Result Failure Machine Completion :=
  match rounds.getLast?.map ending with
  | none => .ok (.normal last) machine
  | some (.ok completion after) => .ok (.normal completion.outcome) after
  | some (.error failure after) => .error failure after

theorem Round.conclude_cons {round : Round} {outcome : Outcome} {after : Machine}
    (ended : round.ending = .ok (.normal outcome) after) (last : Outcome) (machine : Machine)
    (rounds : List Round) :
    conclude last machine (round :: rounds) = conclude outcome after rounds := by
  cases rounds with
  | nil => simp [conclude, ended, Completion.outcome]
  | cons next rest =>
    unfold conclude
    rw [List.getLast?_cons_cons, List.getLast?_eq_some_getLast (List.cons_ne_nil next rest)]
    rw [Option.map_some]
    cases ((next :: rest).getLast (List.cons_ne_nil next rest)).ending <;> rfl

namespace Evaluator

/-- What one round of a loop does. -/
def round (evaluator : Evaluator) (frame : Frame) (item : Token) (body : Block) (machine : Machine)
    (value : Value) : Round where
  value := value
  ending :=
    evaluator.executeBody ⟨machine.nextScope, frame.source⟩ body
      (machine.withVariable frame item.lexeme value)

/-- The rounds of a loop, up to the first one that does not end normally. -/
inductive RunsRounds (evaluator : Evaluator) (frame : Frame) (item : Token) (body : Block) :
    Machine → List Value → List Round → Prop
  | done {machine : Machine} : RunsRounds evaluator frame item body machine [] []
  | next
      {machine after : Machine}
      {value : Value}
      {rest : List Value}
      {rounds : List Round}
      {outcome : Outcome} :
      (evaluator.round frame item body machine value).ending = .ok (.normal outcome) after →
      RunsRounds evaluator frame item body after rest rounds →
      RunsRounds evaluator frame item body machine (value :: rest)
        (evaluator.round frame item body machine value :: rounds)
  | stop {machine : Machine} {value : Value} {rest : List Value} :
      ¬ (evaluator.round frame item body machine value).EndsNormally →
      RunsRounds evaluator frame item body machine (value :: rest)
        [evaluator.round frame item body machine value]

variable {inner : Evaluator} {frame : Frame} {item : Token} {body : Block} {machine : Machine}
  {values : List Value} {rounds : List Round}

theorem RunsRounds.values_prefix (runs : inner.RunsRounds frame item body machine values rounds) :
    rounds.map Round.value <+: values := by
  induction runs with
  | done => exact List.nil_prefix
  | next _ _ ih => exact List.cons_prefix_cons.mpr ⟨rfl, ih⟩
  | stop _ => exact List.cons_prefix_cons.mpr ⟨rfl, List.nil_prefix⟩

theorem RunsRounds.values_eq (runs : inner.RunsRounds frame item body machine values rounds)
    (normal : ∀ round ∈ rounds, round.EndsNormally) : rounds.map Round.value = values := by
  induction runs with
  | done => rfl
  | next _ _ ih =>
    rw [List.map_cons, ih (List.forall_mem_cons.mp normal).2]
    rfl
  | stop stopped => exact (stopped (normal _ List.mem_cons_self)).elim

theorem elementsOf_eq (item : Token) (collection : Value) (machine : Machine) :
    elementsOf item collection machine =
      match machine.store.elements? collection with
      | some elements => .ok elements machine
      | none => Action.raiseAt item .collectionKind machine := by
  cases collection <;> rfl

theorem openBody_single (machine : Machine) (frame : Frame) (name : String) (value : Value) :
    openBody frame [(name, value)] machine =
      .ok ⟨machine.nextScope, frame.source⟩ (machine.withVariable frame name value) := by
  let scope : Scope :=
    { parent := some frame.scope
      bindings := [(name, { value := value, isPublic := false })] }
  have current : (withInner machine frame).store.scope machine.nextScope = .child frame.scope :=
    Store.scope_of_push_new rfl
  have defined :
      ((withInner machine frame).store.scope machine.nextScope).defineVariable name
          { value := value, isPublic := false } =
        .ok scope := by
    rw [current]
    rfl
  have replaced : (withInner machine frame).modifyStore (·.setScope machine.nextScope scope) =
      machine.withVariable frame name value := by
    simp [withInner, Machine.withVariable, Machine.modifyStore, Store.newScope, Store.setScope,
      Machine.nextScope, Array.setIfInBounds, Array.set_push, scope]
  rw [openBody_eq]
  have bound : bindParameters machine.nextScope [(name, value)] (withInner machine frame) =
      .ok () (machine.withVariable frame name value) := by
    unfold bindParameters
    rw [Action.bind_of_ok (Action.define_of_ok defined), replaced]
    rfl
  rw [Action.bind_of_ok bound]
  rfl

theorem executeEach_runsRounds (inner : Evaluator) (frame : Frame) (item : Token) (body : Block)
    (last : Outcome) (values : List Value) (machine : Machine) :
    ∃ rounds, inner.RunsRounds frame item body machine values rounds ∧
      (inner.executeEach frame item body last values >>= fun outcome =>
          pure (.normal outcome)) machine = Round.conclude last machine rounds := by
  induction values generalizing last machine with
  | nil => exact ⟨[], .done, rfl⟩
  | cons value rest ih =>
    have ran : inner.runEach frame item body value machine =
        (inner.round frame item body machine value).ending :=
      Action.bind_of_ok (openBody_single machine frame item.lexeme value)
    unfold executeEach
    rw [bind_runEach, bind_assoc]
    cases ended : (inner.round frame item body machine value).ending with
    | error failure after =>
      rw [Action.bind_of_error (ran.trans ended)]
      refine ⟨_, .stop ?_, ?_⟩
      · rintro ⟨outcome, final, normal⟩
        cases ended.symm.trans normal
      · simp [Round.conclude, ended]
    | ok completion after =>
      rw [Action.bind_of_ok (ran.trans ended)]
      cases completion with
      | broke keyword outcome =>
        refine ⟨_, .stop ?_, ?_⟩
        · rintro ⟨outcome, final, normal⟩
          cases ended.symm.trans normal
        · simp only [Round.conclude, List.getLast?_singleton, Option.map_some, ended]
          rfl
      | normal outcome =>
        obtain ⟨rounds, runs, concluded⟩ := ih outcome after
        exact ⟨_, .next ended runs, concluded.trans (Round.conclude_cons ended ..).symm⟩

end Evaluator

/--
A loop over a collection evaluates it once and takes its elements at that moment.
Its rounds are given these elements one after another, all of them unless a round
fails or breaks; then it ends like its last round and never with a break.
-/
theorem each_runs_over_snapshot
    (depth : Nat)
    (frame : Frame)
    (keyword item : Token)
    (collection : Expr)
    (body : Block)
    (machine : Machine) :
    match (evaluator depth).evaluate frame collection machine with
    | .error failure after =>
      (evaluator (depth + 1)).execute frame (.each keyword item collection body) machine =
        .error failure after
    | .ok value evaluated =>
      match evaluated.store.elements? value with
      | none =>
        (evaluator (depth + 1)).execute frame (.each keyword item collection body) machine =
          Action.raiseAt item .collectionKind evaluated
      | some elements =>
        ∃ rounds,
          (evaluator depth).RunsRounds frame item body evaluated elements rounds ∧
            rounds.map Round.value <+: elements ∧
            ((∀ round ∈ rounds, round.EndsNormally) →
              rounds.map Round.value = elements) ∧
            (evaluator (depth + 1)).execute frame (.each keyword item collection body)
                machine =
              Round.conclude .nothing evaluated rounds := by
  have executed :
      (evaluator (depth + 1)).execute frame (.each keyword item collection body) machine =
        ((evaluator depth).evaluate frame collection >>= fun value =>
          Evaluator.elementsOf item value >>= fun values =>
            (evaluator depth).executeEach frame item body .nothing values >>= fun outcome =>
              pure (.normal outcome)) machine := rfl
  rw [executed]
  cases evaluates : (evaluator depth).evaluate frame collection machine with
  | error failure after => exact Action.bind_of_error evaluates
  | ok value evaluated =>
    simp only [Action.bind_of_ok evaluates]
    have snapshot := Evaluator.elementsOf_eq item value evaluated
    cases taken : evaluated.store.elements? value with
    | none =>
      rw [taken] at snapshot
      exact Action.bind_of_error snapshot
    | some elements =>
      rw [taken] at snapshot
      obtain ⟨rounds, runs, concluded⟩ :=
        (evaluator depth).executeEach_runsRounds frame item body .nothing elements evaluated
      refine ⟨rounds, runs, runs.values_prefix, runs.values_eq, ?_⟩
      simp only [Action.bind_of_ok snapshot, concluded]

end ArrowScript
