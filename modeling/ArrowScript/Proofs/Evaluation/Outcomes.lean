import ArrowScript.Evaluation.Statement

namespace ArrowScript

/-!
# What blocks amount to

A block gives the last value of its statements that is not null, else null if
one of them gives a value at all, else nothing.  Blocks, branches and arms that
stand as statements may be nested: the outcome of the whole, which a break takes
along to the loop or function around, is that of the flat sequence of outcomes.
-/

namespace Outcome

/-- The value that an outcome has produced. -/
def value? : Outcome → Option Value
  | .nothing => none
  | .produced value => some value

/-- The last value that is not null, else null if there is a value at all, else nothing. -/
def overall (outcomes : List Outcome) : Outcome :=
  let values := outcomes.filterMap value?
  match (values.filter (!·.isNull)).getLast? with
  | some value => .produced value
  | none => if values.isEmpty then .nothing else .produced .null

theorem nothing_andThen (outcome : Outcome) : nothing.andThen outcome = outcome := by
  cases outcome <;> rfl

theorem andThen_nothing (outcome : Outcome) : outcome.andThen .nothing = outcome := by
  cases outcome <;> rfl

theorem andThen_assoc (first second third : Outcome) :
    (first.andThen second).andThen third = first.andThen (second.andThen third) := by
  cases first <;> cases second <;> cases third <;> simp only [andThen] <;> grind [andThen]

theorem overall_append (first second : List Outcome) :
    overall (first ++ second) = (overall first).andThen (overall second) := by
  simp only [overall, List.filterMap_append, List.filter_append, List.getLast?_append]
  generalize first.filterMap value? = earlier, second.filterMap value? = later
  -- A later value that is not null covers all earlier ones; a null covers none of them.
  cases last : (later.filter (!·.isNull)).getLast? with
  | some value =>
    have proper := (List.mem_filter.mp (List.mem_of_getLast? last)).2
    split <;> grind [andThen]
  | none =>
    cases later <;> cases (earlier.filter (!·.isNull)).getLast? <;>
      grind [andThen, Value.isNull]

theorem overall_cons (outcome : Outcome) (rest : List Outcome) :
    overall (outcome :: rest) = outcome.andThen (overall rest) := by
  have single : overall [outcome] = outcome := by
    rcases outcome with _ | value
    · rfl
    · cases value <;> rfl
  rw [← List.singleton_append, overall_append, single]

example : overall [.produced (.text "a"), .nothing, .produced .null] = .produced (.text "a") :=
  rfl

end Outcome

/-- What statements give one after another, and the keyword with which the last of them breaks. -/
structure Yield where
  outcomes : List Outcome
  keyword : Option Token

/-- A completion as the yield of one statement. -/
def Completion.yield : Completion → Yield
  | .normal outcome => ⟨[outcome], none⟩
  | .broke keyword outcome => ⟨[outcome], some keyword⟩

/-- The outcome of all statements together. -/
def Yield.outcome (yield : Yield) : Outcome :=
  .overall yield.outcomes

/-- How statements with a yield complete. -/
def Yield.completion (yield : Yield) : Completion :=
  match yield.keyword with
  | none => .normal yield.outcome
  | some keyword => .broke keyword yield.outcome

namespace Evaluator

/-- Run statements in order, up to the first one that breaks. -/
def collectAll (run : Stmt → Action Yield) : List Stmt → Action Yield
  | [] => pure ⟨[], none⟩
  | stmt :: rest => do
      let first ← run stmt
      if first.keyword.isSome then return first
      let later ← collectAll run rest
      return { later with outcomes := first.outcomes ++ later.outcomes }

/-- Collect the yield of a block, run in a new scope. -/
def collectBlock (run : Frame → Stmt → Action Yield) (frame : Frame) : Option Block →
    Action Yield
  | none => pure ⟨[], none⟩
  | some body => do collectAll (run (← innerFrame frame)) body.statements

variable (evaluator : Evaluator) (frame : Frame)

/-- The body of the first arm whose condition holds; `asking` comes before every condition. -/
def chooseBody (word : String) (asking ending : Action Unit) (otherwise : Option Block) :
    List Arm → Action (Option Block)
  | [] => do
      ending
      return otherwise
  | arm :: rest => do
      asking
      let condition ← evaluator.evaluate frame arm.condition
      traceCondition word condition
      if condition.isTrue then
        ending
        return some arm.body
      else
        chooseBody word asking ending otherwise rest

end Evaluator

open Evaluator in
/-- Run a statement; one with blocks gives what is in the blocks that it runs, however deep. -/
def flatten : Nat → Frame → Stmt → Action Yield
  | 0, _, _ => throw .exhausted
  | depth + 1, frame, stmt =>
      match stmt with
      | .expression (.block body) => collectBlock (flatten depth) frame (some body)
      | .conditional _ branches otherwise => do
          collectBlock (flatten depth) frame
            (← (evaluator depth).chooseBody frame "if" (pure ()) (pure ()) otherwise branches)
      | .expression (.choice _ subject arms otherwise _) => do
          let value ← (evaluator depth).evaluate frame subject
          Action.keepingContext frame.scope do
            collectBlock (flatten depth) frame
              (← (evaluator depth).chooseBody frame "match arm" (setContext frame (some value))
                (setContext frame none) otherwise arms)
      | other => Completion.yield <$> (evaluator (depth + 1)).execute frame other

namespace Evaluator

/-- Statements end with what a way to run them yields. -/
def Sums (evaluator : Evaluator) (run : Frame → Stmt → Action Yield) : Prop :=
  ∀ frame stmt, evaluator.execute frame stmt = Yield.completion <$> run frame stmt

theorem completion_yield (completion : Completion) : completion.yield.completion = completion := by
  cases completion <;> exact congrArg _ (Outcome.overall_cons _ [])

theorem sums_single (evaluator : Evaluator) :
    evaluator.Sums fun frame stmt => Completion.yield <$> evaluator.execute frame stmt := by
  intro frame stmt
  simp [completion_yield]

variable {evaluator : Evaluator} {run : Frame → Stmt → Action Yield}
  (sums : evaluator.Sums run) (frame : Frame)

include sums

theorem executeAll_eq_collect (last : Outcome) (stmts : List Stmt) :
    evaluator.executeAll frame last stmts =
      (fun yield => Yield.completion ⟨last :: yield.outcomes, yield.keyword⟩) <$>
        collectAll (run frame) stmts := by
  -- What was given before the statements stands in front of what they give.
  induction stmts generalizing last with
  | nil =>
    have single : Outcome.overall [last] = last := Outcome.overall_cons last []
    simp [executeAll, collectAll, Yield.completion, Yield.outcome, single]
  | cons stmt rest ih =>
    simp only [executeAll, collectAll, sums frame stmt, map_eq_pure_bind, bind_assoc, pure_bind]
    refine congrArg _ (funext fun first => ?_)
    rcases first with ⟨outcomes, _ | keyword⟩
    · simp [Yield.completion, ih, Yield.outcome, Outcome.overall_cons, Outcome.overall_append,
        Outcome.andThen_assoc]
    · simp [Yield.completion, Yield.outcome, Outcome.overall_cons]

theorem executeBody_eq_collect (body : Block) :
    evaluator.executeBody frame body =
      Yield.completion <$> collectAll (run frame) body.statements :=
  executeAll_eq_collect sums frame .nothing body.statements

theorem executeBlock_eq_collect (body : Block) :
    evaluator.executeBlock frame body =
      Yield.completion <$> collectBlock run frame (some body) := by
  simp [executeBlock, collectBlock, executeBody_eq_collect sums]

theorem otherwise_eq_collect (otherwise : Option Block) :
    (match otherwise with
      | some body => evaluator.executeBlock frame body
      | none => pure (.normal .nothing)) =
      Yield.completion <$> collectBlock run frame otherwise := by
  cases otherwise with
  | none => rfl
  | some body => exact executeBlock_eq_collect sums frame body

theorem executeBranches_eq_collect (otherwise : Option Block) (branches : List Arm) :
    evaluator.executeBranches frame otherwise branches = Yield.completion <$>
      (evaluator.chooseBody frame "if" (pure ()) (pure ()) otherwise branches >>=
        collectBlock run frame) := by
  induction branches with
  | nil => exact otherwise_eq_collect sums frame otherwise
  | cons branch rest ih =>
    simp only [executeBranches, chooseBody, ih, map_bind, bind_assoc, pure_bind]
    refine congrArg _ (funext fun condition => congrArg _ (funext fun _ => ?_))
    split <;> simp [executeBlock_eq_collect sums]

theorem executeArms_eq_collect (subject : Value) (otherwise : Option Block) (arms : List Arm) :
    evaluator.executeArms frame subject otherwise arms = Yield.completion <$>
      (evaluator.chooseBody frame "match arm" (setContext frame (some subject))
        (setContext frame none) otherwise arms >>= collectBlock run frame) := by
  induction arms with
  | nil =>
    simp only [executeArms, chooseBody, map_bind, bind_assoc, pure_bind]
    exact congrArg _ (funext fun _ => otherwise_eq_collect sums frame otherwise)
  | cons arm rest ih =>
    simp only [executeArms, chooseBody, ih, map_bind, bind_assoc]
    refine congrArg _ (funext fun _ => congrArg _ (funext fun condition =>
      congrArg _ (funext fun _ => ?_)))
    split <;> simp [executeBlock_eq_collect sums]

end Evaluator

theorem keepingContext_map (scope : Ref .scope) (action : Action α) (change : α → β) :
    Action.keepingContext scope (change <$> action) =
      change <$> Action.keepingContext scope action := by
  funext machine
  simp only [Action.keepingContext, Functor.map, EStateM.map]
  cases action machine <;> rfl

/-- Statements end with what the flat sequence of outcomes amounts to. -/
theorem evaluator_sums (depth : Nat) : (evaluator depth).Sums (flatten depth) := by
  induction depth with
  | zero => exact fun _ _ => rfl
  | succ depth ih =>
    intro frame stmt
    unfold flatten
    split
    · exact Evaluator.executeBlock_eq_collect ih frame _
    · exact Evaluator.executeBranches_eq_collect ih frame _ _
    · show Evaluator.executeMatch _ _ _ _ _ = _
      simp only [Evaluator.executeMatch, map_bind, ← keepingContext_map,
        Evaluator.executeArms_eq_collect ih]
    · exact Evaluator.sums_single _ frame stmt

open Evaluator in
/--
Outcomes combine associatively, with nothing as identity.  So a block ends with
what the outcomes of its statements amount to, and a statement with what the
outcomes in all blocks of it amount to, however these are nested.  Functions and
rounds of loops give what their bodies amount to, the value of a break included.
-/
theorem outcome_of_flat_sequence (depth : Nat) (frame : Frame) :
    (∀ first second third : Outcome,
      (first.andThen second).andThen third = first.andThen (second.andThen third)) ∧
    (∀ outcome : Outcome,
      Outcome.nothing.andThen outcome = outcome ∧ outcome.andThen .nothing = outcome) ∧
    (∀ body,
      (evaluator depth).executeBlock frame body = Yield.completion <$> collectBlock
          (fun inner stmt => Completion.yield <$> (evaluator depth).execute inner stmt) frame
          (some body)) ∧
    (∀ stmt, (evaluator depth).execute frame stmt =
      Yield.completion <$> flatten depth frame stmt) ∧
    (∀ fn args, (evaluator depth).callUser fn args = do
      let inner ← innerFrame ⟨fn.closure, fn.source⟩
      bindParameters inner.scope (fn.parameters.zip args)
      return (← collectAll (flatten depth inner) fn.body.statements).outcome.value) ∧
    (∀ condition body rounds last,
      (evaluator depth).executeLoop frame condition body (rounds + 1) last = do
        let value ← (evaluator depth).evaluate frame condition
        traceCondition "while" value
        if !value.isTrue then return last
        let yield ← collectBlock (flatten depth) frame (some body)
        if yield.keyword.isSome then return yield.outcome
        (evaluator depth).executeLoop frame condition body rounds yield.outcome) ∧
    ∀ item body last value rest,
      (evaluator depth).executeEach frame item body last (value :: rest) = (do
        let inner ← innerFrame frame
        bindParameters inner.scope [(item.lexeme, value)]
        let yield ← collectAll (flatten depth inner) body.statements
        if yield.keyword.isSome then return yield.outcome
        (evaluator depth).executeEach frame item body yield.outcome rest) := by
  have sums := evaluator_sums depth
  have ends (yield : Yield) : yield.completion.outcome = yield.outcome := by
    rcases yield with ⟨outcomes, _ | keyword⟩ <;> rfl
  refine ⟨Outcome.andThen_assoc, fun outcome =>
    ⟨outcome.nothing_andThen, outcome.andThen_nothing⟩,
    executeBlock_eq_collect (sums_single _) frame, sums frame, ?_, ?_, ?_⟩
  · intro fn args
    simp [callUser, executeBody_eq_collect sums, ends]
  · intro condition body rounds last
    rw [executeLoop]
    refine congrArg _ (funext fun value => congrArg _ (funext fun _ => ?_))
    cases value.isTrue with
    | false => rfl
    | true =>
    simp only [executeBlock_eq_collect sums, map_eq_pure_bind, bind_assoc, pure_bind, if_true]
    refine congrArg _ (funext fun yield => ?_)
    rcases yield with ⟨outcomes, _ | keyword⟩ <;> rfl
  · intro item body last value rest
    rw [executeEach]
    refine congrArg _ (funext fun inner => congrArg _ (funext fun _ => ?_))
    simp only [executeBody_eq_collect sums, map_eq_pure_bind, bind_assoc, pure_bind]
    refine congrArg _ (funext fun yield => ?_)
    rcases yield with ⟨outcomes, _ | keyword⟩ <;> rfl

end ArrowScript
