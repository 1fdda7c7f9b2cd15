import ArrowScript.Evaluation.Operator
import ArrowScript.Machine.Basic

namespace ArrowScript

/-!
# Evaluation

Expressions and statements are evaluated through an `Evaluator` value, which
holds the evaluation of everything nested inside them.
-/

/-- Where code runs: its scope and the source it belongs to. -/
structure Frame where
  scope : Ref .scope
  source : Nat
deriving Repr, DecidableEq

def Frame.site (frame : Frame) (token : Token) : Site :=
  ⟨frame.source, token.start⟩

/-- The evaluation of nested expressions and statements, and the rounds a loop may take. -/
structure Evaluator where
  rounds : Nat
  evaluate : Frame → Expr → Action Value
  execute : Frame → Stmt → Action Completion

namespace Evaluator

variable (evaluator : Evaluator) (frame : Frame)

/-- A result, or its fault raised at a token. -/
def checked (token : Token) (result : Except Fault α) : Action α :=
  match result with
  | .ok value => pure value
  | .error fault => Action.raiseAt token fault

/-- The value of the variable that a token names. -/
def readVariable (name : Token) : Action Value :=
  Action.lookUp (some name.start) fun store =>
    store.variableNamed frame.scope (some (frame.site name)) name.lexeme

def setContext (context : Option Value) : Action Unit :=
  Action.change (·.setContext frame.scope context)

def truthWord (value : Bool) : String :=
  if value then "True" else "False"

/-- Trace what a condition comes to. -/
def traceCondition (word : String) (condition : Value) : Action Unit :=
  Action.trace 3 fun store =>
    word ++ " condition " ++ store.text true condition ++ " -> " ++ truthWord condition.isTrue

/-- Execute statements in order, with the outcome of those before them. -/
def executeAll : Outcome → List Stmt → Action Completion
  | last, [] => pure (.normal last)
  | last, stmt :: rest => do
      match ← evaluator.execute frame stmt with
      | .broke keyword outcome => return .broke keyword (last.andThen outcome)
      | .normal outcome => executeAll (last.andThen outcome) rest

/-- Run the statements of a block in a frame. -/
def executeBody (body : Block) : Action Completion :=
  evaluator.executeAll frame .nothing body.statements

/-- A frame with a new scope inside the given one. -/
def innerFrame : Action Frame := do
  let scope ← Action.changeGet (·.newScope (.child frame.scope))
  return { frame with scope := scope }

/-- Run a block in a new scope. -/
def executeBlock (body : Block) : Action Completion := do
  evaluator.executeBody (← innerFrame frame) body

/-- The first branch whose condition holds, else the block for no such branch. -/
def executeBranches (otherwise : Option Block) :
    List Arm → Action Completion
  | [] =>
      match otherwise with
      | some body => evaluator.executeBlock frame body
      | none => pure (.normal .nothing)
  | branch :: rest => do
      let condition ← evaluator.evaluate frame branch.condition
      traceCondition "if" condition
      if condition.isTrue then
        evaluator.executeBlock frame branch.body
      else
        executeBranches otherwise rest

/-- The first arm whose condition holds; `@` is the subject in conditions and absent in bodies. -/
def executeArms (subject : Value)
    (otherwise : Option Block) : List Arm → Action Completion
  | [] => do
      setContext frame none
      match otherwise with
      | some body => evaluator.executeBlock frame body
      | none => return .normal .nothing
  | arm :: rest => do
      setContext frame (some subject)
      let condition ← evaluator.evaluate frame arm.condition
      traceCondition "match arm" condition
      if condition.isTrue then
        setContext frame none
        evaluator.executeBlock frame arm.body
      else
        executeArms subject otherwise rest

/-- A match: the subject is evaluated once, then the arms are tried in order. -/
def executeMatch (subject : Expr) (arms : List Arm)
    (otherwise : Option Block) : Action Completion := do
  let value ← evaluator.evaluate frame subject
  Action.keepingContext frame.scope (evaluator.executeArms frame value otherwise arms)

/-- Define a variable, and trace it. -/
def declareVariable (name : Token) (value : Value)
    (isPublic : Bool) : Action Unit := do
  Action.define (some name.start) frame.scope fun scope =>
    scope.defineVariable name.lexeme
      { value := value, isPublic := isPublic, declared := some (frame.site name) }
  Action.trace 2 fun store =>
    "declare " ++ name.lexeme ++ ": " ++ value.typeName ++ " = " ++ store.text true value ++
      " public=" ++ truthWord isPublic

/-- Evaluate an expression that must give a group. -/
def evaluateGroup (expr : Expr) : Action Group := do
  match ← evaluator.evaluate frame expr with
  | .group ref => Action.inspect (·.group ref)
  | other => Action.raiseAt expr.firstToken (.notAGroup other.typeName)

end Evaluator

end ArrowScript
