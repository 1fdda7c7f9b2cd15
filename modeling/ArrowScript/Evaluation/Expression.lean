import ArrowScript.Evaluation.Element
import ArrowScript.Native.Call

namespace ArrowScript

/-!
# Evaluating expressions

Operands, items and arguments are evaluated from left to right; an assignment
looks at its target first, and a call evaluates its arguments before it looks
for the function.
-/

namespace Evaluator

variable (evaluator : Evaluator) (frame : Frame)

/-- The items of an array literal, behind those there are. -/
def evaluateItems :
    Array Value → List ArrayItem → Action (Array Value)
  | items, [] => pure items
  | items, item :: rest => do
      let value ← evaluator.evaluate frame item.value
      if item.spread then
        match value with
        | .array ref =>
            let spread ← Action.inspect fun store => store.items ref
            evaluateItems (items ++ spread) rest
        | _ => Action.raiseAt item.value.firstToken .arraySpread
      else
        evaluateItems (items.push value) rest

/-- The entries of an object literal, behind those there are. -/
def evaluateEntries :
    Object → List ObjectItem → Action Object
  | object, [] => pure object
  | object, .entry key token expr :: rest => do
      let value ← evaluator.evaluate frame expr
      let key := Value.ofConstant key
      if key.isNull then
        Action.raiseAt token .nullKey
      evaluateEntries (object.set key value) rest
  | object, .spread expr :: rest => do
      match ← evaluator.evaluate frame expr with
      | .object ref =>
          let spread ← Action.inspect fun store => store.object ref
          evaluateEntries (object.setAll spread) rest
      | _ => Action.raiseAt expr.firstToken .objectSpread

/-- The texts of the parts of an interpolated string, one behind the other. -/
def evaluateParts : String → List Expr → Action String
  | text, [] => pure text
  | text, part :: rest => do
      let value ← evaluator.evaluate frame part
      let shown ← Action.inspect fun store => store.text false value
      evaluateParts (text ++ shown) rest

def evaluateArguments : List Expr → Action (List Value)
  | [] => pure []
  | argument :: rest => do
      let value ← evaluator.evaluate frame argument
      return value :: (← evaluateArguments rest)

/-- The function that a callee names, and the token that names it. -/
def resolveCallee (callee : Expr) : Action (Function × Token) := do
  match callee with
  | .functionName name =>
      let registry ← fun machine => .ok machine.registry machine
      let function ← Action.lookUp (some name.start) fun store =>
        store.functionNamed registry frame.scope name.textValue
      return (function, name)
  | .groupMember group name =>
      let group ← evaluator.evaluateGroup frame group
      let entry ← Action.lookUp (some name.start) fun store =>
        store.member .functionName Scope.functions group.scope frame.scope name.textValue
      return (entry.value, name)
  | other => Action.raiseAt other.firstToken .notCallable

/-- Define parameters as private variables of a scope. -/
def bindParameters (scope : Ref .scope) : List (String × Value) → Action Unit
  | [] => pure ()
  | (name, value) :: rest => do
      Action.define none scope fun scope =>
        scope.defineVariable name { value := value, isPublic := false }
      bindParameters scope rest

/-- Call a function of a script: its body runs in a new scope inside its closure. -/
def callUser (fn : UserFunction) (args : List Value) : Action Value := do
  let frame ← innerFrame ⟨fn.closure, fn.source⟩
  bindParameters frame.scope (fn.parameters.zip args)
  return (← evaluator.executeBody frame fn.body).outcome.value

/-- Call a function with as many arguments as it takes. -/
def callFunction (fn : Function) (args : List Value) : Action Value :=
  match fn with
  | .native native => native.call args
  | .user fn => evaluator.callUser fn args

/-- Evaluate a call: arguments first, then the callee. -/
def evaluateCall (callee : Expr) (args : List Expr) : Action Value := do
  let values ← evaluator.evaluateArguments frame args
  let (fn, name) ← evaluator.resolveCallee frame callee
  if fn.arity ≠ values.length then
    Action.raiseAt name (.wrongArity fn.arity values.length)
  Action.trace 3 fun store =>
    "call " ++ name.lexeme ++ "(" ++ Store.commaSeparated (values.map (store.text true)) ++ ")"
  Action.inCall ⟨name.lexeme, name.start⟩ (evaluator.callFunction fn values)

/-- Declare a variable with a value; `@` is absent while the value is evaluated. -/
def declareWithValue (name : Token) (expr : Expr)
    (isPublic : Bool) : Action Value :=
  Action.keepingContext frame.scope do
    let value ← evaluator.evaluateReplacing frame none expr
    declareVariable frame name value isPublic
    return value

/-- Assign to a variable; the name is looked up again for the write. -/
def assignVariable (name : Token) (expr : Expr) : Action Value := do
  let value ← evaluator.evaluateReplacing frame (some (← readVariable frame name)) expr
  let owner ← Action.lookUp (some name.start) fun store => store.ownerOf frame.scope name.lexeme
  Action.change (·.setVariable owner name.lexeme value)
  return value

/-- Assign to a variable of a group. -/
def assignMember (group : Expr) (name : Token) (expr : Expr) : Action Value := do
  let group ← evaluator.evaluateGroup frame group
  let entry ← Action.lookUp (some name.start) fun store =>
    store.member .variableName Scope.bindings group.scope frame.scope name.lexeme
  let value ← evaluator.evaluateReplacing frame (some entry.value) expr
  Action.change (·.setVariable group.scope name.lexeme value)
  return value

/-- The value of an assignment; for its right side `@` is the value being replaced. -/
def evaluateAssign (target expr : Expr) : Action Value :=
  match target with
  | .declaration _ name => evaluator.declareWithValue frame name expr false
  | .reference name =>
      Action.keepingContext frame.scope (evaluator.assignVariable frame name expr)
  | .element base pos _ _ =>
      Action.keepingContext frame.scope (evaluator.assignElement frame base pos expr)
  | .groupMember group name =>
      Action.keepingContext frame.scope (evaluator.assignMember frame group name expr)
  | _ => Action.raiseAt expr.firstToken .assignmentTarget

/-- Put a value behind the items of an array. -/
def evaluatePush (target : Token) (expr : Expr) : Action Value := do
  let array ← readVariable frame target
  let value ← evaluator.evaluate frame expr
  match array with
  | .array ref =>
      Action.change (·.modifyArray ref (·.push value))
      return value
  | _ => Action.raiseAt target .pushTarget

/-- The value of a member of a group: a group of that name, else a variable. -/
def evaluateMember (group : Expr) (name : Token) : Action Value := do
  let group ← evaluator.evaluateGroup frame group
  if ← Action.inspect fun store => (store.scope group.scope).groups.has name.lexeme then
    let entry ← Action.lookUp (some name.start) fun store =>
      store.member .groupName Scope.groups group.scope frame.scope name.lexeme
    return .group entry.value
  else
    let entry ← Action.lookUp (some name.start) fun store =>
      store.member .variableName Scope.bindings group.scope frame.scope name.lexeme
    return entry.value

/-- Evaluate an expression as a statement, which may produce nothing or break. -/
def evaluateOutcome (expr : Expr) : Action Completion := do
  match expr with
  | .block body => evaluator.executeBlock frame body
  | .choice _ subject arms otherwise _ => evaluator.executeMatch frame subject arms otherwise
  | other => return .normal (.produced (← evaluator.evaluate frame other))

/-- The value of a block or a match in the place of an expression. -/
def outcomeValue : Completion → Action Value
  | .broke keyword _ => Action.raiseAt keyword .breakInExpression
  | .normal outcome => pure outcome.value

def evaluateExpression (expr : Expr) : Action Value := do
  match expr with
  | .literal value _ => return .ofConstant value
  | .grouping inner _ _ => evaluator.evaluate frame inner
  | .reference name => readVariable frame name
  | .context token =>
      match ← Action.inspect fun store => (store.scope frame.scope).context with
      | some value => return value
      | none => Action.raiseAt token .noContext
  | .binary op left right =>
      let left ← evaluator.evaluate frame left
      let right ← evaluator.evaluate frame right
      checked op (Operator.binary op.kind left right)
  | .unary op operand =>
      let operand ← evaluator.evaluate frame operand
      checked op (Operator.unary op.kind operand)
  | .block body => outcomeValue (← evaluator.executeBlock frame body)
  | .choice _ subject arms otherwise _ =>
      outcomeValue (← evaluator.executeMatch frame subject arms otherwise)
  | .declaration _ name =>
      declareVariable frame name .null false
      return .null
  | .assign target value => evaluator.evaluateAssign frame target value
  | .call callee args => evaluator.evaluateCall frame callee args
  | .array _ items _ => Native.newArray (← evaluator.evaluateItems frame #[] items)
  | .object _ items _ =>
      let object ← evaluator.evaluateEntries frame [] items
      return .object (← Action.changeGet (·.newObject object))
  | .element base pos _ _ => evaluator.evaluateElement frame base pos
  | .push target value _ => evaluator.evaluatePush frame target value
  | .interpolation _ parts _ => return .text (← evaluator.evaluateParts frame "" parts)
  | .groupName name =>
      return .group (← Action.lookUp (some name.start) fun store =>
        store.groupNamed frame.scope name.lexeme)
  | .groupMember group name => evaluator.evaluateMember frame group name
  | .functionName _ => throw .unexpectedNode

end Evaluator

end ArrowScript
