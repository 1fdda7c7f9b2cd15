import ArrowScript.Evaluation.Expression
import ArrowScript.Grammar.Program

namespace ArrowScript

/-!
# Executing statements and sources

A source that is wrong is reported and not run.  A script that fails reports
its first error; what it did before stays done.
-/

/-- How running a source ended, and the number of errors that kept it from running. -/
structure RunResult where
  success : Bool
  lexicalErrors : Nat
  grammarErrors : Nat
deriving Repr, DecidableEq

namespace Evaluator

variable (evaluator : Evaluator) (frame : Frame)

/-- The number of the next source. -/
def newSource : Action Nat :=
  fun machine => .ok machine.sources { machine with sources := machine.sources + 1 }

/-- Execute the statements of a program; a break that reaches this level is an error. -/
def executeProgram : List Stmt → Action Unit
  | [] => pure ()
  | statement :: rest => do
      match ← evaluator.execute frame statement with
      | .broke keyword _ => Action.raiseAt keyword .breakOutside
      | .normal _ => executeProgram rest

/-- Report the error that an action raises; the result says whether there was none. -/
def reporting (action : Action Unit) : Action Bool :=
  fun machine =>
    match action machine with
    | .ok _ machine => .ok true machine
    | .error (.raised error) machine => .ok false (machine.modifyWorld (·.writeLine error.message))
    | .error failure machine => .error failure machine

/-- Run a program and report its first error; the result says whether there was none. -/
def interpret (stmts : List Stmt) : Action Bool := do
  Action.trace 1 fun _ => "run: " ++ Number.digits stmts.length ++ " statement(s)"
  let success ← reporting (evaluator.executeProgram frame stmts)
  Action.trace 1 fun _ => if success then "run: finished" else "run: failed"
  return success

def writeLines (lines : List String) : Action Unit :=
  Action.changeWorld fun world => lines.foldl World.writeLine world

/-- Read a source, report everything wrong with it, and run it in a scope when nothing is. -/
def runSource (scope : Ref .scope) (text : String) : Action RunResult := do
  let source ← newSource
  let script := read text
  writeLines script.messages
  if script.valid then
    return ⟨← evaluator.interpret ⟨scope, source⟩ script.statements, 0, 0⟩
  else
    return ⟨false, script.lexicalErrors.length, script.grammarErrors.length⟩

/-- Add the names of a library to the scope of a frame. -/
def mergeScope (place : Token) (library : Scope) : Action Unit := do
  match ← Action.changeGet fun store => (store.merge frame.scope library).swap with
  | none => return ()
  | some fault => Action.raiseAt place (.scope fault)

/-- Run an action with a path marked as being imported, however the action ends. -/
def whileImporting (path : String) (action : Action α) : Action α :=
  fun machine =>
    match action { machine with importing := path :: machine.importing } with
    | .ok value machine => .ok value { machine with importing := machine.importing.erase path }
    | .error failure machine =>
        .error failure { machine with importing := machine.importing.erase path }

/-- The path and the text of a file that can be imported. -/
def findFile (place : Token) (name : String) : Action (String × String) := do
  let path ← Action.absolutePath name
  if !(← Native.inspectFiles fun files dir => files.isFile dir path) then
    Action.raiseAt place (.fileAbsent path)
  if ← fun machine => .ok (machine.importing.contains path) machine then
    Action.raiseAt place (.circularUse name)
  Action.trace 1 fun _ => "use file " ++ path
  match ← Native.inspectFiles fun files dir => files.readText dir path with
  | .error _ => Action.raiseAt place (.failedUse name)
  | .ok text => return (path, text)

/-- Import the names of a file, which is run in a scope of its own. -/
def useFile (place : Token) (name : String) : Action Unit := do
  let file ← findFile place name
  let imported ← Action.changeGet (·.newScope .root)
  let result ← whileImporting file.1 (evaluator.runSource imported file.2)
  if !result.success then
    Action.raiseAt place (.failedUse name)
  mergeScope frame place (← Action.inspect (·.scope imported))

/-- Import a group of natives, or the names of a file. -/
def use (path : Token) : Action Unit := do
  let name := path.textValue
  match ← fun machine => .ok (machine.registry.group? name) machine with
  | some natives =>
      Action.trace 1 fun _ => "use built-in group " ++ name
      mergeScope frame path (.ofNatives natives)
  | none => evaluator.useFile frame path name

/-- Define a function, and trace it. -/
def declareFunction (name : Token) (params : List Token) (body : Block)
    (isPublic : Bool) : Action Unit := do
  let params := params.map Token.lexeme
  let function : UserFunction :=
    ⟨name.textValue, params, body, frame.scope, frame.source⟩
  Action.define (some name.start) frame.scope fun scope =>
    scope.defineFunction name.textValue { value := .user function, isPublic := isPublic }
  Action.trace 2 fun _ =>
    "define function " ++ name.lexeme ++ "(" ++ Store.commaSeparated params ++ ") public=" ++
      truthWord isPublic

/-- Declare a group: its body runs in a new scope first. -/
def declareGroup (name : Token) (body : Block) (isPublic : Bool) : Action Unit := do
  let inner ← innerFrame frame
  match ← evaluator.executeBody inner body with
  | .broke keyword _ => Action.raiseAt keyword .breakOutside
  | .normal _ => pure ()
  let group ← Action.changeGet (·.newGroup ⟨name.lexeme, inner.scope⟩)
  Action.define (some name.start) frame.scope fun scope =>
    scope.defineGroup name.lexeme { value := group, isPublic := isPublic }
  Action.trace 2 fun _ => "define group " ++ name.lexeme ++ " public=" ++ truthWord isPublic

def declare (isPublic : Bool) (stmt : Stmt) : Action Outcome := do
  match stmt with
  | .function _ name params body =>
      declareFunction frame name params body isPublic
      return .nothing
  | .group _ name body =>
      evaluator.declareGroup frame name body isPublic
      return .nothing
  | .expression (.declaration _ name) =>
      declareVariable frame name .null isPublic
      return .nothing
  | .expression (.assign (.declaration _ name) value) =>
      return .produced (← evaluator.declareWithValue frame name value isPublic)
  | other => Action.raiseAt other.firstToken .publicKind

/-- Repeat a body while a condition holds; the outcome is that of the last round. -/
def executeLoop (condition : Expr) (body : Block) :
    Nat → Outcome → Action Outcome
  | 0, _ => throw .exhausted
  | rounds + 1, last => do
      let value ← evaluator.evaluate frame condition
      traceCondition "while" value
      if value.isTrue then
        match ← evaluator.executeBlock frame body with
        | .broke _ outcome => return outcome
        | .normal outcome => executeLoop condition body rounds outcome
      else
        return last

/-- What a loop runs over: the elements there are at its start. -/
def elementsOf (place : Token) (collection : Value) : Action (List Value) := do
  match collection with
  | .array ref => Action.inspect fun store => (store.items ref).toList
  | .text value => return value.toList.map Value.ofCharacter
  | _ => Action.raiseAt place .collectionKind

/-- Run a body once for each element; the outcome is that of the last round. -/
def executeEach (item : Token) (body : Block) :
    Outcome → List Value → Action Outcome
  | last, [] => pure last
  | _, value :: rest => do
      let inner ← innerFrame frame
      bindParameters inner.scope [(item.lexeme, value)]
      match ← evaluator.executeBody inner body with
      | .broke _ outcome => return outcome
      | .normal outcome => executeEach item body outcome rest

def executeStatement (stmt : Stmt) : Action Completion := do
  match stmt with
  | .expression value =>
      if value.declares then
        return .normal (← evaluator.declare frame false stmt)
      else
        evaluator.evaluateOutcome frame value
  | .function .. | .group .. => return .normal (← evaluator.declare frame false stmt)
  | .exported _ declaration => return .normal (← evaluator.declare frame true declaration)
  | .conditional _ branches otherwise => evaluator.executeBranches frame otherwise branches
  | .loop _ condition body =>
      return .normal (← evaluator.executeLoop frame condition body evaluator.rounds .nothing)
  | .each _ item collection body =>
      let values ← elementsOf item (← evaluator.evaluate frame collection)
      return .normal (← evaluator.executeEach frame item body .nothing values)
  | .leave keyword => return .broke keyword .nothing
  | .use _ path =>
      evaluator.use frame path
      return .normal .nothing

end Evaluator

/-- The evaluator whose evaluations may be nested `depth` times. -/
def evaluator : Nat → Evaluator
  | 0 =>
      { rounds := 0
        evaluate := fun _ _ => throw .exhausted
        execute := fun _ _ => throw .exhausted }
  | depth + 1 =>
      { rounds := depth
        evaluate := fun frame expr machine =>
          Evaluator.evaluateExpression (evaluator depth) frame expr machine
        execute := fun frame stmt machine =>
          Evaluator.executeStatement (evaluator depth) frame stmt machine }

end ArrowScript
