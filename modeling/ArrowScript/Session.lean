import ArrowScript.Evaluation.Statement

namespace ArrowScript

/-!
# Sessions

A session runs scripts one after another on one machine.  Definitions that a
script makes stay in the scope it ran in.  `depth` bounds how deep evaluation
may be nested.
-/

namespace Session

/-- A new outermost scope. -/
def newRoot : Action (Ref .scope) :=
  Action.changeGet (·.newScope .root)

/-- Run a text in a scope. -/
def run (depth : Nat) (scope : Ref .scope) (text : String) : Action RunResult :=
  (evaluator depth).runSource scope text

/-- Read a source to be run in a scope, whatever is wrong with it: its frame and its statements. -/
def load (scope : Ref .scope) (text : String) : Action (Frame × List Stmt) := do
  let source ← Evaluator.newSource
  return (⟨scope, source⟩, (read text).statements)

/-- Run the statements of a source in a scope, whatever is wrong with the rest of it. -/
def interpret (depth : Nat) (scope : Ref .scope) (text : String) : Action Bool := do
  let (frame, statements) ← load scope text
  (evaluator depth).interpret frame statements

def execute (depth : Nat) (frame : Frame) (stmt : Stmt) : Action Completion :=
  (evaluator depth).execute frame stmt

/-- Run an action with its own trace and no imports going on, and go back to the earlier ones. -/
def isolated (level : Nat) (action : Action α) : Action α :=
  fun machine =>
    let trace := machine.trace
    let importing := machine.importing
    match action ({ machine with importing := [] }.startTrace level) with
    | .ok value machine => .ok value { machine with trace := trace, importing := importing }
    | .error failure machine =>
        .error failure { machine with trace := trace, importing := importing }

/-- Change the working directory to the one that holds a file. -/
def enterDirectoryOf (path : String) : Action Unit := do
  let file ← Action.absolutePath path
  Action.changeWorld fun world => { world with directory := (Path.resolve [] file).dropLast }

/-- Run a file in a scope, by default from its directory; an unreadable one is a failed run. -/
def runFile (depth : Nat) (scope : Ref .scope) (path : String) (level : Nat)
    (enter : Bool) : Action RunResult := do
  match ← Native.inspectFiles fun files dir => files.readText dir path with
  | .error _ => return ⟨false, 0, 0⟩
  | .ok text =>
      if enter then
        enterDirectoryOf path
      isolated level (run depth scope text)

end Session

end ArrowScript
