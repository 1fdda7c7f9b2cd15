import ArrowScript.Command.Arguments
import ArrowScript.Session
import ArrowScript.Tree.Record

namespace ArrowScript

/-!
# The command line

A command runs a program, checks it, lists its tokens or writes its tree.
-/

/-- Why a command ends with an error of the host. -/
inductive CommandFault
  | notText (error : Text.DecodeError)
  | script (failure : Failure)
deriving Repr, DecidableEq

/-- What a command leaves behind: the world, what it wrote to the error output, and its status. -/
structure Report where
  world : World
  errorText : String := ""
  status : Except CommandFault Nat

namespace Command

def usage : String :=
  "usage: mpsl [-h] [-v] [--check | --tokens | --emit-ast] program\n"

def helpText : String :=
  usage ++
    "\nMPSL language interpreter\n" ++
    "\npositional arguments:\n" ++
    "  program     MPSL program file (.mpsl)\n" ++
    "\noptions:\n" ++
    "  -h, --help  show this help message and exit\n" ++
    "  -v          increase debug verbosity (can be repeated)\n" ++
    "  --check     tokenize and parse only\n" ++
    "  --tokens    print the token stream\n" ++
    "  --emit-ast  write the AST as JSON next to the program\n"

/-- The line of a token in a listing. -/
def tokenLine (token : Token) : String :=
  Number.digits token.start.line ++ ":" ++ Number.digits token.start.column ++ " (" ++
    token.kind.name ++ ", " ++ Text.quoted token.lexeme ++ ")"

def writeLines (world : World) (lines : List String) : World :=
  lines.foldl World.writeLine world

/-- Write the tree of a program next to it, and the path of the new file to the output. -/
def emitTree (world : World) (path : String) (stmts : List Stmt) : Report :=
  let target := path ++ ".ast.json"
  match world.files.writeText world.directory target (programDocument stmts).json with
  | .ok files => { world := { world with files := files }.writeLine target, status := .ok 0 }
  | .error _ => { world := world, status := .ok 1 }

def inspect (world : World) (path : String) (mode : Mode) : Report :=
  match world.files.readText world.directory path with
  | .error (.notText error) => { world := world, status := .error (.notText error) }
  | .error _ => { world := world, status := .ok 1 }
  | .ok text =>
      let script := read text
      let world := if mode = .tokens then writeLines world (script.tokens.map tokenLine) else world
      let world := writeLines world script.messages
      if !script.valid then { world := world, status := .ok 1 }
      else if mode = .emitTree then emitTree world path script.statements
      else { world := world, status := .ok 0 }

def runProgram (depth : Nat) (world : World) (path : String) (verbosity : Nat) : Report :=
  let action : Action RunResult := do
    let scope ← Session.newRoot
    Session.runFile depth scope path verbosity true
  match action { world := world } with
  | .ok result machine =>
      { world := machine.world, status := .ok (if result.success then 0 else 1) }
  | .error failure machine => { world := machine.world, status := .error (.script failure) }

def perform (depth : Nat) (world : World) (invocation : Invocation) : Report :=
  let path := Path.tidy invocation.program
  if !world.files.isFile world.directory path then
    { world := world
      errorText := "Error: file " ++ path ++ " not found\n"
      status := .ok 1 }
  else if invocation.mode = .run then runProgram depth world path invocation.verbosity
  else inspect world path invocation.mode

def run (depth : Nat) (world : World) (args : List String) : Report :=
  match Invocation.ofArguments args with
  | .ok invocation => perform depth world invocation
  | .error .help => { world := world.write helpText, status := .ok 0 }
  | .error (.fault fault) =>
      { world := world
        errorText := usage ++ "mpsl: error: " ++ fault.message ++ "\n"
        status := .ok 2 }

end Command

end ArrowScript
