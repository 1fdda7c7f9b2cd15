import ArrowScript.Machine.Fault
import ArrowScript.Store.Names
import ArrowScript.Store.Text
import ArrowScript.World

namespace ArrowScript

/-!
# The machine

A machine is everything that running a script can change.  An action changes a
machine and either gives a value or fails; the changes stay in both cases.
-/

/-- An open trace file: its identity and the offset of the next byte. -/
structure TraceFile where
  identity : Nat
  offset : Nat
deriving Repr, DecidableEq

/-- How much of a run is traced, and where to; without a file the trace goes to the output. -/
structure Trace where
  level : Nat := 0
  file : Option TraceFile := none
deriving Repr, DecidableEq

/-- The state in which scripts run. -/
structure Machine where
  registry : Registry := .standard
  store : Store := .empty
  world : World := {}
  trace : Trace := {}
  /-- The paths of the files being imported, latest first. -/
  importing : List String := []
  sources : Nat := 0

/-- What runs on a machine, changes it and may fail. -/
abbrev Action := EStateM Failure Machine

namespace Machine

def modifyStore (machine : Machine) (change : Store → Store) : Machine :=
  { machine with store := change machine.store }

def modifyWorld (machine : Machine) (change : World → World) : Machine :=
  { machine with world := change machine.world }

def traceName : String := "debug.txt"

/-- Start a trace of the given level; above zero it goes to a new trace file. -/
def startTrace (machine : Machine) (level : Nat) : Machine :=
  if level = 0 then { machine with trace := {} }
  else
    match machine.world.files.writeText machine.world.directory traceName "" with
    | .error _ => { machine with trace := ⟨level, none⟩ }
    | .ok files =>
        let file :=
          match files.resolve machine.world.directory traceName with
          | .found _ (.file identity _) => some ⟨identity, 0⟩
          | _ => none
        { machine with world := { machine.world with files := files }, trace := ⟨level, file⟩ }

/-- Close the trace file; later traces go to the output. -/
def closeTrace (machine : Machine) : Machine :=
  { machine with trace := { machine.trace with file := none } }

def addTrace (machine : Machine) (line : String) : Machine :=
  match machine.trace.file with
  | none => machine.modifyWorld (·.writeLine line)
  | some file =>
      let bytes := Text.encode (line.toList ++ ['\n'])
      { machine with
        world := { machine.world with
          files := machine.world.files.writeAt file.identity file.offset bytes }
        trace :=
          { machine.trace with file := some { file with offset := file.offset + bytes.length } } }

end Machine

namespace Action

def raise (place : Option Position) (fault : Fault) : Action α :=
  throw (.raised { place := place, fault := fault })

def raiseAt (token : Token) (fault : Fault) : Action α :=
  raise (some token.start) fault

/-- Look at the store. -/
def inspect (look : Store → α) : Action α :=
  fun machine => .ok (look machine.store) machine

def change (update : Store → Store) : Action Unit :=
  fun machine => .ok () (machine.modifyStore update)

def changeGet (update : Store → α × Store) : Action α :=
  fun machine =>
    let (value, store) := update machine.store
    .ok value { machine with store := store }

def changeWorld (update : World → World) : Action Unit :=
  fun machine => .ok () (machine.modifyWorld update)

/-- The absolute path that a path text stands for. -/
def absolutePath (text : String) : Action String := do
  match ← fun machine => .ok (Path.absolute? machine.world.directory text) machine with
  | some path => return path
  | none => throw .directoryRemoved

/-- Use names of the store; a fault is located at a place. -/
def lookUp (place : Option Position) (look : Store → Except ScopeFault α) : Action α :=
  fun machine =>
    match look machine.store with
    | .ok value => .ok value machine
    | .error fault => .error (.raised { place := place, fault := .scope fault }) machine

/-- Define a name in a scope; a fault is located at a place and changes nothing. -/
def define (place : Option Position) (ref : Ref .scope)
    (definition : Scope → Except ScopeFault Scope) : Action Unit := do
  let defined ← lookUp place fun store => definition (store.scope ref)
  change (·.setScope ref defined)

/-- Write a line to the trace when its level is high enough. -/
def trace (level : Nat) (line : Store → String) : Action Unit :=
  fun machine =>
    if level ≤ machine.trace.level then .ok () (machine.addTrace (line machine.store))
    else .ok () machine

/-- Run an action and put the value of `@` in a scope back afterwards, however the action ends. -/
def keepingContext (scope : Ref .scope) (action : Action α) : Action α :=
  fun machine =>
    let saved := (machine.store.scope scope).context
    match action machine with
    | .ok value machine => .ok value (machine.modifyStore (·.setContext scope saved))
    | .error failure machine => .error failure (machine.modifyStore (·.setContext scope saved))

/-- Run an action for a call; an error that it raises names the call. -/
def inCall (site : CallSite) (action : Action α) : Action α :=
  fun machine =>
    match action machine with
    | .ok value machine => .ok value machine
    | .error (.raised error) machine =>
        .error (.raised { error with calls := site :: error.calls }) machine
    | .error failure machine => .error failure machine

end Action

end ArrowScript
