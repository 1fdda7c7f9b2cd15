import ArrowScript.Machine.Basic

namespace ArrowScript

/-!
# Arguments of natives

A native names its parameters, so that a wrong kind of value can be reported.
-/

namespace Native

/-- Fail with a fault of a native; the call it belongs to gives it a place. -/
def refuse (fault : NativeFault) : Action α :=
  Action.raise none (.native fault)

def argument (args : List Value) (pos : Nat) : Value :=
  args.getD pos .null

def stringArgument (native : Native) (args : List Value) (pos : Nat)
    (param : String) : Action String :=
  match argument args pos with
  | .text value => pure value
  | other => refuse (.wrongArgument native.name param .string other.typeName)

def numberArgument (native : Native) (args : List Value) (pos : Nat)
    (param : String) : Action Float :=
  match argument args pos with
  | .number value => pure value
  | other => refuse (.wrongArgument native.name param .number other.typeName)

def arrayArgument (native : Native) (args : List Value) (pos : Nat)
    (param : String) : Action (Ref .array) :=
  match argument args pos with
  | .array ref => pure ref
  | other => refuse (.wrongArgument native.name param .array other.typeName)

def integerPart (value : Float) : Action Int :=
  match Number.truncate value with
  | .ok whole => pure whole
  | .error reason => refuse (.notFinite reason)

def newArray (items : Array Value) : Action Value := do
  return .array (← Action.changeGet (·.newArray items))

def newTexts (texts : List (List Char)) : Action Value :=
  newArray (texts.map fun text => Value.text (String.ofList text)).toArray

def count (value : Nat) : Value :=
  .number (Number.ofInt value)

end Native

end ArrowScript
