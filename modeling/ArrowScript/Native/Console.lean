import ArrowScript.Native.Arguments

namespace ArrowScript

/-!
# Natives for the console and the clock
-/

namespace Native

variable (args : List Value)

def runTime : Action Value :=
  fun machine => .ok (count machine.world.clock) machine

def runPrint : Action Value := do
  let text ← Action.inspect fun store => store.text false (argument args 0)
  Action.changeWorld (·.writeLine text)
  return .null

def runWrite : Action Value := do
  let text ← Action.inspect fun store => store.text false (argument args 0)
  Action.changeWorld (·.write text)
  return .null

def runRead : Action Value :=
  fun machine =>
    let (line, world) := machine.world.readLine
    .ok ((line.map Value.text).getD .null) { machine with world := world }

/-- The longest wait is shorter than this number of nanoseconds. -/
def waitLimit : Float := Number.ofInt (Number.twoTo 63)

def nanoseconds : Float := Number.ofInt 1000000000

def runWait : Action Value := do
  let seconds ← numberArgument .wait args 0 "seconds"
  if Number.isNegative seconds then
    refuse .negativeWait
  if Number.isNaN seconds then
    refuse .waitNotANumber
  if Number.lessOrSame waitLimit (seconds * nanoseconds) then
    refuse .waitTooLong
  return .null

def runText : Action Value := do
  return .text (← Action.inspect fun store => store.text false (argument args 0))

def runTypeName : Action Value :=
  return .text (argument args 0).typeName

end Native

end ArrowScript
