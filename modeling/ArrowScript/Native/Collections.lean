import ArrowScript.Native.Arguments
import ArrowScript.Text.Numeral
import ArrowScript.Text.Search

namespace ArrowScript

/-!
# Natives for numbers, strings and arrays
-/

namespace Native

variable (args : List Value)

def runParseNumber : Action Value := do
  let text ← stringArgument .parseNumber args 0 "value"
  match Text.number? text with
  | none => return .null
  | some value => return if Number.isNaN value then .null else .number value

def runLength : Action Value := do
  match argument args 0 with
  | .null => refuse .lengthOfNull
  | .text value => return count value.length
  | .array ref => return count (← Action.inspect fun store => (store.items ref).size)
  | _ => refuse .lengthKind

/-- How many items memory has room for. -/
def memory : Action Nat :=
  fun machine => .ok machine.world.memory machine

/-- Sizes from here on are no sizes at all. -/
def sizeLimit : Int := Number.twoTo 63

def runFillArray : Action Value := do
  let size ← numberArgument .fillArray args 0 "size"
  if Number.isNegative size then
    refuse .negativeSize
  let size ← integerPart size
  if sizeLimit ≤ size then
    refuse .sizeTooLarge
  if (← memory) ≤ size.toNat then
    refuse .outOfMemory
  newArray (Array.replicate size.toNat .null)

/-- An index that must not be negative. -/
def indexArgument (native : Native) (args : List Value) : Action Int := do
  let index ← numberArgument native args 1 "index"
  if Number.isNegative index then
    refuse .negativeIndex
  integerPart index

def insertAt (index : Nat) (value : Value) (items : Array Value) : Array Value :=
  items.insertIdxIfInBounds index value

def runInsert : Action Value := do
  let ref ← arrayArgument .insert args 0 "array"
  let index ← indexArgument .insert args
  let size ← Action.inspect fun store => (store.items ref).size
  if (size : Int) < index then
    refuse (.indexOutOfRange index)
  Action.change (·.modifyArray ref (insertAt index.toNat (argument args 2)))
  return .null

def runRemoveAt : Action Value := do
  let ref ← arrayArgument .removeAt args 0 "array"
  let index ← indexArgument .removeAt args
  let size ← Action.inspect fun store => (store.items ref).size
  if (size : Int) ≤ index then
    refuse (.indexOutOfRange index)
  Action.change (·.modifyArray ref fun items => items.eraseIdxIfInBounds index.toNat)
  return .null

/-- The whole numbers from `first` up to, without, `last`. -/
def wholeNumbers (first last : Int) : Array Value :=
  (Array.range (last - first).toNat).map fun (distance : Nat) =>
    .number (Number.ofInt (first + distance))

def runRange : Action Value := do
  let first ← numberArgument .range args 0 "from"
  let last ← numberArgument .range args 1 "to"
  let first ← integerPart first
  let last ← integerPart last
  newArray (wholeNumbers first last)

def runRangeTo : Action Value := do
  let last ← numberArgument .rangeTo args 0 "to"
  let last ← integerPart last
  newArray (wholeNumbers 0 last)

def runReplace : Action Value := do
  let text ← stringArgument .replace args 0 "string"
  let word ← stringArgument .replace args 1 "pattern"
  let replacement ← stringArgument .replace args 2 "replacement"
  return .text (String.ofList (Text.replace word.toList replacement.toList text.toList))

def runSplit : Action Value := do
  let text ← stringArgument .split args 0 "string"
  let delimiter ← stringArgument .split args 1 "delimiter"
  match delimiter.toList with
  | [] => refuse .emptyDelimiter
  | first :: rest => newTexts (Text.split first rest text.toList)

/-- The second or the third argument, by the truth of the first. -/
def runChoose : Action Value :=
  return argument args (if (argument args 0).isTrue then 1 else 2)

def runRemainder : Action Value := do
  let dividend ← numberArgument .remainder args 0 "number"
  let divisor ← numberArgument .remainder args 1 "by"
  if Number.isZero divisor then
    refuse .divisionByZero
  match Number.remainder dividend divisor with
  | .ok value => return .number value
  | .error .infiniteDividend => refuse .noRemainder

end Native

end ArrowScript
