import ArrowScript.Evaluation.Evaluator

namespace ArrowScript

/-!
# Elements of arrays, strings and objects

Evaluating an index or a value may change the container, so bounds are checked
against the length at the moment of each access.
-/

namespace Evaluator

variable (evaluator : Evaluator) (frame : Frame)

/-- Evaluate an index that must be a whole number; `place` is the token of the whole access. -/
def evaluateIndex (place : Token) (pos : Expr) : Action Int := do
  checked place (Operator.index (← evaluator.evaluate frame pos))

/-- An index within the bounds of an array at this moment. -/
def boundedIn (place : Token) (ref : Ref .array) (index : Int) : Action Nat := do
  checked place (Operator.bounded index (← Action.inspect fun store => (store.items ref).size))

/-- The item at an index of an array. -/
def itemAt (ref : Ref .array) (index : Nat) : Action Value :=
  Action.inspect fun store => (store.items ref).getD index .null

/-- Evaluate a key that an object must have. -/
def evaluateKey (place : Token) (ref : Ref .object)
    (pos : Expr) : Action Value := do
  let key ← evaluator.evaluate frame pos
  if key.isNull then
    Action.raiseAt place .nullIndexKey
  if ← Action.inspect fun store => (store.object ref).contains key then
    return key
  else
    Action.raiseAt place (.missingKey (← Action.inspect fun store => store.text false key))

/-- The value of a key of an object. -/
def valueOf (ref : Ref .object) (key : Value) : Action Value :=
  Action.inspect fun store => ((store.object ref).get? key).getD .null

/-- The element of an array, a string or an object. -/
def evaluateElement (base pos : Expr) : Action Value := do
  let place := base.firstToken
  match ← evaluator.evaluate frame base with
  | .array ref =>
      let index ← evaluator.evaluateIndex frame place pos
      itemAt ref (← boundedIn place ref index)
  | .text value =>
      let index ← evaluator.evaluateIndex frame place pos
      let characters := value.toList
      let bounded ← checked place (Operator.bounded index characters.length)
      return ((characters[bounded]?).map Value.ofCharacter).getD .null
  | .object ref => valueOf ref (← evaluator.evaluateKey frame place ref pos)
  | .null => Action.raiseAt place .indexOfNull
  | _ => Action.raiseAt place .notIndexable

/-- Evaluate a value with `@` standing for the value that it replaces. -/
def evaluateReplacing (replaced : Option Value) (expr : Expr) : Action Value := do
  setContext frame replaced
  evaluator.evaluate frame expr

/-- Replace an element of an array or an object. -/
def assignElement (base pos expr : Expr) : Action Value := do
  let place := base.firstToken
  match ← evaluator.evaluate frame base with
  | .array ref =>
      let index ← evaluator.evaluateIndex frame place pos
      let bounded ← boundedIn place ref index
      let value ← evaluator.evaluateReplacing frame (some (← itemAt ref bounded)) expr
      let bounded ← boundedIn place ref index
      Action.change (·.modifyArray ref fun items => items.setIfInBounds bounded value)
      return value
  | .object ref =>
      let key ← evaluator.evaluateKey frame place ref pos
      let value ← evaluator.evaluateReplacing frame (some (← valueOf ref key)) expr
      Action.change (·.setKey ref key value)
      return value
  | _ => Action.raiseAt place .notElementAssignable

end Evaluator

end ArrowScript
