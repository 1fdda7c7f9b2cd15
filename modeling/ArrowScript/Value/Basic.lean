import ArrowScript.Number.Bits
import ArrowScript.Tree.Basic

namespace ArrowScript

/-!
# Values

Arrays, objects, functions and groups are shared: a value only refers to them,
and two references are equal when they refer to the same place of the store.
-/

/-- The regions of the store. -/
inductive Region
  | array
  | object
  | function
  | group
  | scope
  | integer
deriving Repr, DecidableEq

/-- A reference to the `index`-th item of a region of the store. -/
@[ext] structure Ref (region : Region) where
  index : Nat
deriving Repr, DecidableEq, Inhabited

/-- A value of the language; an `integer` is a whole number of the host, not yet converted. -/
inductive Value
  | null
  | bool (value : Bool)
  | number (value : Float)
  | text (value : String)
  | array (ref : Ref .array)
  | object (ref : Ref .object)
  | function (ref : Ref .function)
  | group (ref : Ref .group)
  | integer (ref : Ref .integer)
deriving DecidableEq, Inhabited

namespace Value

def ofConstant : Constant → Value
  | .null => .null
  | .bool value => .bool value
  | .number value => .number value
  | .text value => .text value

/-- Null is false, booleans are themselves, every other value is true. -/
def isTrue : Value → Bool
  | .null => false
  | .bool value => value
  | _ => true

/-- Equality of scripts: numbers by quantity, references by identity, and nothing across kinds. -/
def same : Value → Value → Bool
  | .null, .null => true
  | .bool left, .bool right => left == right
  | .number left, .number right => Number.same left right
  | .text left, .text right => left == right
  | .array left, .array right => left == right
  | .object left, .object right => left == right
  | .function left, .function right => left == right
  | .group left, .group right => left == right
  | .integer left, .integer right => left == right
  | _, _ => false

def typeName : Value → String
  | .null => "null"
  | .bool _ => "boolean"
  | .number _ | .integer _ => "number"
  | .text _ => "string"
  | .array _ => "array"
  | .object _ => "object"
  | .function _ => "function"
  | .group _ => "group"

def isNull : Value → Bool
  | .null => true
  | _ => false

def ofCharacter (char : Char) : Value :=
  .text (String.ofList [char])

end Value

/-- What a statement produces: nothing to report, or a value, which may be null. -/
inductive Outcome
  | nothing
  | produced (value : Value)
deriving DecidableEq, Inhabited

/--
The outcome of a sequence from the outcome so far and that of the next
statement: the later value wins unless it is a null that would hide a value.
-/
def Outcome.andThen : Outcome → Outcome → Outcome
  | last, .nothing => last
  | .nothing, .produced value => .produced value
  | .produced earlier, .produced value =>
      if value.isNull then .produced earlier else .produced value

/-- The value of an outcome; nothing is `null`. -/
def Outcome.value : Outcome → Value
  | .nothing => .null
  | .produced value => value

/-- How a statement ends: normally, or on its way out of the enclosing loop or function. -/
inductive Completion
  | normal (outcome : Outcome)
  | broke (keyword : Token) (outcome : Outcome)
deriving DecidableEq, Inhabited

/-- The outcome of a completion when the enclosing loop or function ends it. -/
def Completion.outcome : Completion → Outcome
  | .normal outcome => outcome
  | .broke _ outcome => outcome

end ArrowScript
