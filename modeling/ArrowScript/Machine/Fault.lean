import ArrowScript.Native.Fault
import ArrowScript.Scope.Basic

namespace ArrowScript

/-!
# Runtime errors

An error keeps the fault, the place where it was noticed and the calls that
were running, so that its message can be read off at the end.
-/

/-- What can go wrong while a script runs. -/
inductive Fault
  | scope (fault : ScopeFault)
  | noContext
  | nullOperand
  | notANumber
  | nanOperand
  | operandKinds
  | divisionByZero
  | unknownOperator (name : String)
  | indexNotANumber
  | indexNotWhole
  | indexOutOfRange (index : Int)
  | nullIndexKey
  | missingKey (key : String)
  | indexOfNull
  | notIndexable
  | notElementAssignable
  | assignmentTarget
  | breakOutside
  | breakInExpression
  | collectionKind
  | arraySpread
  | objectSpread
  | nullKey
  | pushTarget
  | notAGroup (typeName : String)
  | notCallable
  | wrongArity (expected actual : Nat)
  | publicKind
  | fileAbsent (path : String)
  | circularUse (name : String)
  | failedUse (name : String)
  | native (fault : NativeFault)
deriving Repr, DecidableEq

def Fault.message : Fault → String
  | .scope fault => fault.message
  | .noContext => "'@' has no value here."
  | .nullOperand => "Value cannot be null."
  | .notANumber => "Value must be a number."
  | .nanOperand => "Value cannot be NaN."
  | .operandKinds => "Operands must be two numbers or two strings."
  | .divisionByZero => "Cannot divide by zero."
  | .unknownOperator name => "Unknown operator '" ++ name ++ "'."
  | .indexNotANumber => "Index of access expression must evaluate to a number."
  | .indexNotWhole => "Index of access expression must evaluate to a whole number."
  | .indexOutOfRange index => "Index " ++ Number.integerText index ++ " is out of range."
  | .nullIndexKey => "Cannot index object with null key."
  | .missingKey key => "Object does not contain key '" ++ key ++ "'."
  | .indexOfNull => "Cannot index a null value."
  | .notIndexable =>
      "Only arrays, strings and objects can be indexed with an access expression."
  | .notElementAssignable =>
      "Only arrays and objects can be assigned to with an access expression."
  | .assignmentTarget => "Invalid assignment target."
  | .breakOutside => "Cannot use break outside of a loop or function body."
  | .breakInExpression => "Cannot use break inside an expression."
  | .collectionKind => "Collection must be a string or array."
  | .arraySpread => "Can only spread array types in an array expression."
  | .objectSpread => "Can only spread object types in an object expression."
  | .nullKey => "Cannot have null key on object."
  | .pushTarget => "Can only push into an array."
  | .notAGroup typeName => "Cannot access a member of a " ++ typeName ++ " value."
  | .notCallable => "Can only call functions."
  | .wrongArity expected actual =>
      "Expected " ++ Number.digits expected ++ " argument(s), but got " ++ Number.digits actual ++
        " argument(s)."
  | .publicKind => "Only variable, function, and group declarations can be public."
  | .fileAbsent path => "File at '" ++ path ++ "' does not exist."
  | .circularUse name => "Circular use of '" ++ name ++ "'."
  | .failedUse name => "Failed to use '" ++ name ++ "'."
  | .native fault => fault.message

/-- A call that was going on when an error arose. -/
structure CallSite where
  callee : String
  place : Position
deriving Repr, DecidableEq

def CallSite.line (site : CallSite) : String :=
  "In function '" ++ site.callee ++ "', called from " ++ site.place.label ++ ":\n"

/-- A fault, where it was noticed, and the running calls, outermost first. -/
structure RuntimeError where
  calls : List CallSite := []
  place : Option Position
  fault : Fault
deriving Repr, DecidableEq

/-- The wording of an error with its place. -/
def RuntimeError.located (error : RuntimeError) : String :=
  match error.place with
  | none => error.fault.message
  | some place => place.label ++ " Runtime Error: " ++ error.fault.message

/-- The wording of an error behind its calls. -/
def RuntimeError.message (error : RuntimeError) : String :=
  String.join (error.calls.map CallSite.line) ++ error.located

/--
Why a script stops early: an error that it reports, a replacement that names an
unknown group, a file that is named from a working directory that was removed, a
tree that no script text has, or the bound on its steps.
-/
inductive Failure
  | raised (error : RuntimeError)
  | unknownGroup (name : String)
  | directoryRemoved
  | unexpectedNode
  | exhausted
deriving Repr, DecidableEq

end ArrowScript
