import ArrowScript.Machine.Fault

namespace ArrowScript

/-!
# Operators

Operators look at the values of their operands only.  Arithmetic and order
refuse null, other kinds and NaN; equality and logic take every value.
-/

namespace Operator

/-- A number that can be calculated with; `otherKind` is the fault for a value of another kind. -/
def number (value : Value) (otherKind : Fault) : Except Fault Float :=
  match value with
  | .null => .error .nullOperand
  | .number value => if Number.isNaN value then .error .nanOperand else .ok value
  | _ => .error otherKind

/-- The sum of two numbers, or two strings one behind the other. -/
def add : Value → Value → Except Fault Value
  | .text left, .text right => .ok (.text (left ++ right))
  | .number left, .number right => do
      let left ← number (.number left) .notANumber
      let right ← number (.number right) .notANumber
      return .number (left + right)
  | _, _ => .error .operandKinds

def numeric (op : Kind) (left right : Float) : Except Fault Value :=
  match op with
  | .slash =>
      if Number.isZero right then .error .divisionByZero else .ok (.number (left / right))
  | .minus => .ok (.number (left - right))
  | .star => .ok (.number (left * right))
  | .less => .ok (.bool (Number.less left right))
  | .greater => .ok (.bool (Number.less right left))
  | .lessEqual => .ok (.bool (Number.lessOrSame left right))
  | .greaterEqual => .ok (.bool (Number.lessOrSame right left))
  | other => .error (.unknownOperator other.name)

def binary (op : Kind) (left right : Value) : Except Fault Value :=
  match op with
  | .plus => add left right
  | .equal => .ok (.bool (left.same right))
  | .notEqual => .ok (.bool (!left.same right))
  | .ampersand => .ok (.bool (left.isTrue && right.isTrue))
  | .bar => .ok (.bool (left.isTrue || right.isTrue))
  | other => do
      let left ← number left .notANumber
      let right ← number right .notANumber
      numeric other left right

/-- A unary operator: the opposite number, or the opposite truth. -/
def unary (op : Kind) (operand : Value) : Except Fault Value :=
  match op with
  | .minus => do
      let value ← number operand .notANumber
      return .number (-value)
  | _ => .ok (.bool (!operand.isTrue))

/-- A whole number that may be the index of an item. -/
def index (value : Value) : Except Fault Int := do
  let value ← number value .indexNotANumber
  match Number.whole? value with
  | some whole => .ok whole
  | none => .error .indexNotWhole

/-- The index of an item of a sequence of the given length. -/
def bounded (index : Int) (length : Nat) : Except Fault Nat :=
  if 0 ≤ index ∧ index < length then .ok index.toNat else .error (.indexOutOfRange index)

end Operator

end ArrowScript
