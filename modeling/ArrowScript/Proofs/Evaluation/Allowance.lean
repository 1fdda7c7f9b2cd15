import ArrowScript.Evaluation.Statement
import ArrowScript.Proofs.Tree.Form

namespace ArrowScript

/-!
# What a construct asks for

A construct hands over expressions, runs bodies, declares names and raises
faults.  An allowance says which of these may come up, and a construct fits an
allowance if it asks for nothing else.

Some faults belong to trees that no valid text has.  All others are possible, so
every allowance includes them.
-/

/-- A fault that a script can have; the others belong to trees that no valid text has. -/
def Fault.Possible : Fault → Prop
  | .unknownOperator _ | .notCallable | .assignmentTarget | .publicKind | .breakOutside => False
  | _ => True

/-- A failure that a part of a script can have. -/
def Failure.Possible : Failure → Prop
  | .raised error => error.fault.Possible
  | .unexpectedNode => False
  | .unknownGroup _ | .directoryRemoved | .exhausted => True

namespace Operator

variable {fault : Fault}

theorem possible_of_number {value : Value} {otherKind : Fault}
    (failed : number value otherKind = .error fault) (otherPossible : otherKind.Possible) :
    fault.Possible := by
  unfold number at failed
  split at failed
  · cases failed
    trivial
  · split at failed
    · cases failed
      trivial
    · cases failed
  · cases failed
    exact otherPossible

theorem error_bind {first : Except Fault α} {next : α → Except Fault β}
    (failed : first >>= next = .error fault) :
    first = .error fault ∨ ∃ value, next value = .error fault := by
  cases first with
  | error reason =>
    cases failed
    exact .inl rfl
  | ok value => exact .inr ⟨value, failed⟩

theorem possible_of_index {value : Value} (failed : index value = .error fault) :
    fault.Possible := by
  rcases error_bind failed with inNumber | ⟨float, rest⟩
  · exact possible_of_number inNumber trivial
  · split at rest
    · cases rest
    · cases rest
      trivial

theorem possible_of_bounded {pos : Int} {length : Nat}
    (failed : bounded pos length = .error fault) : fault.Possible := by
  unfold bounded at failed
  split at failed
  · cases failed
  · cases failed
    trivial

theorem possible_of_add {left right : Value} (failed : add left right = .error fault) :
    fault.Possible := by
  unfold add at failed
  split at failed
  · cases failed
  · rcases error_bind failed with inLeft | ⟨leftNumber, rest⟩
    · exact possible_of_number inLeft trivial
    · rcases error_bind rest with inRight | ⟨rightNumber, ended⟩
      · exact possible_of_number inRight trivial
      · cases ended
  · cases failed
    trivial

variable {op : Kind}

theorem possible_of_numeric {left right : Float}
    (isNumeric : op ∈ [.slash, .minus, .star, .less, .greater, .lessEqual, .greaterEqual])
    (failed : numeric op left right = .error fault) : fault.Possible := by
  unfold numeric at failed
  split at failed
  · split at failed
    · cases failed
      trivial
    · cases failed
  · cases failed
  · cases failed
  · cases failed
  · cases failed
  · cases failed
  · cases failed
  · simp_all

theorem possible_of_binary {left right : Value} (isOperator : op.level ≠ 0)
    (failed : binary op left right = .error fault) : fault.Possible := by
  unfold binary at failed
  split at failed
  · exact possible_of_add failed
  · cases failed
  · cases failed
  · cases failed
  · cases failed
  · rcases error_bind failed with inLeft | ⟨leftNumber, rest⟩
    · exact possible_of_number inLeft trivial
    · rcases error_bind rest with inRight | ⟨rightNumber, ended⟩
      · exact possible_of_number inRight trivial
      · apply possible_of_numeric _ ended
        cases op <;> simp_all [Kind.level]

theorem possible_of_unary {operand : Value} (failed : unary op operand = .error fault) :
    fault.Possible := by
  unfold unary at failed
  split at failed
  · rcases error_bind failed with inNumber | ⟨value, ended⟩
    · exact possible_of_number inNumber trivial
    · cases ended
  · cases failed

end Operator

/-- The value of an item of an object literal. -/
def ObjectItem.expression : ObjectItem → Expr
  | .entry _ _ value => value
  | .spread value => value

/-- What code may do, by the kinds of things that it does. -/
structure Allowance where
  /-- Expressions that are handed over. -/
  hands : Expr → Prop
  /-- Bodies that run in a new scope. -/
  block : Block → Prop
  /-- Bodies that run for each element, which a name stands for. -/
  each : Token → Block → Prop
  /-- Names of variables that are declared. -/
  binds : Token → Prop
  defines : Token → List Token → Block → Prop
  group : Token → Block → Prop
  fault : Fault → Prop
  /-- Names of functions may be evaluated. -/
  strays : Prop
  /-- The value of `@` may be read. -/
  reads : Prop := True
  possible : ∀ each, each.Possible → fault each

namespace Allowance

variable (allowance : Allowance)

/-- The arms or branches, and the body for the case that none is chosen, are allowed. -/
def FitsArms (arms : List Arm) (otherwise : Option Block) : Prop :=
  (∀ arm ∈ arms, allowance.hands arm.condition ∧ allowance.block arm.body) ∧
    ∀ body ∈ otherwise, allowance.block body

/-- What an assignment to a target asks for. -/
def FitsTarget : Expr → Prop
  | .declaration _ name => allowance.binds name
  | .reference _ => True
  | .element base pos _ _ => allowance.hands base ∧ allowance.hands pos
  | .groupMember group _ => allowance.hands group
  | _ => allowance.fault .assignmentTarget

/-- What finding the function of a call asks for. -/
def FitsCallee : Expr → Prop
  | .functionName _ => True
  | .groupMember group _ => allowance.hands group
  | _ => allowance.fault .notCallable

/-- What evaluating an expression asks for. -/
def Fits : Expr → Prop
  | .binary op left right =>
    allowance.hands left ∧ allowance.hands right ∧
      (op.kind.level = 0 → ∀ fault, allowance.fault fault)
  | .unary _ operand => allowance.hands operand
  | .grouping inner _ _ => allowance.hands inner
  | .literal _ _ | .reference _ | .groupName _ => True
  | .context _ => allowance.reads
  | .declaration _ name => allowance.binds name
  | .assign target value => allowance.FitsTarget target ∧ allowance.hands value
  | .call callee args =>
    allowance.FitsCallee callee ∧ ∀ arg ∈ args, allowance.hands arg
  | .choice _ subject arms otherwise _ =>
    allowance.hands subject ∧ allowance.FitsArms arms otherwise
  | .block body => allowance.block body
  | .array _ items _ => ∀ item ∈ items, allowance.hands item.value
  | .object _ items _ => ∀ item ∈ items, allowance.hands item.expression
  | .element base pos _ _ => allowance.hands base ∧ allowance.hands pos
  | .push _ value _ => allowance.hands value
  | .interpolation _ parts _ => ∀ part ∈ parts, allowance.hands part
  | .groupMember group _ => allowance.hands group
  | .functionName _ => allowance.strays

/-- What evaluating an expression as a statement asks for. -/
def FitsOutcome : Expr → Prop
  | .block body => allowance.block body
  | .choice _ subject arms otherwise _ =>
    allowance.hands subject ∧ allowance.FitsArms arms otherwise
  | other => allowance.hands other

/-- A declaration is allowed. -/
def FitsDeclaration : Stmt → Prop
  | .function _ name params body => allowance.defines name params body
  | .group _ name body => allowance.group name body
  | .expression (.declaration _ name) => allowance.binds name
  | .expression (.assign (.declaration _ name) value) =>
    allowance.binds name ∧ allowance.hands value
  | _ => allowance.fault .publicKind

/-- What executing a statement asks for; an import is looked at apart. -/
def FitsStatement : Stmt → Prop
  | .expression value =>
    if value.declares then allowance.FitsDeclaration (.expression value)
    else allowance.FitsOutcome value
  | .conditional _ branches otherwise => allowance.FitsArms branches otherwise
  | .loop _ condition body => allowance.hands condition ∧ allowance.block body
  | .each _ item collection body => allowance.hands collection ∧ allowance.each item body
  | .function _ name params body => allowance.defines name params body
  | .group _ name body => allowance.group name body
  | .exported _ declaration => allowance.FitsDeclaration declaration
  | .leave _ | .use _ _ => True

/-- An allowance that includes everything. -/
structure IsLax : Prop where
  hands : ∀ expression, allowance.hands expression
  block : ∀ body, allowance.block body
  each : ∀ item body, allowance.each item body
  binds : ∀ name, allowance.binds name
  defines : ∀ name parameters body, allowance.defines name parameters body
  group : ∀ name body, allowance.group name body
  fault : ∀ fault, allowance.fault fault
  strays : allowance.strays
  reads : allowance.reads

/-- The allowance that allows everything. -/
def anything : Allowance where
  hands _ := True
  block _ := True
  each _ _ := True
  binds _ := True
  defines _ _ _ := True
  group _ _ := True
  fault _ := True
  strays := True
  possible _ _ := trivial

theorem anything_isLax : anything.IsLax := by
  constructor <;> simp [anything]

variable {allowance} (lax : allowance.IsLax)

include lax

theorem fitsArms_of_lax (arms : List Arm) (otherwise : Option Block) :
    allowance.FitsArms arms otherwise :=
  ⟨fun arm _ => ⟨lax.hands arm.condition, lax.block arm.body⟩, fun body _ => lax.block body⟩

theorem fits_of_lax (expr : Expr) : allowance.Fits expr := by
  cases expr with
  | assign target value =>
    refine ⟨?_, lax.hands value⟩
    cases target <;> simp [FitsTarget, lax.hands, lax.binds, lax.fault]
  | call callee args =>
    refine ⟨?_, fun arg _ => lax.hands arg⟩
    cases callee <;> simp [FitsCallee, lax.hands, lax.fault]
  | choice keyword subject arms otherwise closing =>
    exact ⟨lax.hands subject, fitsArms_of_lax lax arms otherwise⟩
  | _ => simp [Fits, lax.hands, lax.block, lax.binds, lax.fault, lax.strays, lax.reads]

theorem fitsDeclaration_of_lax (stmt : Stmt) : allowance.FitsDeclaration stmt := by
  unfold FitsDeclaration
  split <;> simp [lax.hands, lax.binds, lax.defines, lax.group, lax.fault]

theorem fitsStatement_of_lax (stmt : Stmt) : allowance.FitsStatement stmt := by
  cases stmt with
  | expression value =>
    simp only [FitsStatement]
    split
    · exact fitsDeclaration_of_lax lax _
    · cases value with
      | block body => exact lax.block body
      | choice keyword subject arms otherwise closing =>
        exact ⟨lax.hands subject, fitsArms_of_lax lax arms otherwise⟩
      | _ => exact lax.hands _
  | conditional keyword branches otherwise => exact fitsArms_of_lax lax branches otherwise
  | loop keyword condition body => exact ⟨lax.hands condition, lax.block body⟩
  | each keyword item collection body => exact ⟨lax.hands collection, lax.each item body⟩
  | function keyword name params body => exact lax.defines name params body
  | group keyword name body => exact lax.group name body
  | exported keyword declaration => exact fitsDeclaration_of_lax lax declaration
  | leave | use => trivial

omit lax

theorem anything_fits (expr : Expr) : anything.Fits expr :=
  fits_of_lax anything_isLax expr

theorem anything_fitsStatement (stmt : Stmt) : anything.FitsStatement stmt :=
  fitsStatement_of_lax anything_isLax stmt

end Allowance

end ArrowScript
