import ArrowScript.Tree.Basic

namespace ArrowScript

/-!
# The form of a syntax tree

Binary operators bind at six levels, loosest first.  Unary operators bind
tighter than all of them, and every other expression is tightest.  A tree is
well formed when each operand binds as tight as its place demands, and when
names of groups, names of functions and members that are functions stand only
where they can be used.

A text with errors may still have a tree.  What the grammar reports without
giving up a statement is therefore asked for only of a `clean` text: that
`public` stands in front of declarations, and that the body of a group declares
and imports.
-/

/-- How tight a binary operator binds; zero for everything that is none. -/
def Kind.level : Kind → Nat
  | .bar => 1
  | .ampersand => 2
  | .equal | .notEqual => 3
  | .less | .greater | .lessEqual | .greaterEqual => 4
  | .plus | .minus => 5
  | .star | .slash => 6
  | _ => 0

theorem Kind.level_le (kind : Kind) : kind.level ≤ 6 := by
  cases kind <;> decide

/-- How tightly an expression binds. -/
def Expr.level : Expr → Nat
  | .binary op _ _ => op.kind.level
  | .unary _ _ => 7
  | _ => 8

/-- What an expression is used for by the expression around it. -/
inductive Role
  /-- Its value is needed. -/
  | value
  /-- It is the group in front of `::`. -/
  | base
  /-- It names the function that a call runs. -/
  | callee
deriving DecidableEq

/-- Expressions that can stand behind the arrow of an assignment. -/
def Expr.IsTarget : Expr → Prop
  | .declaration _ _ | .reference _ | .element _ _ _ _ | .groupMember _ _ => True
  | _ => False

/-- Statements that can stand in the body of a group. -/
def Stmt.IsMember : Stmt → Prop
  | .exported _ _ => True
  | statement => statement.declares ∨ statement.imports

section

variable (clean : Prop)

mutual

/-- An expression is well formed for what it is used for. -/
def Expr.Formed : Role → Expr → Prop
  | role, .binary op left right =>
    role = .value ∧ op.kind.level ≠ 0 ∧
      op.kind.level ≤ left.level ∧ op.kind.level < right.level ∧
      left.Formed .value ∧ right.Formed .value
  | role, .unary _ operand => role = .value ∧ 7 ≤ operand.level ∧ operand.Formed .value
  | role, .literal _ _ => role ≠ .callee
  | role, .grouping inner _ _ => role ≠ .callee ∧ inner.Formed .value
  | role, .reference _ => role = .value
  | role, .declaration _ _ => role ≠ .callee
  | role, .assign target value =>
    role ≠ .callee ∧ target.IsTarget ∧ target.Formed .value ∧ value.Formed .value
  | role, .call callee args =>
    role ≠ .callee ∧ callee.Formed .callee ∧ Expr.ListFormed args
  | role, .choice _ subject arms otherwise _ =>
    role ≠ .callee ∧ subject.Formed .value ∧ Arm.ListFormed arms ∧
      Block.OptionFormed otherwise
  | role, .context _ => role ≠ .callee
  | role, .block body => role ≠ .callee ∧ body.Formed
  | role, .array _ items _ => role ≠ .callee ∧ ArrayItem.ListFormed items
  | role, .object _ items _ => role ≠ .callee ∧ ObjectItem.ListFormed items
  | role, .element base pos _ _ =>
    role ≠ .callee ∧ base.level = 8 ∧ base.Formed .value ∧ pos.Formed .value
  | role, .push _ value _ => role ≠ .callee ∧ value.Formed .value
  | role, .interpolation _ parts _ => role ≠ .callee ∧ Expr.ListFormed parts
  | role, .groupMember group name =>
    (role = .callee ↔ name.kind = .command) ∧ group.level = 8 ∧ group.Formed .base
  | role, .groupName _ => role = .base
  | role, .functionName _ => role = .callee

/-- Several expressions whose values are needed. -/
def Expr.ListFormed : List Expr → Prop
  | [] => True
  | expr :: rest => expr.Formed .value ∧ Expr.ListFormed rest

def Block.Formed : Block → Prop
  | ⟨_, stmts, _⟩ => Stmt.ListFormed stmts

/-- An optional last body is well formed. -/
def Block.OptionFormed : Option Block → Prop
  | none => True
  | some body => body.Formed

def Arm.Formed : Arm → Prop
  | ⟨condition, body⟩ => condition.Formed .value ∧ body.Formed

def Arm.ListFormed : List Arm → Prop
  | [] => True
  | arm :: rest => arm.Formed ∧ Arm.ListFormed rest

/-- An item of an array literal is well formed. -/
def ArrayItem.Formed : ArrayItem → Prop
  | ⟨value, _⟩ => value.Formed .value

/-- The items of an array literal are well formed. -/
def ArrayItem.ListFormed : List ArrayItem → Prop
  | [] => True
  | item :: rest => item.Formed ∧ ArrayItem.ListFormed rest

/-- An item of an object literal is well formed. -/
def ObjectItem.Formed : ObjectItem → Prop
  | .entry _ _ value => value.Formed .value
  | .spread value => value.Formed .value

/-- The items of an object literal are well formed. -/
def ObjectItem.ListFormed : List ObjectItem → Prop
  | [] => True
  | item :: rest => item.Formed ∧ ObjectItem.ListFormed rest

/-- A statement has a form that can be read. -/
def Stmt.Formed : Stmt → Prop
  | .expression value => value.Formed .value
  | .conditional _ branches otherwise =>
    Arm.ListFormed branches ∧ Block.OptionFormed otherwise
  | .loop _ condition body => condition.Formed .value ∧ body.Formed
  | .each _ _ collection body => collection.Formed .value ∧ body.Formed
  | .function _ _ _ body => body.Formed
  | .leave _ => True
  | .use _ _ => True
  | .group _ _ body => body.Formed ∧ (clean → ∀ inner ∈ body.statements, inner.IsMember)
  | .exported _ declaration => declaration.Formed ∧ (clean → declaration.declares)

def Stmt.ListFormed : List Stmt → Prop
  | [] => True
  | statement :: rest => statement.Formed ∧ Stmt.ListFormed rest

end

end

/-- A property that a list has part by part holds of all its parts. -/
private theorem iff_forall_of_cons {whole : List α → Prop} {part : α → Prop}
    (nil : whole [] ↔ True)
    (cons : ∀ head rest, whole (head :: rest) ↔ part head ∧ whole rest) (parts : List α) :
    whole parts ↔ ∀ item ∈ parts, part item := by
  induction parts with
  | nil => simp [nil]
  | cons head rest ih => rw [cons, ih, List.forall_mem_cons]

variable {clean : Prop}

theorem Expr.listFormed_iff (parts : List Expr) :
    Expr.ListFormed clean parts ↔ ∀ part ∈ parts, part.Formed clean .value :=
  iff_forall_of_cons Iff.rfl (fun _ _ => Iff.rfl) parts

theorem Arm.listFormed_iff (arms : List Arm) :
    Arm.ListFormed clean arms ↔ ∀ arm ∈ arms, arm.Formed clean :=
  iff_forall_of_cons Iff.rfl (fun _ _ => Iff.rfl) arms

theorem ArrayItem.listFormed_iff (items : List ArrayItem) :
    ArrayItem.ListFormed clean items ↔ ∀ item ∈ items, item.Formed clean :=
  iff_forall_of_cons Iff.rfl (fun _ _ => Iff.rfl) items

theorem ObjectItem.listFormed_iff (items : List ObjectItem) :
    ObjectItem.ListFormed clean items ↔ ∀ item ∈ items, item.Formed clean :=
  iff_forall_of_cons Iff.rfl (fun _ _ => Iff.rfl) items

theorem Stmt.listFormed_iff (stmts : List Stmt) :
    Stmt.ListFormed clean stmts ↔ ∀ stmt ∈ stmts, stmt.Formed clean :=
  iff_forall_of_cons Iff.rfl (fun _ _ => Iff.rfl) stmts

theorem Block.formed_iff (body : Block) :
    body.Formed clean ↔ ∀ stmt ∈ body.statements, stmt.Formed clean := by
  cases body with
  | mk opening stmts closing => exact Stmt.listFormed_iff stmts

end ArrowScript
