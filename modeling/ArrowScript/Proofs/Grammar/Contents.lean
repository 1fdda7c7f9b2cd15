import ArrowScript.Tree.Basic

namespace ArrowScript

/-!
# The contents of a syntax tree

The contents of a tree are the tokens that it keeps, in the order in which a
script writes them.  The value of an assignment or of a push stands in front of
its target, the operator of a binary expression between its operands, and the
value that a `break` leaves with in front of the arrow that its block starts at.

The closing token of a body behind `=>` is the last token read in the body.  It
is listed unless it is the last one of the contents in front of it anyway.
-/

/-- Tokens and a closing one, unless it is their last. -/
def closed (closing : Token) (inner : List Token) : List Token :=
  if inner.getLast? = some closing then inner else inner ++ [closing]

/-- A block that was read from `value -> break`. -/
def Block.isBreak : Block → Bool
  | ⟨opening, [.expression _, .leave keyword], closing⟩ =>
    opening.kind = .arrow && keyword = closing
  | _ => false

mutual

/-- The tokens that an expression keeps, as a script writes them. -/
@[simp]
def Expr.contents : Expr → List Token
  | .binary op left right => left.contents ++ op :: right.contents
  | .unary op operand => op :: operand.contents
  | .literal _ token => [token]
  | .grouping inner opening closing => opening :: (inner.contents ++ [closing])
  | .reference name => [name]
  | .declaration keyword name => [keyword, name]
  | .assign target value => value.contents ++ target.contents
  | .call callee args => callee.contents ++ Expr.listContents args
  | .choice keyword subject arms otherwise closing =>
    keyword :: (subject.contents ++
      (Arm.listContents arms ++ (Block.optionContents otherwise ++ [closing])))
  | .context token => [token]
  | .block body => body.contents
  | .array opening items closing => opening :: (ArrayItem.listContents items ++ [closing])
  | .object opening items closing => opening :: (ObjectItem.listContents items ++ [closing])
  | .element base pos opening closing =>
    base.contents ++ opening :: (pos.contents ++ [closing])
  | .push target value closing => value.contents ++ [target, closing]
  | .interpolation opening parts closing => opening :: (Expr.listContents parts ++ [closing])
  | .groupMember group name => group.contents ++ [name]
  | .groupName name => [name]
  | .functionName name => [name]

def Expr.listContents : List Expr → List Token
  | [] => []
  | expr :: rest => expr.contents ++ Expr.listContents rest

def Block.contents : Block → List Token
  | ⟨opening, [], closing⟩ => [opening, closing]
  | ⟨opening, first :: rest, closing⟩ =>
    if Block.isBreak ⟨opening, first :: rest, closing⟩ then
      first.contents ++ opening :: closed closing (Stmt.listContents rest)
    else
      opening :: closed closing (first.contents ++ Stmt.listContents rest)

@[simp]
def Block.optionContents : Option Block → List Token
  | none => []
  | some body => body.contents

@[simp]
def Arm.contents : Arm → List Token
  | ⟨condition, body⟩ => condition.contents ++ body.contents

def Arm.listContents : List Arm → List Token
  | [] => []
  | arm :: rest => arm.contents ++ Arm.listContents rest

@[simp]
def ArrayItem.contents : ArrayItem → List Token
  | ⟨value, _⟩ => value.contents

def ArrayItem.listContents : List ArrayItem → List Token
  | [] => []
  | item :: rest => item.contents ++ ArrayItem.listContents rest

@[simp]
def ObjectItem.contents : ObjectItem → List Token
  | .entry _ token value => token :: value.contents
  | .spread value => value.contents

def ObjectItem.listContents : List ObjectItem → List Token
  | [] => []
  | item :: rest => item.contents ++ ObjectItem.listContents rest

/-- The tokens that a statement keeps, as a script writes them. -/
@[simp]
def Stmt.contents : Stmt → List Token
  | .expression value => value.contents
  | .conditional keyword branches otherwise =>
    keyword :: (Arm.listContents branches ++ Block.optionContents otherwise)
  | .loop keyword condition body => keyword :: (condition.contents ++ body.contents)
  | .each keyword item collection body =>
    keyword :: item :: (collection.contents ++ body.contents)
  | .function keyword name params body => keyword :: name :: (params ++ body.contents)
  | .leave keyword => [keyword]
  | .use keyword path => [keyword, path]
  | .group keyword name body => keyword :: name :: body.contents
  | .exported keyword declaration => keyword :: declaration.contents

def Stmt.listContents : List Stmt → List Token
  | [] => []
  | stmt :: rest => stmt.contents ++ Stmt.listContents rest

end

/-- A function that treats a list part by part maps the parts and joins the results. -/
theorem eq_flatMap_of_cons {whole : List α → List β} {part : α → List β}
    (nil : whole [] = [])
    (cons : ∀ head rest, whole (head :: rest) = part head ++ whole rest) (parts : List α) :
    whole parts = parts.flatMap part := by
  induction parts with
  | nil =>
    exact nil
  | cons head rest ih =>
    rw [cons, ih, List.flatMap_cons]

@[simp]
theorem Expr.listContents_eq_flatMap (parts : List Expr) :
    Expr.listContents parts = parts.flatMap Expr.contents :=
  eq_flatMap_of_cons rfl (fun _ _ => rfl) parts

@[simp]
theorem Arm.listContents_eq_flatMap (arms : List Arm) :
    Arm.listContents arms = arms.flatMap Arm.contents :=
  eq_flatMap_of_cons rfl (fun _ _ => rfl) arms

@[simp]
theorem ArrayItem.listContents_eq_flatMap (items : List ArrayItem) :
    ArrayItem.listContents items = items.flatMap ArrayItem.contents :=
  eq_flatMap_of_cons rfl (fun _ _ => rfl) items

@[simp]
theorem ObjectItem.listContents_eq_flatMap (items : List ObjectItem) :
    ObjectItem.listContents items = items.flatMap ObjectItem.contents :=
  eq_flatMap_of_cons rfl (fun _ _ => rfl) items

@[simp]
theorem Stmt.listContents_eq_flatMap (stmts : List Stmt) :
    Stmt.listContents stmts = stmts.flatMap Stmt.contents :=
  eq_flatMap_of_cons rfl (fun _ _ => rfl) stmts

theorem sublist_closed (closing : Token) (inner : List Token) :
    inner.Sublist (closed closing inner) := by
  unfold closed
  split
  · exact .refl inner
  · exact List.sublist_append_left inner [closing]

theorem sublist_front {closing : Token} {inner front : List Token}
    (inside : inner.Sublist (front ++ [closing])) (notLast : inner.getLast? ≠ some closing) :
    inner.Sublist front := by
  obtain ⟨own, others, rfl, ownInside, othersInside⟩ := List.sublist_append_iff.mp inside
  cases othersInside with
  | cons _ nothing =>
    cases nothing
    rwa [List.append_nil]
  | cons_cons _ nothing =>
    cases nothing
    simp at notLast

theorem closed_sublist {closing : Token} {inner tokens : List Token} (inside : inner.Sublist tokens)
    (isLast : tokens.getLast? = some closing) : (closed closing inner).Sublist tokens := by
  obtain ⟨front, rfl⟩ := List.getLast?_eq_some_iff.mp isLast
  unfold closed
  split
  · exact inside
  · exact (sublist_front inside ‹_›).append (.refl [closing])

theorem Block.statements_sublist (block : Block) :
    (block.statements.flatMap Stmt.contents).Sublist block.contents := by
  obtain ⟨opening, stmts, closing⟩ := block
  cases stmts with
  | nil => exact List.nil_sublist _
  | cons first rest =>
    rw [Block.contents, Stmt.listContents_eq_flatMap, List.flatMap_cons]
    split
    · exact (List.Sublist.refl _).append ((sublist_closed _ _).cons opening)
    · exact (sublist_closed _ _).cons opening

/-- A block that starts at a brace or at `=>` is written in the order of its parts. -/
theorem Block.contents_of_opening {opening : Token} (stmts : List Stmt) (closing : Token)
    (notBreak : opening.kind ≠ .arrow) : Block.contents ⟨opening, stmts, closing⟩ =
      opening :: closed closing (stmts.flatMap Stmt.contents) := by
  cases stmts with
  | nil => rfl
  | cons first rest =>
    have ordered : Block.isBreak ⟨opening, first :: rest, closing⟩ = false := by
      unfold Block.isBreak
      split <;> simp_all
    rw [Block.contents, if_neg (by simp [ordered]), Stmt.listContents_eq_flatMap,
      List.flatMap_cons]

/-- The value that a `break` leaves with is written in front of the block. -/
theorem Block.contents_break {arrow : Token} (value : Expr) (keyword : Token)
    (isArrow : arrow.kind = .arrow) :
    Block.contents ⟨arrow, [.expression value, .leave keyword], keyword⟩ =
      value.contents ++ [arrow, keyword] := by
  simp [Block.contents, Block.isBreak, isArrow, closed]

end ArrowScript
