import ArrowScript.Proofs.Grammar.Contents

namespace ArrowScript

/-!
# The tokens stored in a syntax tree

Every node stores tokens it was read from.  They are listed here in the order in
which a script writes them: the value of an assignment or of a push in front of
its target, the operator of a binary expression between its operands, and
everything else in the order in which the node stores it.

The closing token of a body behind `=>` marks where the body stops.  It is the
last token read in the body, so the body may store that token elsewhere too.
Such `copies` are listed only on demand.
-/

/-- Kinds of tokens that carry the meaning of a script: names, constants and operators. -/
def contentKinds : List Kind :=
  [.number, .string, .identifier, .command, .atSign, .kwTrue, .kwFalse, .kwNull, .plus, .minus,
   .star, .slash, .equal, .notEqual, .less, .greater, .lessEqual, .greaterEqual, .ampersand, .bar]

/-- Tokens that carry the meaning of a script; a stretch of text does if it is not empty. -/
def Token.isContent (token : Token) : Bool :=
  contentKinds.contains token.kind || (token.kind = .text && !token.textValue.isEmpty)

/-- The tokens of a list that carry the meaning of a script. -/
def kept (tokens : List Token) : List Token :=
  tokens.filter Token.isContent

/-- A token if it carries the meaning of a script. -/
def Token.kept (token : Token) : List Token :=
  if token.isContent then [token] else []

@[simp]
theorem kept_nil : kept [] = [] :=
  rfl

@[simp]
theorem kept_cons (token : Token) (rest : List Token) :
    kept (token :: rest) = token.kept ++ kept rest := by
  cases isContent : token.isContent <;> simp [kept, Token.kept, isContent]

@[simp]
theorem kept_append (first second : List Token) :
    kept (first ++ second) = kept first ++ kept second :=
  List.filter_append first second

@[simp]
theorem kept_flatMap (parts : List α) (tokens : α → List Token) :
    kept (parts.flatMap tokens) = parts.flatMap fun part => kept (tokens part) :=
  List.filter_flatMap

section

variable (copies : Bool)

mutual

/-- The tokens stored in an expression. -/
@[simp]
def Expr.stored : Expr → List Token
  | .binary op left right => left.stored ++ [op] ++ right.stored
  | .unary op operand => [op] ++ operand.stored
  | .literal _ token => [token]
  | .grouping inner opening closing => inner.stored ++ [opening] ++ [closing]
  | .reference name => [name]
  | .declaration keyword name => [keyword] ++ [name]
  | .assign target value => value.stored ++ target.stored
  | .call callee args => callee.stored ++ Expr.listStored args
  | .choice keyword subject arms otherwise closing =>
    [keyword] ++ subject.stored ++ Arm.listStored arms ++
      Block.optionStored otherwise ++ [closing]
  | .context token => [token]
  | .block body => body.stored
  | .array opening items closing => [opening] ++ ArrayItem.listStored items ++ [closing]
  | .object opening items closing => [opening] ++ ObjectItem.listStored items ++ [closing]
  | .element base pos opening closing =>
    base.stored ++ pos.stored ++ [opening] ++ [closing]
  | .push target value closing => value.stored ++ [target] ++ [closing]
  | .interpolation opening parts closing =>
    [opening] ++ Expr.listStored parts ++ [closing]
  | .groupMember group name => group.stored ++ [name]
  | .groupName name => [name]
  | .functionName name => [name]

/-- The tokens stored in several expressions. -/
def Expr.listStored : List Expr → List Token
  | [] => []
  | expr :: rest => expr.stored ++ Expr.listStored rest

/-- The tokens stored in a block; the closing token of a body behind `=>` is a copy. -/
@[simp]
def Block.stored : Block → List Token
  | ⟨opening, stmts, closing⟩ =>
    [opening] ++ Stmt.listStored stmts ++
      (if opening.kind = .fatArrow && !copies then [] else [closing])

/-- The tokens stored in an optional last body. -/
@[simp]
def Block.optionStored : Option Block → List Token
  | none => []
  | some body => body.stored

@[simp]
def Arm.stored : Arm → List Token
  | ⟨condition, body⟩ => condition.stored ++ body.stored

def Arm.listStored : List Arm → List Token
  | [] => []
  | arm :: rest => arm.stored ++ Arm.listStored rest

/-- The tokens stored in an item of an array literal. -/
@[simp]
def ArrayItem.stored : ArrayItem → List Token
  | ⟨value, _⟩ => value.stored

/-- The tokens stored in the items of an array literal. -/
def ArrayItem.listStored : List ArrayItem → List Token
  | [] => []
  | item :: rest => item.stored ++ ArrayItem.listStored rest

/-- The tokens stored in an item of an object literal. -/
@[simp]
def ObjectItem.stored : ObjectItem → List Token
  | .entry _ token value => [token] ++ value.stored
  | .spread value => value.stored

/-- The tokens stored in the items of an object literal. -/
def ObjectItem.listStored : List ObjectItem → List Token
  | [] => []
  | item :: rest => item.stored ++ ObjectItem.listStored rest

/-- The tokens stored in a statement. -/
@[simp]
def Stmt.stored : Stmt → List Token
  | .expression value => value.stored
  | .conditional keyword branches otherwise =>
    [keyword] ++ Arm.listStored branches ++ Block.optionStored otherwise
  | .loop keyword condition body => [keyword] ++ condition.stored ++ body.stored
  | .each keyword item collection body =>
    [keyword] ++ [item] ++ collection.stored ++ body.stored
  | .function keyword name params body =>
    [keyword] ++ [name] ++ params ++ body.stored
  | .leave keyword => [keyword]
  | .use keyword path => [keyword] ++ [path]
  | .group keyword name body => [keyword] ++ [name] ++ body.stored
  | .exported keyword declaration => [keyword] ++ declaration.stored

/-- The tokens stored in several statements. -/
def Stmt.listStored : List Stmt → List Token
  | [] => []
  | stmt :: rest => stmt.stored ++ Stmt.listStored rest

end

end

variable {copies : Bool}

@[simp]
theorem Expr.listStored_eq_flatMap (parts : List Expr) :
    Expr.listStored copies parts = parts.flatMap (Expr.stored copies) :=
  eq_flatMap_of_cons rfl (fun _ _ => rfl) parts

@[simp]
theorem Arm.listStored_eq_flatMap (arms : List Arm) :
    Arm.listStored copies arms = arms.flatMap (Arm.stored copies) :=
  eq_flatMap_of_cons rfl (fun _ _ => rfl) arms

@[simp]
theorem ArrayItem.listStored_eq_flatMap (items : List ArrayItem) :
    ArrayItem.listStored copies items = items.flatMap (ArrayItem.stored copies) :=
  eq_flatMap_of_cons rfl (fun _ _ => rfl) items

@[simp]
theorem ObjectItem.listStored_eq_flatMap (items : List ObjectItem) :
    ObjectItem.listStored copies items = items.flatMap (ObjectItem.stored copies) :=
  eq_flatMap_of_cons rfl (fun _ _ => rfl) items

@[simp]
theorem Stmt.listStored_eq_flatMap (stmts : List Stmt) :
    Stmt.listStored copies stmts = stmts.flatMap (Stmt.stored copies) :=
  eq_flatMap_of_cons rfl (fun _ _ => rfl) stmts

end ArrowScript
