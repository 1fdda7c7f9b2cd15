import ArrowScript.Tree.Record
import Mathlib.Data.List.Forall2

namespace ArrowScript

/-!
# Documents tell trees apart

The document of a tree keeps everything but the offsets of its tokens.  The name
in front of a record tells the shape of its node, and the fields behind it tell
its parts; a part of a node is an expression, a token, a list of parts of one
kind, a flag or a plain value, and which of these it is depends on the shape.
-/

namespace Document

/-- Equality of data: fields of a record are found by their names, in whatever order they stand. -/
inductive Equal : Document → Document → Prop
  | null : Equal .null .null
  | bool (value : Bool) : Equal (.bool value) (.bool value)
  | count (value : Nat) : Equal (.count value) (.count value)
  | number (value : Float) : Equal (.number value) (.number value)
  | text (value : String) : Equal (.text value) (.text value)
  | list {first second : List Document} : List.Forall₂ Equal first second →
      Equal (.list first) (.list second)
  | record {first second : List (String × Document)} :
      (∀ name, Option.Rel Equal (first.lookup name) (second.lookup name)) →
      Equal (.record first) (.record second)

mutual

theorem Equal.refl : ∀ document : Document, Equal document document
  | .null => .null
  | .bool value => .bool value
  | .count value => .count value
  | .number value => .number value
  | .text value => .text value
  | .list items => .list (Equal.refl_items items)
  | .record fields => .record fun name => Equal.refl_field name fields

theorem Equal.refl_items : ∀ items : List Document, List.Forall₂ Equal items items
  | [] => .nil
  | item :: rest => .cons (Equal.refl item) (Equal.refl_items rest)

theorem Equal.refl_field (name : String) : ∀ fields : List (String × Document),
    Option.Rel Equal (fields.lookup name) (fields.lookup name)
  | [] => .none
  | (other, value) :: rest => by
    rw [List.lookup_cons]
    split
    · exact .some (Equal.refl value)
    · exact Equal.refl_field name rest

end

namespace Equal

theorem part {fields others : List (String × Document)}
    (same : Equal (.record fields) (.record others)) (name : String) :
    Equal ((fields.lookup name).getD .null) ((others.lookup name).getD .null) := by
  cases same with
  | record same =>
    have here := same name
    generalize fields.lookup name = first, others.lookup name = second at here ⊢
    cases here with
    | none => exact .null
    | some same => exact same

theorem text_eq {text other : String} : Equal (.text text) (.text other) → text = other
  | .text _ => rfl

theorem count_eq {count other : Nat} : Equal (.count count) (.count other) → count = other
  | .count _ => rfl

theorem items {items more : List Document} :
    Equal (.list items) (.list more) → List.Forall₂ Equal items more
  | .list same => same

/-- The name in front of a record tells the shape of its node. -/
theorem index_eq {document : α → Document} {index : α → Nat} {one other : α}
    (same : Equal (document one) (document other)) (shapeOf : String → Nat)
    (shaped : ∀ node, ∃ label fields,
      document node = .shaped label fields ∧ index node = shapeOf label) :
    index one = index other := by
  obtain ⟨_, _, firstShape, isFirst⟩ := shaped one
  obtain ⟨_, _, secondShape, isSecond⟩ := shaped other
  rw [firstShape, secondShape] at same
  cases same.part "type"
  rw [isFirst, isSecond]

end Equal

end Document

/-- A token without its offset, which documents leave out. -/
def Token.bare (token : Token) : Token :=
  { token with start := ⟨0, token.start.line, token.start.column⟩ }

mutual

/-- An expression whose tokens have no offsets. -/
def Expr.bare : Expr → Expr
  | .binary op left right => .binary op.bare left.bare right.bare
  | .unary op operand => .unary op.bare operand.bare
  | .literal value token => .literal value token.bare
  | .grouping inner opening closing => .grouping inner.bare opening.bare closing.bare
  | .reference name => .reference name.bare
  | .declaration keyword name => .declaration keyword.bare name.bare
  | .assign target value => .assign target.bare value.bare
  | .call callee args => .call callee.bare (Expr.listBare args)
  | .choice keyword subject arms otherwise closing =>
    .choice keyword.bare subject.bare (Arm.listBare arms) (Block.optionBare otherwise) closing.bare
  | .context token => .context token.bare
  | .block body => .block body.bare
  | .array opening items closing => .array opening.bare (ArrayItem.listBare items) closing.bare
  | .object opening items closing => .object opening.bare (ObjectItem.listBare items) closing.bare
  | .element base pos opening closing =>
    .element base.bare pos.bare opening.bare closing.bare
  | .push target value closing => .push target.bare value.bare closing.bare
  | .interpolation opening parts closing =>
    .interpolation opening.bare (Expr.listBare parts) closing.bare
  | .groupMember group name => .groupMember group.bare name.bare
  | .groupName name => .groupName name.bare
  | .functionName name => .functionName name.bare

def Expr.listBare : List Expr → List Expr
  | [] => []
  | expr :: rest => expr.bare :: Expr.listBare rest

def Block.bare : Block → Block
  | ⟨opening, stmts, closing⟩ => ⟨opening.bare, Stmt.listBare stmts, closing.bare⟩

def Block.optionBare : Option Block → Option Block
  | none => none
  | some body => some body.bare

def Arm.bare : Arm → Arm
  | ⟨condition, body⟩ => ⟨condition.bare, body.bare⟩

def Arm.listBare : List Arm → List Arm
  | [] => []
  | arm :: rest => arm.bare :: Arm.listBare rest

def ArrayItem.bare : ArrayItem → ArrayItem
  | ⟨value, spread⟩ => ⟨value.bare, spread⟩

def ArrayItem.listBare : List ArrayItem → List ArrayItem
  | [] => []
  | item :: rest => item.bare :: ArrayItem.listBare rest

def ObjectItem.bare : ObjectItem → ObjectItem
  | .entry key token value => .entry key token.bare value.bare
  | .spread value => .spread value.bare

def ObjectItem.listBare : List ObjectItem → List ObjectItem
  | [] => []
  | item :: rest => item.bare :: ObjectItem.listBare rest

/-- A statement with bare tokens. -/
def Stmt.bare : Stmt → Stmt
  | .expression value => .expression value.bare
  | .conditional keyword branches otherwise =>
    .conditional keyword.bare (Arm.listBare branches) (Block.optionBare otherwise)
  | .loop keyword condition body => .loop keyword.bare condition.bare body.bare
  | .each keyword item collection body =>
    .each keyword.bare item.bare collection.bare body.bare
  | .function keyword name params body =>
    .function keyword.bare name.bare (params.map Token.bare) body.bare
  | .leave keyword => .leave keyword.bare
  | .use keyword path => .use keyword.bare path.bare
  | .group keyword name body => .group keyword.bare name.bare body.bare
  | .exported keyword declaration => .exported keyword.bare declaration.bare

def Stmt.listBare : List Stmt → List Stmt
  | [] => []
  | stmt :: rest => stmt.bare :: Stmt.listBare rest

end

open Document (Equal)

theorem Kind.name_injective {first second : Kind} (same : first.name = second.name) :
    first = second := by
  have back : ∀ kind : Kind,
      Kind.ofNat (((List.range 51).map fun index => (Kind.ofNat index).name).idxOf kind.name) =
        kind := by
    intro kind
    cases kind <;> decide +kernel
  rw [← back first, same, back second]

theorem Constant.eq_of_equal {first second : Constant}
    (same : Equal first.document second.document) :
    first = second := by
  cases first <;> cases second <;> cases same <;> rfl

theorem TokenValue.eq_of_equal : ∀ {first second : TokenValue},
    Option.Rel Equal (first.fields.lookup "value") (second.fields.lookup "value") → first = second
  | .none, .none, _ => rfl
  | .none, .text _, same => nomatch same
  | .none, .number _, same => nomatch same
  | .text _, .none, same => nomatch same
  | .text _, .text _, .some (.text _) => rfl
  | .number _, .none, same => nomatch same
  | .number _, .number _, .some (.number _) => rfl

theorem Token.bare_of_equal {first second : Token} (same : Equal first.document second.document) :
    first.bare = second.bare := by
  have kinds := Kind.name_injective (same.part "token").text_eq
  have lexemes := (same.part "lexeme").text_eq
  have lines := (same.part "line").count_eq
  have columns := (same.part "column").count_eq
  cases same with
  | record same =>
    have values := TokenValue.eq_of_equal (same "value")
    rw [Token.bare, Token.bare, kinds, lexemes, lines, columns, values]

theorem Token.map_bare_of_equal : ∀ {first second : List Token},
    List.Forall₂ Equal (first.map document) (second.map document) →
      first.map bare = second.map bare
  | [], [], _ => rfl
  | _ :: _, _ :: _, .cons same more => by
    rw [List.map_cons, List.map_cons, bare_of_equal same, map_bare_of_equal more]

/-- The place of a shape among the shapes of expressions; an assignment's target tells its name. -/
def Expr.shapeOf (label : String) : Nat :=
  [["Binary"], ["Unary"], ["Literal"], ["Grouping"], ["Variable"], ["VariableDeclaration"],
    ["DeclarationAssign", "VariableAssign", "IndexAssign", "GroupMemberAssign", "Assign"],
    ["Call"], ["Match"], ["ContextValue"], ["Block"], ["ArrayLiteral"], ["ObjectLiteral"],
    ["Index"], ["Push"], ["InterpolatedString"], ["GroupAccess"], ["GroupRef"],
    ["FunctionRef"]].findIdx fun labels => labels.contains label

theorem Expr.ctorIdx_of_equal {first second : Expr} (same : Equal first.document second.document) :
    first.ctorIdx = second.ctorIdx := by
  refine same.index_eq shapeOf fun expr => ?_
  cases expr with
  | block body =>
    cases body
    exact ⟨_, _, rfl, rfl⟩
  | assign target value => cases target <;> exact ⟨_, _, rfl, rfl⟩
  | _ => exact ⟨_, _, rfl, rfl⟩

/-- The place of a shape among the shapes of statements. -/
def Stmt.shapeOf (label : String) : Nat :=
  ["ExpressionStmt", "If", "While", "Each", "FunctionDeclaration", "Break", "Use",
    "GroupDeclaration", "Public"].idxOf label

theorem Stmt.ctorIdx_of_equal {first second : Stmt} (same : Equal first.document second.document) :
    first.ctorIdx = second.ctorIdx := by
  refine same.index_eq shapeOf fun stmt => ?_
  cases stmt <;> exact ⟨_, _, rfl, rfl⟩

mutual

theorem Expr.bare_of_equal {first second : Expr} (same : Equal first.document second.document) :
    first.bare = second.bare := by
  have shape := Expr.ctorIdx_of_equal same
  cases first <;> cases second <;> try cases shape
  all_goals rw [Expr.bare, Expr.bare]
  case binary.binary =>
    rw [Token.bare_of_equal (same.part "operator"), Expr.bare_of_equal (same.part "left"),
      Expr.bare_of_equal (same.part "right")]
  case unary.unary =>
    rw [Token.bare_of_equal (same.part "operator"), Expr.bare_of_equal (same.part "right")]
  case literal.literal =>
    rw [Constant.eq_of_equal (same.part "value"), Token.bare_of_equal (same.part "token")]
  case grouping.grouping =>
    rw [Expr.bare_of_equal (same.part "expression"), Token.bare_of_equal (same.part "open"),
      Token.bare_of_equal (same.part "close")]
  case reference.reference =>
    rw [Token.bare_of_equal (same.part "name")]
  case declaration.declaration =>
    rw [Token.bare_of_equal (same.part "keyword"), Token.bare_of_equal (same.part "name")]
  case assign.assign =>
    rw [Expr.bare_of_equal (same.part "target"), Expr.bare_of_equal (same.part "value")]
  case call.call =>
    rw [Expr.bare_of_equal (same.part "callee"),
      Expr.listBare_of_equal (same.part "arguments").items]
  case choice.choice =>
    rw [Token.bare_of_equal (same.part "keyword"), Expr.bare_of_equal (same.part "value"),
      Arm.listBare_of_equal (same.part "arms").items,
      Block.optionBare_of_equal (same.part "else_body"), Token.bare_of_equal (same.part "close")]
  case context.context =>
    rw [Token.bare_of_equal (same.part "token")]
  case block.block =>
    rw [Block.bare_of_equal same]
  case array.array =>
    rw [Token.bare_of_equal (same.part "open"),
      ArrayItem.listBare_of_equal (same.part "items").items,
      Token.bare_of_equal (same.part "close")]
  case object.object =>
    rw [Token.bare_of_equal (same.part "open"),
      ObjectItem.listBare_of_equal (same.part "items").items,
      Token.bare_of_equal (same.part "close")]
  case element.element =>
    rw [Expr.bare_of_equal (same.part "expression"), Expr.bare_of_equal (same.part "index"),
      Token.bare_of_equal (same.part "open"), Token.bare_of_equal (same.part "close")]
  case push.push =>
    rw [Token.bare_of_equal (same.part "target"), Expr.bare_of_equal (same.part "value"),
      Token.bare_of_equal (same.part "close")]
  case interpolation.interpolation =>
    rw [Token.bare_of_equal (same.part "open"), Expr.listBare_of_equal (same.part "parts").items,
      Token.bare_of_equal (same.part "close")]
  case groupMember.groupMember =>
    rw [Expr.bare_of_equal (same.part "group"), Token.bare_of_equal (same.part "name")]
  case groupName.groupName =>
    rw [Token.bare_of_equal (same.part "name")]
  case functionName.functionName =>
    rw [Token.bare_of_equal (same.part "name")]
termination_by structural first

theorem Expr.listBare_of_equal : ∀ {first second : List Expr},
    List.Forall₂ Equal (Expr.documents first) (Expr.documents second) →
      Expr.listBare first = Expr.listBare second
  | [], [], _ => rfl
  | _ :: _, _ :: _, .cons same more => by
    rw [Expr.listBare, Expr.listBare, Expr.bare_of_equal same, Expr.listBare_of_equal more]
termination_by structural first => first

theorem Block.bare_of_equal {first second : Block} (same : Equal first.document second.document) :
    first.bare = second.bare := by
  cases first
  cases second
  rw [Block.bare, Block.bare, Token.bare_of_equal (same.part "open"),
    Stmt.listBare_of_equal (same.part "statements").items, Token.bare_of_equal (same.part "close")]
termination_by structural first

theorem Block.optionBare_of_equal : ∀ {first second : Option Block},
    Equal (Block.optionDocument first) (Block.optionDocument second) →
      Block.optionBare first = Block.optionBare second
  | none, none, _ => rfl
  | some ⟨_, _, _⟩, none, same => nomatch same
  | none, some ⟨_, _, _⟩, same => nomatch same
  | some _, some _, same => by
    rw [Block.optionBare, Block.optionBare, Block.bare_of_equal same]
termination_by structural first => first

theorem Arm.bare_of_equal {label : String} {first second : Arm}
    (same : Equal (first.document label) (second.document label)) : first.bare = second.bare := by
  cases first
  cases second
  rw [Arm.bare, Arm.bare, Expr.bare_of_equal (same.part "condition"),
    Block.bare_of_equal (same.part "body")]
termination_by structural first

theorem Arm.listBare_of_equal {label : String} : ∀ {first second : List Arm},
    List.Forall₂ Equal (Arm.documents label first) (Arm.documents label second) →
      Arm.listBare first = Arm.listBare second
  | [], [], _ => rfl
  | _ :: _, _ :: _, .cons same more => by
    rw [Arm.listBare, Arm.listBare, Arm.bare_of_equal same, Arm.listBare_of_equal more]
termination_by structural first => first

theorem ArrayItem.bare_of_equal {first second : ArrayItem}
    (same : Equal first.document second.document) : first.bare = second.bare := by
  cases first
  cases second
  cases same.part "spread"
  rw [ArrayItem.bare, ArrayItem.bare, Expr.bare_of_equal (same.part "expression")]
termination_by structural first

theorem ArrayItem.listBare_of_equal : ∀ {first second : List ArrayItem},
    List.Forall₂ Equal (ArrayItem.documents first) (ArrayItem.documents second) →
      ArrayItem.listBare first = ArrayItem.listBare second
  | [], [], _ => rfl
  | _ :: _, _ :: _, .cons same more => by
    rw [ArrayItem.listBare, ArrayItem.listBare, ArrayItem.bare_of_equal same,
      ArrayItem.listBare_of_equal more]
termination_by structural first => first

theorem ObjectItem.bare_of_equal : ∀ {first second : ObjectItem},
    Equal first.document second.document → first.bare = second.bare
  | .entry .., .entry .., same => by
    have key := same.part "key"
    rw [ObjectItem.bare, ObjectItem.bare, Constant.eq_of_equal (key.part "value"),
      Token.bare_of_equal (key.part "token"), Expr.bare_of_equal (same.part "value")]
  | .entry .., .spread _, same => nomatch same.part "key"
  | .spread _, .entry .., same => nomatch same.part "key"
  | .spread _, .spread _, same => by
    rw [ObjectItem.bare, ObjectItem.bare, Expr.bare_of_equal (same.part "value")]
termination_by structural first => first

theorem ObjectItem.listBare_of_equal : ∀ {first second : List ObjectItem},
    List.Forall₂ Equal (ObjectItem.documents first) (ObjectItem.documents second) →
      ObjectItem.listBare first = ObjectItem.listBare second
  | [], [], _ => rfl
  | _ :: _, _ :: _, .cons same more => by
    rw [ObjectItem.listBare, ObjectItem.listBare, ObjectItem.bare_of_equal same,
      ObjectItem.listBare_of_equal more]
termination_by structural first => first

theorem Stmt.bare_of_equal {first second : Stmt} (same : Equal first.document second.document) :
    first.bare = second.bare := by
  have shape := Stmt.ctorIdx_of_equal same
  cases first <;> cases second <;> try cases shape
  all_goals rw [Stmt.bare, Stmt.bare]
  case expression.expression =>
    rw [Expr.bare_of_equal (same.part "expression")]
  case conditional.conditional =>
    rw [Token.bare_of_equal (same.part "keyword"),
      Arm.listBare_of_equal (same.part "branches").items,
      Block.optionBare_of_equal (same.part "else_body")]
  case loop.loop =>
    rw [Token.bare_of_equal (same.part "keyword"), Expr.bare_of_equal (same.part "condition"),
      Block.bare_of_equal (same.part "body")]
  case each.each =>
    rw [Token.bare_of_equal (same.part "keyword"), Token.bare_of_equal (same.part "variable"),
      Expr.bare_of_equal (same.part "collection"), Block.bare_of_equal (same.part "body")]
  case function.function =>
    rw [Token.bare_of_equal (same.part "keyword"), Token.bare_of_equal (same.part "name"),
      Token.map_bare_of_equal (same.part "params").items, Block.bare_of_equal (same.part "body")]
  case leave.leave =>
    rw [Token.bare_of_equal (same.part "keyword")]
  case use.use =>
    rw [Token.bare_of_equal (same.part "keyword"), Token.bare_of_equal (same.part "path")]
  case group.group =>
    rw [Token.bare_of_equal (same.part "keyword"), Token.bare_of_equal (same.part "name"),
      Block.bare_of_equal (same.part "body")]
  case exported.exported =>
    rw [Token.bare_of_equal (same.part "keyword"), Stmt.bare_of_equal (same.part "declaration")]
termination_by structural first

theorem Stmt.listBare_of_equal : ∀ {first second : List Stmt},
    List.Forall₂ Equal (Stmt.documents first) (Stmt.documents second) →
      Stmt.listBare first = Stmt.listBare second
  | [], [], _ => rfl
  | _ :: _, _ :: _, .cons same more => by
    rw [Stmt.listBare, Stmt.listBare, Stmt.bare_of_equal same, Stmt.listBare_of_equal more]
termination_by structural first => first

end

/--
Documents tell programs apart.  Statements whose documents are equal are equal
node by node, up to the offsets of their tokens.
-/
theorem programDocument_faithful
    {first second : List Stmt}
    (same : Equal (programDocument first) (programDocument second)) :
    Stmt.listBare first = Stmt.listBare second :=
  Stmt.listBare_of_equal (same.part "body").items

/-- A literal with a spread inside a branch, behind lines of different lengths. -/
theorem programDocument_faithful_for_spread :
    let program (start : Nat) : List Stmt :=
      let token (kind : Kind) (text : String) (column : Nat) : Token :=
        ⟨kind, text, ⟨start + column, 2, column + 1⟩, .none⟩
      let one : Token := ⟨.number, "1", ⟨start + 18, 2, 19⟩, .number 1⟩
      let items : List ArrayItem :=
        [⟨.reference (token .identifier "xs" 14), true⟩, ⟨.literal (.number 1) one, false⟩]
      let array : Expr := .array (token .bracketOpen "[" 10) items (token .bracketClose "]" 19)
      let body : Block :=
        ⟨token .braceOpen "\x7b" 8, [.expression array], token .braceClose "\x7d" 21⟩
      [.conditional (token .kwIf "if" 0)
        [⟨.literal (.bool true) (token .kwTrue "true" 3), body⟩] none]
    Equal (programDocument (program 4)) (programDocument (program 9)) ∧
      Stmt.listBare (program 4) = Stmt.listBare (program 9) := by
  intro program
  have same : Equal (programDocument (program 4)) (programDocument (program 9)) := .refl _
  exact ⟨same, programDocument_faithful same⟩

end ArrowScript
