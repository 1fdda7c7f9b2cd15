import ArrowScript.Document
import ArrowScript.Tree.Node

namespace ArrowScript

/-!
# Syntax trees as documents

Every node becomes a record that starts with the name of its shape and goes on
with its parts.  Tokens keep kind, text, line, column and value; their offsets
are left out.
-/

def Constant.document : Constant → Document
  | .null => .null
  | .bool value => .bool value
  | .number value => .number value
  | .text value => .text value

def TokenValue.fields : TokenValue → List (String × Document)
  | .none => []
  | .text value => [("value", .text value)]
  | .number value => [("value", .number value)]

def Token.document (token : Token) : Document :=
  .record
    ([("token", .text token.kind.name), ("lexeme", .text token.lexeme),
      ("line", .count token.start.line), ("column", .count token.start.column)] ++
      token.value.fields)

/-- A record that names its shape. -/
def Document.shaped (label : String) (fields : List (String × Document)) : Document :=
  .record (("type", .text label) :: fields)

def Constant.literalDocument (value : Constant) (token : Token) : Document :=
  .shaped "Literal" [("value", value.document), ("token", token.document)]

mutual

def Expr.document : Expr → Document
  | .binary op left right =>
      .shaped "Binary"
        [("operator", op.document), ("left", left.document), ("right", right.document)]
  | .unary op operand =>
      .shaped "Unary" [("operator", op.document), ("right", operand.document)]
  | .literal value token => value.literalDocument token
  | .grouping inner opening closing =>
      .shaped "Grouping"
        [("expression", inner.document), ("open", opening.document), ("close", closing.document)]
  | .reference name => .shaped "Variable" [("name", name.document)]
  | .declaration keyword name =>
      .shaped "VariableDeclaration" [("keyword", keyword.document), ("name", name.document)]
  | .assign target value =>
      .shaped target.assignLabel [("target", target.document), ("value", value.document)]
  | .call callee args =>
      .shaped "Call"
        [("callee", callee.document), ("arguments", .list (Expr.documents args))]
  | .choice keyword subject arms otherwise closing =>
      .shaped "Match"
        [("keyword", keyword.document), ("value", subject.document),
         ("arms", .list (Arm.documents "MatchArm" arms)),
         ("else_body", Block.optionDocument otherwise), ("close", closing.document)]
  | .context token => .shaped "ContextValue" [("token", token.document)]
  | .block body => body.document
  | .array opening items closing =>
      .shaped "ArrayLiteral"
        [("open", opening.document), ("items", .list (ArrayItem.documents items)),
         ("close", closing.document)]
  | .object opening items closing =>
      .shaped "ObjectLiteral"
        [("open", opening.document), ("items", .list (ObjectItem.documents items)),
         ("close", closing.document)]
  | .element base pos opening closing =>
      .shaped "Index"
        [("expression", base.document), ("index", pos.document),
         ("open", opening.document), ("close", closing.document)]
  | .push target value closing =>
      .shaped "Push"
        [("target", target.document), ("value", value.document), ("close", closing.document)]
  | .interpolation opening parts closing =>
      .shaped "InterpolatedString"
        [("open", opening.document), ("parts", .list (Expr.documents parts)),
         ("close", closing.document)]
  | .groupMember group name =>
      .shaped "GroupAccess" [("group", group.document), ("name", name.document)]
  | .groupName name => .shaped "GroupRef" [("name", name.document)]
  | .functionName name => .shaped "FunctionRef" [("name", name.document)]

def Expr.documents : List Expr → List Document
  | [] => []
  | expr :: rest => expr.document :: Expr.documents rest

def Block.document : Block → Document
  | ⟨opening, stmts, closing⟩ =>
      .shaped "Block"
        [("open", opening.document), ("statements", .list (Stmt.documents stmts)),
         ("close", closing.document)]

/-- An optional block; an absent one is null. -/
def Block.optionDocument : Option Block → Document
  | none => .null
  | some body => body.document

def Arm.document (label : String) : Arm → Document
  | ⟨condition, body⟩ =>
      .shaped label [("condition", condition.document), ("body", body.document)]

def Arm.documents (label : String) : List Arm → List Document
  | [] => []
  | arm :: rest => arm.document label :: Arm.documents label rest

def ArrayItem.document : ArrayItem → Document
  | ⟨value, spread⟩ =>
      .shaped "ArrayItem" [("expression", value.document), ("spread", .bool spread)]

def ArrayItem.documents : List ArrayItem → List Document
  | [] => []
  | item :: rest => item.document :: ArrayItem.documents rest

/-- An item of an object literal as a record; a spread item has no key. -/
def ObjectItem.document : ObjectItem → Document
  | .entry key token value =>
      .shaped "ObjectItem" [("key", key.literalDocument token), ("value", value.document)]
  | .spread value => .shaped "ObjectItem" [("key", .null), ("value", value.document)]

def ObjectItem.documents : List ObjectItem → List Document
  | [] => []
  | item :: rest => item.document :: ObjectItem.documents rest

def Stmt.document : Stmt → Document
  | .expression value => .shaped "ExpressionStmt" [("expression", value.document)]
  | .conditional keyword branches otherwise =>
      .shaped "If"
        [("keyword", keyword.document), ("branches", .list (Arm.documents "Branch" branches)),
         ("else_body", Block.optionDocument otherwise)]
  | .loop keyword condition body =>
      .shaped "While"
        [("keyword", keyword.document), ("condition", condition.document),
         ("body", body.document)]
  | .each keyword item collection body =>
      .shaped "Each"
        [("keyword", keyword.document), ("variable", item.document),
         ("collection", collection.document), ("body", body.document)]
  | .function keyword name parameters body =>
      .shaped "FunctionDeclaration"
        [("keyword", keyword.document), ("name", name.document),
         ("params", .list (parameters.map Token.document)), ("body", body.document)]
  | .leave keyword => .shaped "Break" [("keyword", keyword.document)]
  | .use keyword path =>
      .shaped "Use" [("keyword", keyword.document), ("path", path.document)]
  | .group keyword name body =>
      .shaped "GroupDeclaration"
        [("keyword", keyword.document), ("name", name.document), ("body", body.document)]
  | .exported keyword declaration =>
      .shaped "Public" [("keyword", keyword.document), ("declaration", declaration.document)]

def Stmt.documents : List Stmt → List Document
  | [] => []
  | stmt :: rest => stmt.document :: Stmt.documents rest

end

def programDocument (stmts : List Stmt) : Document :=
  .shaped "Program" [("body", .list (Stmt.documents stmts))]

end ArrowScript
