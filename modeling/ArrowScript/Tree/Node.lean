import ArrowScript.Tree.Basic

namespace ArrowScript

/-!
# Nodes of a syntax tree

A node is an expression or a statement.  Its children are the nodes directly
below it, in the order in which the parts of the node are listed; helper
records such as arms and items are not nodes themselves.
-/

/-- A node of a tree. -/
inductive Node
  | expr (expr : Expr)
  | stmt (stmt : Stmt)

/-- The name of the shape of an assignment, by its target. -/
def Expr.assignLabel : Expr → String
  | .declaration _ _ => "DeclarationAssign"
  | .reference _ => "VariableAssign"
  | .element _ _ _ _ => "IndexAssign"
  | .groupMember _ _ => "GroupMemberAssign"
  | _ => "Assign"

def Expr.label : Expr → String
  | .binary _ _ _ => "Binary"
  | .unary _ _ => "Unary"
  | .literal _ _ => "Literal"
  | .grouping _ _ _ => "Grouping"
  | .reference _ => "Variable"
  | .declaration _ _ => "VariableDeclaration"
  | .assign target _ => target.assignLabel
  | .call _ _ => "Call"
  | .choice _ _ _ _ _ => "Match"
  | .context _ => "ContextValue"
  | .block _ => "Block"
  | .array _ _ _ => "ArrayLiteral"
  | .object _ _ _ => "ObjectLiteral"
  | .element _ _ _ _ => "Index"
  | .push _ _ _ => "Push"
  | .interpolation _ _ _ => "InterpolatedString"
  | .groupMember _ _ => "GroupAccess"
  | .groupName _ => "GroupRef"
  | .functionName _ => "FunctionRef"

def Stmt.label : Stmt → String
  | .expression _ => "ExpressionStmt"
  | .conditional _ _ _ => "If"
  | .loop _ _ _ => "While"
  | .each _ _ _ _ => "Each"
  | .function _ _ _ _ => "FunctionDeclaration"
  | .leave _ => "Break"
  | .use _ _ => "Use"
  | .group _ _ _ => "GroupDeclaration"
  | .exported _ _ => "Public"

def Arm.nodes (arm : Arm) : List Node :=
  [.expr arm.condition, .expr (.block arm.body)]

def Block.optionNodes (otherwise : Option Block) : List Node :=
  otherwise.toList.map fun body => .expr (.block body)

/-- The nodes of an item of an object literal; the key counts as a literal. -/
def ObjectItem.nodes : ObjectItem → List Node
  | .entry key token value => [.expr (.literal key token), .expr value]
  | .spread value => [.expr value]

def Expr.children : Expr → List Node
  | .binary _ left right => [.expr left, .expr right]
  | .unary _ operand => [.expr operand]
  | .grouping inner _ _ => [.expr inner]
  | .assign target value => [.expr target, .expr value]
  | .call callee args => .expr callee :: args.map .expr
  | .choice _ subject arms otherwise _ =>
      .expr subject :: (arms.flatMap Arm.nodes ++ Block.optionNodes otherwise)
  | .block body => body.statements.map .stmt
  | .array _ items _ => items.map fun item => .expr item.value
  | .object _ items _ => items.flatMap ObjectItem.nodes
  | .element base pos _ _ => [.expr base, .expr pos]
  | .push _ value _ => [.expr value]
  | .interpolation _ parts _ => parts.map .expr
  | .groupMember group _ => [.expr group]
  | .literal _ _ | .reference _ | .declaration _ _ | .context _ | .groupName _
  | .functionName _ => []

def Stmt.children : Stmt → List Node
  | .expression value => [.expr value]
  | .conditional _ branches otherwise => branches.flatMap Arm.nodes ++ Block.optionNodes otherwise
  | .loop _ condition body => [.expr condition, .expr (.block body)]
  | .each _ _ collection body => [.expr collection, .expr (.block body)]
  | .function _ _ _ body => [.expr (.block body)]
  | .group _ _ body => [.expr (.block body)]
  | .exported _ declaration => [.stmt declaration]
  | .leave _ | .use _ _ => []

namespace Node

def label : Node → String
  | .expr inner => inner.label
  | .stmt inner => inner.label

def firstToken : Node → Token
  | .expr inner => inner.firstToken
  | .stmt inner => inner.firstToken

def start (node : Node) : Nat :=
  node.firstToken.start.offset

def stop : Node → Nat
  | .expr inner => inner.stop
  | .stmt inner => inner.stop

def children : Node → List Node
  | .expr inner => inner.children
  | .stmt inner => inner.children

end Node

mutual

/-- An expression and everything below it, parents first. -/
def Expr.preorder : Expr → List Node
  | .binary op left right =>
      .expr (.binary op left right) :: (left.preorder ++ right.preorder)
  | .unary op operand => .expr (.unary op operand) :: operand.preorder
  | .grouping inner opening closing => .expr (.grouping inner opening closing) :: inner.preorder
  | .assign target value => .expr (.assign target value) :: (target.preorder ++ value.preorder)
  | .call callee args =>
      .expr (.call callee args) :: (callee.preorder ++ Expr.listPreorder args)
  | .choice keyword subject arms otherwise closing =>
      .expr (.choice keyword subject arms otherwise closing) ::
        (subject.preorder ++ (Arm.listPreorder arms ++ Block.optionPreorder otherwise))
  | .block body => body.preorder
  | .array opening items closing =>
      .expr (.array opening items closing) :: ArrayItem.listPreorder items
  | .object opening items closing =>
      .expr (.object opening items closing) :: ObjectItem.listPreorder items
  | .element base pos opening closing =>
      .expr (.element base pos opening closing) :: (base.preorder ++ pos.preorder)
  | .push target value closing => .expr (.push target value closing) :: value.preorder
  | .interpolation opening parts closing =>
      .expr (.interpolation opening parts closing) :: Expr.listPreorder parts
  | .groupMember group name => .expr (.groupMember group name) :: group.preorder
  | .literal value token => [.expr (.literal value token)]
  | .reference name => [.expr (.reference name)]
  | .declaration keyword name => [.expr (.declaration keyword name)]
  | .context token => [.expr (.context token)]
  | .groupName name => [.expr (.groupName name)]
  | .functionName name => [.expr (.functionName name)]

def Expr.listPreorder : List Expr → List Node
  | [] => []
  | expr :: rest => expr.preorder ++ Expr.listPreorder rest

def Block.preorder : Block → List Node
  | ⟨opening, stmts, closing⟩ =>
      .expr (.block ⟨opening, stmts, closing⟩) :: Stmt.listPreorder stmts

/-- The nodes of an optional last body. -/
def Block.optionPreorder : Option Block → List Node
  | none => []
  | some body => body.preorder

def Arm.preorder : Arm → List Node
  | ⟨condition, body⟩ => condition.preorder ++ body.preorder

def Arm.listPreorder : List Arm → List Node
  | [] => []
  | arm :: rest => arm.preorder ++ Arm.listPreorder rest

def ArrayItem.preorder : ArrayItem → List Node
  | ⟨value, _⟩ => value.preorder

def ArrayItem.listPreorder : List ArrayItem → List Node
  | [] => []
  | item :: rest => item.preorder ++ ArrayItem.listPreorder rest

def ObjectItem.preorder : ObjectItem → List Node
  | .entry key token value => .expr (.literal key token) :: value.preorder
  | .spread value => value.preorder

def ObjectItem.listPreorder : List ObjectItem → List Node
  | [] => []
  | item :: rest => item.preorder ++ ObjectItem.listPreorder rest

def Stmt.preorder : Stmt → List Node
  | .expression value => .stmt (.expression value) :: value.preorder
  | .conditional keyword branches otherwise =>
      .stmt (.conditional keyword branches otherwise) ::
        (Arm.listPreorder branches ++ Block.optionPreorder otherwise)
  | .loop keyword condition body =>
      .stmt (.loop keyword condition body) :: (condition.preorder ++ body.preorder)
  | .each keyword item collection body =>
      .stmt (.each keyword item collection body) :: (collection.preorder ++ body.preorder)
  | .function keyword name params body =>
      .stmt (.function keyword name params body) :: body.preorder
  | .group keyword name body => .stmt (.group keyword name body) :: body.preorder
  | .exported keyword declaration => .stmt (.exported keyword declaration) :: declaration.preorder
  | .leave keyword => [.stmt (.leave keyword)]
  | .use keyword path => [.stmt (.use keyword path)]

def Stmt.listPreorder : List Stmt → List Node
  | [] => []
  | stmt :: rest => stmt.preorder ++ Stmt.listPreorder rest

end

end ArrowScript
