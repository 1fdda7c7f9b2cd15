import ArrowScript.Token.Basic

namespace ArrowScript

/-!
# Syntax trees

Expressions and statements keep the tokens they were read from, so that every
node can name its place in the script text.
-/

/-- A value that a literal can stand for. -/
inductive Constant
  | null
  | bool (value : Bool)
  | number (value : Float)
  | text (value : String)
deriving DecidableEq, Inhabited

mutual

/-- An expression. -/
inductive Expr
  /-- `left operator right` -/
  | binary (operator : Token) (left right : Expr)
  /-- `operator operand` -/
  | unary (operator : Token) (operand : Expr)
  | literal (value : Constant) (token : Token)
  /-- An expression in parentheses. -/
  | grouping (inner : Expr) (opening closing : Token)
  /-- The value of a variable. -/
  | reference (name : Token)
  /-- `var name` -/
  | declaration (keyword name : Token)
  /-- `value -> target`; the target is a declaration, a reference, an element or a group member. -/
  | assign (target value : Expr)
  /-- `@name argument, ...`; the callee names a function or a member of a group. -/
  | call (callee : Expr) (arguments : List Expr)
  /-- `match subject { condition body ... else body }` -/
  | choice (keyword : Token) (subject : Expr) (arms : List Arm) (otherwise : Option Block)
      (closing : Token)
  /-- `@`, the value being replaced or matched. -/
  | context (token : Token)
  /-- A block in the place of an expression. -/
  | block (body : Block)
  /-- `[item, ...]` -/
  | array (opening : Token) (items : List ArrayItem) (closing : Token)
  /-- `(key: value, ...)` -/
  | object (opening : Token) (items : List ObjectItem) (closing : Token)
  /-- `base[position]` -/
  | element (base position : Expr) (opening closing : Token)
  /-- `value ->[target]` -/
  | push (target : Token) (value : Expr) (closing : Token)
  /-- An interpolated string: literal stretches and embedded expressions, in order. -/
  | interpolation (opening : Token) (parts : List Expr) (closing : Token)
  /-- `group::name` -/
  | groupMember (group : Expr) (name : Token)
  /-- The name of a group in front of `::`. -/
  | groupName (name : Token)
  /-- The name of a function being called. -/
  | functionName (name : Token)

/-- Statements between two tokens. -/
structure Block where
  opening : Token
  statements : List Stmt
  closing : Token

/-- A condition and what runs when it holds. -/
structure Arm where
  condition : Expr
  body : Block

/-- An item of an array literal; `spread` items contribute all elements of an array. -/
structure ArrayItem where
  value : Expr
  spread : Bool

/-- An item of an object literal: a key and its value, or an object to spread. -/
inductive ObjectItem
  | entry (key : Constant) (token : Token) (value : Expr)
  | spread (value : Expr)

/-- A statement. -/
inductive Stmt
  /-- An expression run for its effect. -/
  | expression (value : Expr)
  /-- `if condition body else if ... else body` -/
  | conditional (keyword : Token) (branches : List Arm) (otherwise : Option Block)
  /-- `while condition body` -/
  | loop (keyword : Token) (condition : Expr) (body : Block)
  /-- `each item: collection body` -/
  | each (keyword item : Token) (collection : Expr) (body : Block)
  /-- `fn @name parameter, ... body` -/
  | function (keyword name : Token) (parameters : List Token) (body : Block)
  /-- `break` -/
  | leave (keyword : Token)
  /-- `use "path"` -/
  | use (keyword path : Token)
  /-- `group name body` -/
  | group (keyword name : Token) (body : Block)
  /-- `public declaration` -/
  | exported (keyword : Token) (declaration : Stmt)

end

instance : Inhabited Expr := ⟨.context default⟩

instance : Inhabited Stmt := ⟨.leave default⟩

instance : Inhabited Block := ⟨⟨default, [], default⟩⟩

/-- The token that names the place of an expression. -/
def Expr.firstToken : Expr → Token
  | .binary _ left _ => left.firstToken
  | .unary op _ => op
  | .literal _ token => token
  | .grouping _ opening _ => opening
  | .reference name => name
  | .declaration keyword _ => keyword
  | .assign _ value => value.firstToken
  | .call callee _ => callee.firstToken
  | .choice keyword _ _ _ _ => keyword
  | .context token => token
  | .block body => body.opening
  | .array opening _ _ => opening
  | .object opening _ _ => opening
  | .element base _ _ _ => base.firstToken
  | .push _ value _ => value.firstToken
  | .interpolation opening _ _ => opening
  | .groupMember group _ => group.firstToken
  | .groupName name => name
  | .functionName name => name

mutual

/-- The offset behind an expression. -/
def Expr.stop : Expr → Nat
  | .binary _ _ right => right.stop
  | .unary _ operand => operand.stop
  | .literal _ token => token.stop
  | .grouping _ _ closing => closing.stop
  | .reference name => name.stop
  | .declaration _ name => name.stop
  | .assign target _ => target.stop
  | .call callee args => Expr.lastStop callee.stop args
  | .choice _ _ _ _ closing => closing.stop
  | .context token => token.stop
  | .block body => body.closing.stop
  | .array _ _ closing => closing.stop
  | .object _ _ closing => closing.stop
  | .element _ _ _ closing => closing.stop
  | .push _ _ closing => closing.stop
  | .interpolation _ _ closing => closing.stop
  | .groupMember _ name => name.stop
  | .groupName name => name.stop
  | .functionName name => name.stop

/-- The offset behind the last expression of a list, or the given one when there is none. -/
def Expr.lastStop (default : Nat) : List Expr → Nat
  | [] => default
  | [last] => last.stop
  | _ :: rest => Expr.lastStop default rest

end

/-- The token that names the place of a statement. -/
def Stmt.firstToken : Stmt → Token
  | .expression value => value.firstToken
  | .conditional keyword _ _ => keyword
  | .loop keyword _ _ => keyword
  | .each keyword _ _ _ => keyword
  | .function keyword _ _ _ => keyword
  | .leave keyword => keyword
  | .use keyword _ => keyword
  | .group keyword _ _ => keyword
  | .exported keyword _ => keyword

/-- The offset behind a statement. -/
def Stmt.stop : Stmt → Nat
  | .expression value => value.stop
  | .conditional keyword branches otherwise =>
      match otherwise, branches.getLast? with
      | some body, _ => body.closing.stop
      | none, some branch => branch.body.closing.stop
      | none, none => keyword.stop
  | .loop _ _ body => body.closing.stop
  | .each _ _ _ body => body.closing.stop
  | .function _ _ _ body => body.closing.stop
  | .leave keyword => keyword.stop
  | .use _ path => path.stop
  | .group _ _ body => body.closing.stop
  | .exported _ declaration => declaration.stop

def Expr.declares : Expr → Bool
  | .declaration _ _ => true
  | .assign (.declaration _ _) _ => true
  | _ => false

/-- Expressions that may stand alone as a statement. -/
def Expr.standsAlone : Expr → Bool
  | .assign _ _ | .call _ _ | .declaration _ _ | .push _ _ _ | .block _ | .choice _ _ _ _ _ => true
  | _ => false

def Stmt.declares : Stmt → Bool
  | .function _ _ _ _ | .group _ _ _ => true
  | .expression value => value.declares
  | _ => false

def Stmt.imports : Stmt → Bool
  | .use _ _ => true
  | _ => false

end ArrowScript
