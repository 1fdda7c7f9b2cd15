import ArrowScript.Grammar.Cursor

namespace ArrowScript

/-!
# Productions for expressions

Productions call one another through a `Productions` value, which holds the
productions that may be entered again once a token has been read.  Binary
operators form layers, loosest first; below them stand unary operators,
element and member access, and the primary expressions.
-/

/-- Where a statement stands. -/
inductive Setting
  | top
  | group
  | block
deriving Repr, DecidableEq

/-- The productions that may be entered again, and the number of rounds a loop may take. -/
structure Productions where
  rounds : Nat
  declaration : Setting → Parser Stmt
  expression : Parser Expr
  operand : Parser Expr
  unary : Parser Expr

namespace Grammar

variable (rules : Productions)

open ArrowScript.Parser

/-- Tokens that end an argument list which no `!` closes. -/
def argumentEnds : List Kind :=
  [.braceOpen, .braceClose, .parenClose, .bracketClose, .comma, .colon, .member, .arrow,
   .fatArrow, .spread, .lineEnd, .endOfInput, .bar, .ampersand, .equal, .notEqual, .less,
   .greater, .lessEqual, .greaterEqual, .plus, .star, .slash, .text, .textEnd]

def keyKinds : List Kind :=
  [.identifier, .string, .number, .kwTrue, .kwFalse]

/-- Binary operators by layer, loosest first. -/
def layers : List (List Kind) :=
  [[.bar], [.ampersand], [.equal, .notEqual], [.less, .greater, .lessEqual, .greaterEqual],
   [.plus, .minus], [.star, .slash]]

/-- The constant of a literal. -/
def constantOf (token : Token) : Constant :=
  match token.kind, token.value with
  | .kwTrue, _ => .bool true
  | .kwFalse, _ => .bool false
  | .kwNull, _ => .null
  | _, .text value => .text value
  | _, .number value => .number value
  | _, .none => .null

/-- The constant of a key; a name stands for its text. -/
def keyOf (token : Token) : Constant :=
  if token.kind = .identifier then .text token.lexeme else constantOf token

/-- A group is named by a plain variable name in front of `::`. -/
def asGroup : Expr → Expr
  | .reference name => .groupName name
  | expr => expr

/-- One round of a block behind its opening brace: another statement, or its closing brace. -/
def statementRound (setting : Setting)
    (kept : List Stmt) : Parser (Parser.Round (List Stmt) (List Stmt)) := do
  skipLineEnds
  if ← check [.braceClose] then
    return .done kept
  if ← check [.endOfInput] then
    abandon (← peek) .expectedClosingBrace
  match ← attempt (rules.declaration setting) with
  | some statement => return .again (kept ++ [statement])
  | none =>
      synchronize true
      return .again kept

/-- The statements of a block behind its opening brace, up to its closing brace. -/
def statements (setting : Setting) : Parser (List Stmt) :=
  Parser.rounds (statementRound rules setting) rules.rounds []

/-- Statements between braces. -/
def block (setting : Setting) : Parser Block := do
  let opening ← consume [.braceOpen] .expectedOpeningBrace
  let inner ← statements rules setting
  let closing ← advance
  return ⟨opening, inner, closing⟩

/-- Statements in braces, or a single statement behind `=>`. -/
def body : Parser Block := do
  let _ ← accept? [.lineEnd]
  let result ←
    if ← check [.braceOpen] then
      block rules .block
    else do
      let arrow ← consume [.fatArrow] .expectedBody
      let statement ← rules.declaration .block
      let closing ← previous
      pure ⟨arrow, [statement], closing⟩
  skipLineEnds
  return result

/-- Whether the comma at the cursor belongs to an enclosing object literal. -/
def commaStartsItem : Parser Bool := do
  let next ← peekNext
  if next.kind = .spread then
    return true
  if keyKinds.contains next.kind then
    let third ← peekThird
    return third.kind = .colon
  return false

/-- The arguments of a call, up to `!` or a token that ends them. -/
def arguments : Parser (List Expr) := do
  if (← accept? [.bang]).isSome then
    return []
  if ← check argumentEnds then
    return []
  let first ← rules.operand
  Parser.rounds (fun arguments => do
    if ← check [.comma] then
      if ← commaStartsItem then
        return .done arguments
      let _ ← advance
      let argument ← rules.operand
      return .again (arguments ++ [argument])
    else
      let _ ← accept? [.bang]
      return .done arguments) rules.rounds [first]

/-- The arms of a match expression behind its opening brace, its last body and its closing brace. -/
def arms : Parser (List Arm × Option Block × Token) :=
  Parser.rounds (fun arms => do
    skipLineEnds
    if let some closing ← accept? [.braceClose] then
      return .done (arms, none, closing)
    if ← check [.endOfInput] then
      abandon (← peek) .expectedClosingBrace
    if (← accept? [.kwElse]).isSome then
      let otherwise ← body rules
      let closing ← consume [.braceClose] .elseArmNotLast
      return .done (arms, some otherwise, closing)
    let condition ← rules.expression
    let armBody ← body rules
    return .again (arms ++ [⟨condition, armBody⟩])) rules.rounds []

/-- A match behind its keyword. -/
def choice (keyword : Token) : Parser Expr := do
  let subject ← rules.expression
  let _ ← consume [.braceOpen] .expectedOpeningBrace
  let (arms, otherwise, closing) ← onAbandon (arms rules) skipToClosingBrace
  return .choice keyword subject arms otherwise closing

/-- The items of an array literal, each behind the opening bracket or a comma. -/
def arrayItems : Parser (List ArrayItem) :=
  Parser.rounds (fun items => do
    let mark ← accept? [.spread]
    let value ← rules.expression
    let items := items ++ [⟨value, mark.isSome⟩]
    if (← accept? [.comma]).isSome then
      return .again items
    else
      return .done items) rules.rounds []

def array (opening : Token) : Parser Expr := do
  let items ← if ← check [.bracketClose] then pure [] else arrayItems rules
  let closing ← consume [.bracketClose] .expectedClosingBracket
  return .array opening items closing

def objectItem : Parser ObjectItem := do
  if (← accept? [.spread]).isSome then
    let value ← rules.operand
    return .spread value
  let key ← consume keyKinds .expectedKey
  let _ ← consume [.colon] .expectedColon
  let value ← rules.operand
  return .entry (keyOf key) key value

/-- The items of an object literal, each behind the opening parenthesis or a comma. -/
def objectItems : Parser (List ObjectItem) :=
  Parser.rounds (fun items => do
    let item ← objectItem rules
    if (← accept? [.comma]).isSome then
      return .again (items ++ [item])
    else
      return .done (items ++ [item])) rules.rounds []

def object (opening : Token) : Parser Expr := do
  let items ← if ← check [.parenClose] then pure [] else objectItems rules
  let closing ← consume [.parenClose] .expectedClosingParen
  return .object opening items closing

/-- Whether an object literal, not a grouping, follows the opening parenthesis. -/
def startsObject : Parser Bool := do
  if ← check [.spread, .parenClose] then
    return true
  if ← check keyKinds then
    let next ← peekNext
    return next.kind = .colon
  return false

/-- A grouping or an object literal behind its opening parenthesis. -/
def parenthesized (opening : Token) : Parser Expr := do
  if ← startsObject then
    object rules opening
  else
    let inner ← rules.operand
    let closing ← consume [.parenClose] .expectedClosingParen
    return .grouping inner opening closing

/-- The literal for a stretch of interpolated text; an empty stretch has none. -/
def stretchParts (token : Token) : List Expr :=
  if token.textValue.isEmpty then [] else [.literal (.text token.textValue) token]

/-- The parts of an interpolated string behind its first stretch, up to its closing mark. -/
def interpolationParts (first : Token) : Parser (List Expr) :=
  Parser.rounds (fun parts => do
    if ← check [.textEnd] then
      return .done parts
    let embedded ← rules.expression
    let text ← consume [.text] .expectedEmbeddedEnd
    return .again (parts ++ embedded :: stretchParts text))
    rules.rounds (stretchParts first)

/-- An interpolated string behind its opening mark. -/
def interpolation (opening : Token) : Parser Expr := do
  let first ← consume [.text] .expectedText
  let parts ← interpolationParts rules first
  let closing ← advance
  return .interpolation opening parts closing

/-- An expression that no operator takes apart. -/
def primary : Parser Expr := do
  let token ← peek
  match token.kind with
  | .kwTrue | .kwFalse | .kwNull | .number | .string =>
      let token ← advance
      return .literal (constantOf token) token
  | .identifier => return .reference (← advance)
  | .atSign => return .context (← advance)
  | .command =>
      let name ← advance
      let arguments ← arguments rules
      return .call (.functionName name) arguments
  | .kwMatch =>
      let keyword ← advance
      choice rules keyword
  | .bracketOpen =>
      let opening ← advance
      array rules opening
  | .parenOpen =>
      let opening ← advance
      parenthesized rules opening
  | .braceOpen =>
      let inner ← block rules .block
      return .block inner
  | .textStart =>
      let opening ← advance
      interpolation rules opening
  | _ => abandon token .expectedExpression

/-- One access behind an expression: an element, a member, or none. -/
def accessRound (base : Expr) : Parser (Parser.Round Expr Expr) := do
  if let some opening ← accept? [.bracketOpen] then
    let position ← rules.expression
    let closing ← consume [.bracketClose] .expectedClosingBracket
    return .again (.element base position opening closing)
  if (← accept? [.member]).isSome then
    let name ← consume [.identifier, .command] .expectedMemberName
    let member := Expr.groupMember (asGroup base) name
    if name.kind = .command then
      let arguments ← arguments rules
      return .again (.call member arguments)
    else
      return .again member
  return .done base

/-- An expression with accesses behind it. -/
def access : Parser Expr := do
  let base ← primary rules
  Parser.rounds (accessRound rules) rules.rounds base

/-- An expression with unary operators in front. -/
def unary : Parser Expr := do
  match ← accept? [.bang, .minus] with
  | some operator =>
      let operand ← rules.unary
      return .unary operator operand
  | none => access rules

/-- Operands of one layer joined from the left; the operands belong to the tighter layers. -/
def binary : List (List Kind) → Parser Expr
  | [] => unary rules
  | operators :: tighter => do
      let first ← binary tighter
      Parser.rounds (fun left => do
        match ← accept? operators with
        | none => return .done left
        | some operator =>
            let right ← binary tighter
            return .again (.binary operator left right)) rules.rounds first

/-- An expression without an arrow. -/
def operand : Parser Expr :=
  binary rules layers

/-- The target of an assignment behind the arrow. -/
def assignTo (value : Expr) : Parser Expr := do
  if let some keyword ← accept? [.kwVar] then
    let name ← consume [.identifier] .expectedVariableName
    return .assign (.declaration keyword name) value
  if ← check [.command] then
    abandon (← peek) .functionAssigned
  if !(← check [.identifier]) then
    abandon (← peek) .expectedVariableName
  let target ← access rules
  match target with
  | .reference _ | .element _ _ _ _ | .groupMember _ _ => return .assign target value
  | .call _ _ => abandon target.firstToken .functionAssigned
  | _ => abandon target.firstToken .targetNotAssignable

/-- An expression: an operand, or an operand and what happens to its value. -/
def expression : Parser Expr := do
  let value ← operand rules
  match ← accept? [.arrow] with
  | none => return value
  | some arrow =>
      if let some keyword ← accept? [.kwBreak] then
        return .block ⟨arrow, [.expression value, .leave keyword], keyword⟩
      if (← accept? [.bracketOpen]).isSome then
        let name ← consume [.identifier] .expectedVariableName
        let closing ← consume [.bracketClose] .expectedClosingBracket
        return .push name value closing
      assignTo rules value

end Grammar

end ArrowScript
