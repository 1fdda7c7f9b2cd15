import ArrowScript.Grammar.Expression
import ArrowScript.Token.Lexer

namespace ArrowScript

/-!
# Productions for statements and whole programs

`parse` reads every statement it can.  After an error it goes on at the next
statement boundary, so one pass finds all independent errors.
-/

namespace Grammar

open ArrowScript.Parser

section

variable (rules : Productions)

/-- The end of a statement: a line end, or the end of the block or the input. -/
def endStatement : Parser Unit := do
  if (← accept? [.lineEnd]).isSome then
    return ()
  if ← check [.endOfInput, .braceClose] then
    return ()
  abandon (← peek) .expectedLineEnd

def expressionStatement : Parser Stmt := do
  let value ← expression rules
  if !value.standsAlone then
    report value.firstToken .statementHasNoEffect
  endStatement
  return .expression value

def arm : Parser Arm := do
  let condition ← expression rules
  let armBody ← body rules
  return ⟨condition, armBody⟩

def conditional (keyword : Token) : Parser Stmt := do
  let first ← arm rules
  Parser.rounds (fun branches => do
    if (← accept? [.kwElse]).isSome then
      if (← accept? [.kwIf]).isSome then
        let branch ← arm rules
        return .again (branches ++ [branch])
      else
        let otherwise ← body rules
        return .done (.conditional keyword branches (some otherwise))
    else
      return .done (.conditional keyword branches none)) rules.rounds [first]

def each (keyword : Token) : Parser Stmt := do
  let item ← consume [.identifier] .expectedItemName
  let _ ← consume [.colon] .expectedColon
  let collection ← expression rules
  let eachBody ← body rules
  return .each keyword item collection eachBody

def parameters : Parser (List Token) := do
  if ← check [.braceOpen, .fatArrow, .lineEnd] then
    return []
  let first ← consume [.identifier] .expectedParameterName
  Parser.rounds (fun names => do
    if (← accept? [.comma]).isSome then
      let name ← consume [.identifier] .expectedParameterName
      return .again (names ++ [name])
    else
      return .done names) rules.rounds [first]

def function (keyword : Token) : Parser Stmt := do
  let name ← consume [.command] .expectedFunctionName
  let names ← parameters rules
  let functionBody ← body rules
  return .function keyword name names functionBody

def group (keyword : Token) : Parser Stmt := do
  let name ← consume [.identifier] .expectedGroupName
  let _ ← accept? [.lineEnd]
  let groupBody ← block rules .group
  return .group keyword name groupBody

/-- A statement, by its first token. -/
def statement : Parser Stmt := do
  let token ← peek
  match token.kind with
  | .kwVar =>
      let keyword ← advance
      let name ← consume [.identifier] .expectedVariableName
      endStatement
      return .expression (.declaration keyword name)
  | .kwIf => conditional rules (← advance)
  | .kwWhile =>
      let keyword ← advance
      let condition ← expression rules
      let loopBody ← body rules
      return .loop keyword condition loopBody
  | .kwEach => each rules (← advance)
  | .kwBreak =>
      let keyword ← advance
      endStatement
      return .leave keyword
  | .kwFn => function rules (← advance)
  | .kwUse =>
      let keyword ← advance
      let path ← consume [.string] .expectedPath
      endStatement
      return .use keyword path
  | .kwGroup => group rules (← advance)
  | _ => expressionStatement rules

/-- A statement in its setting, with its `public` modifier. -/
def declaration (setting : Setting) : Parser Stmt := do
  if let some keyword ← accept? [.kwPublic] then
    if setting = .block then
      abandon keyword .misplacedPublic
    let inner ← statement rules
    if !inner.declares then
      report keyword .publicNeedsDeclaration
    return .exported keyword inner
  let inner ← statement rules
  if setting = .group && !(inner.declares || inner.imports) then
    report inner.firstToken .groupNeedsDeclaration
  return inner

end

/-- The productions that may be entered `depth` more times inside one another. -/
def productions : Nat → Productions
  | 0 =>
      { rounds := 0
        declaration := fun _ => throw .exhausted
        expression := throw .exhausted
        operand := throw .exhausted
        unary := throw .exhausted }
  | depth + 1 =>
      { rounds := depth
        declaration := fun setting cursor => declaration (productions depth) setting cursor
        expression := fun cursor => expression (productions depth) cursor
        operand := fun cursor => operand (productions depth) cursor
        unary := fun cursor => unary (productions depth) cursor }

/-- One round of a program: another statement and the line ends behind it, or the end. -/
def programRound (rules : Productions)
    (kept : List Stmt) : Parser (Parser.Round (List Stmt) (List Stmt)) := do
  if ← check [.endOfInput] then
    return .done kept
  match ← attempt (declaration rules .top) with
  | some stmt =>
      skipLineEnds
      return .again (kept ++ [stmt])
  | none =>
      synchronize false
      skipLineEnds
      return .again kept

def program (depth : Nat) : Parser (List Stmt) := do
  skipLineEnds
  Parser.rounds (programRound (productions depth)) (depth + 1) []

end Grammar

/-- What reading tokens gives. -/
structure Parsed where
  statements : List Stmt
  errors : List GrammarError

/-- The cursor in front of tokens. -/
def Cursor.ofTokens (tokens : List Token) : Cursor :=
  ⟨none, tokens, []⟩

/--
Read a list of tokens as a program.  Every production that is entered again
has read a token before, so as many nested entries as there are tokens suffice.
-/
def parse (tokens : List Token) : Parsed :=
  match Grammar.program tokens.length (.ofTokens tokens) with
  | .ok stmts cursor => ⟨stmts, cursor.errors⟩
  | .error _ cursor => ⟨[], cursor.errors⟩

/-- All that reading a script text gives. -/
structure Checked where
  tokens : List Token
  statements : List Stmt
  lexicalErrors : List LexicalError
  grammarErrors : List GrammarError

/-- Whether a text has no errors. -/
def Checked.valid (checked : Checked) : Bool :=
  checked.lexicalErrors.isEmpty && checked.grammarErrors.isEmpty

/-- The wordings of all errors. -/
def Checked.messages (checked : Checked) : List String :=
  checked.lexicalErrors.map LexicalError.message ++ checked.grammarErrors.map GrammarError.message

/-- Read a script text without running it. -/
def read (source : String) : Checked :=
  let lexed := lex source
  let parsed := parse lexed.tokens
  ⟨lexed.tokens, parsed.statements, lexed.errors, parsed.errors⟩

end ArrowScript
