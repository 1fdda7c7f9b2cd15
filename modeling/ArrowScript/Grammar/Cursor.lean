import ArrowScript.Tree.Basic

namespace ArrowScript

/-!
# Reading a list of tokens

A parser reads tokens through a cursor.  It stops early for one of three
reasons: it recorded an error and abandons the statement being read, it asked
for a token that the list does not have, or it used up its rounds.  A list that
ends in an end-of-input token never makes it stop for the last two.
-/

/-- What is wrong with tokens in the eyes of the grammar. -/
inductive GrammarFault
  | expectedLineEnd
  | expectedVariableName
  | expectedPath
  | expectedGroupName
  | expectedItemName
  | expectedColon
  | expectedFunctionName
  | expectedParameterName
  | expectedBody
  | expectedOpeningBrace
  | expectedClosingBrace
  | expectedClosingBracket
  | expectedClosingParen
  | expectedMemberName
  | expectedExpression
  | expectedKey
  | expectedText
  | expectedEmbeddedEnd
  | elseArmNotLast
  | functionAssigned
  | targetNotAssignable
  | misplacedPublic
  | publicNeedsDeclaration
  | groupNeedsDeclaration
  | statementHasNoEffect
deriving Repr, DecidableEq

def GrammarFault.message : GrammarFault → String
  | .expectedLineEnd => "Expected <EOL>."
  | .expectedVariableName => "Expected variable name."
  | .expectedPath => "Expected path to file or group name as a string."
  | .expectedGroupName => "Expected group name."
  | .expectedItemName => "Expected identifier."
  | .expectedColon => "Expected ':'."
  | .expectedFunctionName => "Function names must start with an '@' character."
  | .expectedParameterName => "Expected parameter name."
  | .expectedBody => "Expected '=>' or '\x7b'."
  | .expectedOpeningBrace => "Expected '\x7b'."
  | .expectedClosingBrace => "Expected '\x7d'."
  | .expectedClosingBracket => "Expected ']'."
  | .expectedClosingParen => "Expected ')'."
  | .expectedMemberName => "Expected member name after '::'."
  | .expectedExpression => "Expected expression."
  | .expectedKey => "Expected object key."
  | .expectedText => "Expected interpolated text."
  | .expectedEmbeddedEnd => "Expected '\x7d' after interpolated expression."
  | .elseArmNotLast =>
      "Expected '\x7d'. An else arm must be the last arm in a match expression."
  | .functionAssigned => "Cannot assign to a function."
  | .targetNotAssignable => "Invalid assignment target."
  | .misplacedPublic =>
      "The 'public' modifier can only be used at the top level or in a group body."
  | .publicNeedsDeclaration =>
      "Only variable, function, and group declarations can be public."
  | .groupNeedsDeclaration =>
      "Only variable, function, and group declarations can be used in a group body."
  | .statementHasNoEffect =>
      "Only assign, call, and match expressions can be used as statements."

/-- A fault and the token it was noticed at. -/
structure GrammarError where
  token : Token
  fault : GrammarFault
deriving DecidableEq

/-- The wording of an error with its place. -/
def GrammarError.message (error : GrammarError) : String :=
  error.token.start.label ++ " " ++ error.fault.message

/-- The token read last, the tokens still to read, and the errors recorded so far. -/
structure Cursor where
  previous : Option Token
  rest : List Token
  errors : List GrammarError
deriving DecidableEq

/-- Why reading stops without a result. -/
inductive Stop
  | abandoned
  | overrun
  | exhausted
deriving Repr, DecidableEq

/-- A reader of tokens; the cursor is kept however the reading ends. -/
abbrev Parser := EStateM Stop Cursor

namespace Parser

def peek : Parser Token := fun cursor =>
  match cursor.rest with
  | [] => .error .overrun cursor
  | token :: _ => .ok token cursor

/-- The token behind the one at the cursor; the last token is its own successor. -/
def peekNext : Parser Token := fun cursor =>
  match cursor.rest with
  | [] => .error .overrun cursor
  | [token] => .ok token cursor
  | _ :: token :: _ => .ok token cursor

/-- The token behind the next two. -/
def peekThird : Parser Token := fun cursor =>
  match cursor.rest with
  | _ :: _ :: token :: _ => .ok token cursor
  | _ => .error .overrun cursor

/-- The token read last. -/
def previous : Parser Token := fun cursor =>
  match cursor.previous with
  | none => .error .overrun cursor
  | some token => .ok token cursor

/-- Read the token at the cursor; the end of the input stays where it is. -/
def advance : Parser Token := fun cursor =>
  match cursor.rest with
  | [] => .error .overrun cursor
  | token :: rest =>
      if token.kind = .endOfInput then .ok token cursor
      else .ok token { cursor with previous := some token, rest := rest }

/-- Whether the next token is of one of some kinds. -/
def check (kinds : List Kind) : Parser Bool := do
  let token ← peek
  return kinds.contains token.kind

/-- Read the next token if it is of one of some kinds. -/
def accept? (kinds : List Kind) : Parser (Option Token) := do
  if ← check kinds then
    let token ← advance
    return some token
  else
    return none

/-- Record an error and go on. -/
def report (token : Token) (fault : GrammarFault) : Parser Unit := fun cursor =>
  .ok () { cursor with errors := cursor.errors ++ [⟨token, fault⟩] }

/-- Record an error and give up the statement. -/
def abandon (token : Token) (fault : GrammarFault) : Parser α := do
  report token fault
  throw .abandoned

/-- Read a token of one of the given kinds, or abandon the statement. -/
def consume (kinds : List Kind) (fault : GrammarFault) : Parser Token := do
  match ← accept? kinds with
  | some token => return token
  | none =>
      let token ← peek
      abandon token fault

/-- Read line ends. -/
def skipLineEnds : Parser Unit := fun cursor =>
  go cursor.previous cursor.rest cursor
where
  go
      (previous : Option Token) :
      List Token → Cursor → EStateM.Result Stop Cursor Unit
    | [], cursor => .error .overrun cursor
    | token :: rest, cursor =>
        if token.kind = .lineEnd then go (some token) rest cursor
        else .ok () { cursor with previous := previous, rest := token :: rest }

/-- Run a parser; an abandoned statement yields nothing and leaves the cursor where it stopped. -/
def attempt (parser : Parser α) : Parser (Option α) := fun cursor =>
  match parser cursor with
  | .ok result cursor => .ok (some result) cursor
  | .error .abandoned cursor => .ok none cursor
  | .error stop cursor => .error stop cursor

/-- Run a parser; when it abandons its statement, run the cleanup before abandoning. -/
def onAbandon (parser : Parser α) (cleanup : Parser Unit) : Parser α := do
  match ← attempt parser with
  | some result => return result
  | none =>
      cleanup
      throw .abandoned

/-- What a round of a loop leads to: another round, or the result. -/
inductive Round (σ α : Type) where
  | again (state : σ)
  | done (result : α)

/-- Run rounds until one of them is done, at most the given number of them. -/
def rounds (body : σ → Parser (Round σ α)) : Nat → σ → Parser α
  | 0, _ => throw .exhausted
  | count + 1, state => do
      match ← body state with
      | .again next => rounds body count next
      | .done result => return result

/-- Keywords that start a statement; recovery stops in front of them. -/
def boundaryKinds : List Kind :=
  [.kwFn, .kwVar, .kwIf, .kwWhile, .kwBreak]

/-- How many braces are open behind a token, given how many were open before; never below zero. -/
def braceDepth (depth : Nat) (token : Token) : Nat :=
  match token.kind with
  | .braceOpen => depth + 1
  | .braceClose => depth - 1
  | _ => depth

/-- Whether recovery stops in front of a token when no brace is open. -/
def isBoundary (inBlock : Bool) (previous token : Token) : Bool :=
  previous.kind = .lineEnd || boundaryKinds.contains token.kind ||
    (inBlock && token.kind = .braceClose)

/-- Pass over tokens up to a statement boundary outside the braces opened on the way. -/
def toBoundary (inBlock : Bool) :
    Nat → Option Token → List Token → Option (Option Token × List Token)
  | _, _, [] => none
  | depth, previous, token :: rest =>
      if token.kind = .endOfInput then some (previous, token :: rest)
      else if depth = 0 then
        match previous with
        | none => none
        | some last =>
            if isBoundary inBlock last token then some (previous, token :: rest)
            else toBoundary inBlock (braceDepth depth token) (some token) rest
      else toBoundary inBlock (braceDepth depth token) (some token) rest

/--
Go on behind an abandoned statement.  One token is passed over in any case,
except the end of the input and, inside a block, the brace that closes it.
-/
def synchronize (inBlock : Bool) : Parser Unit := fun cursor =>
  let target :=
    match cursor.rest with
    | [] => none
    | token :: rest =>
        if token.kind = .endOfInput then some (cursor.previous, token :: rest)
        else if inBlock && token.kind = .braceClose then
          toBoundary inBlock 0 cursor.previous (token :: rest)
        else
          toBoundary inBlock (braceDepth 0 token) (some token) rest
  match target with
  | none => .error .overrun cursor
  | some (previous, rest) => .ok () { cursor with previous := previous, rest := rest }

/-- Pass over tokens up to and including the brace that closes `depth` open ones. -/
def pastBrace : Nat → Option Token → List Token → Option (Option Token × List Token)
  | _, _, [] => none
  | depth, previous, token :: rest =>
      if token.kind = .endOfInput then some (previous, token :: rest)
      else if token.kind = .braceClose && depth = 1 then some (some token, rest)
      else pastBrace (braceDepth depth token) (some token) rest

/-- Pass over everything up to the end of the block whose opening brace was read. -/
def skipToClosingBrace : Parser Unit := fun cursor =>
  match pastBrace 1 cursor.previous cursor.rest with
  | none => .error .overrun cursor
  | some (previous, rest) => .ok () { cursor with previous := previous, rest := rest }

end Parser

end ArrowScript
