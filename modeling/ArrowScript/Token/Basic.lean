import ArrowScript.Position
import ArrowScript.Token.Kind

namespace ArrowScript

/-!
# Tokens

A token keeps the text it was cut from, the place where that text starts, and
the value it stands for.
-/

/-- The value that a token stands for. -/
inductive TokenValue
  | none
  | text (value : String)
  | number (value : Float)
deriving DecidableEq, Inhabited

/-- A token with its text, its place and its value. -/
structure Token where
  kind : Kind
  lexeme : String
  start : Position
  value : TokenValue
deriving DecidableEq, Inhabited

/-- The offset behind a token. -/
def Token.stop (token : Token) : Nat :=
  token.start.offset + token.lexeme.length

/-- The text a token stands for; empty for tokens that stand for none. -/
def Token.textValue (token : Token) : String :=
  match token.value with
  | .text value => value
  | _ => ""

/-- What is wrong with characters of a script text. -/
inductive LexicalFault
  | unexpectedCharacter (character : Char)
  | invalidNumber (text : String)
  | unterminatedComment
  | escapeAtEnd
  | invalidEscape (character : Char)
  | unterminatedString
  | unterminatedInterpolation
  | unterminatedExpression
  | strayBrace
deriving Repr, DecidableEq

def LexicalFault.message : LexicalFault → String
  | .unexpectedCharacter char =>
      "Unexpected character '" ++ String.ofList [char] ++ "'."
  | .invalidNumber text => "Invalid number '" ++ text ++ "'."
  | .unterminatedComment => "Expected '##', got <EOF>."
  | .escapeAtEnd => "Invalid escape sequence '\\' at end of input."
  | .invalidEscape char =>
      "Invalid escape sequence '\\" ++ String.ofList [char] ++ "'."
  | .unterminatedString => "Unterminated string literal."
  | .unterminatedInterpolation => "Unterminated interpolated string."
  | .unterminatedExpression => "Unterminated expression in interpolated string."
  | .strayBrace => "Encountered '\x7d' with no opening '\x7b' in interpolated string."

/-- A fault and its place. -/
structure LexicalError where
  place : Position
  fault : LexicalFault
deriving Repr, DecidableEq

/-- The wording of an error with its place. -/
def LexicalError.message (error : LexicalError) : String :=
  error.place.label ++ " " ++ error.fault.message

end ArrowScript
