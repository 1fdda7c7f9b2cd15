import ArrowScript.Text.LineEnds
import ArrowScript.Token.Piece

namespace ArrowScript

/-!
# From script text to tokens

Pieces are placed one behind the other, tokens and faults get their positions,
and line breaks that end no statement are left out.
-/

def Piece.token? (piece : Piece) (place : Position) : Option Token :=
  match piece.content with
  | .token kind value => some ⟨kind, String.ofList piece.text, place, value⟩
  | .lineBreak => some ⟨.lineEnd, String.ofList piece.text, place, .none⟩
  | .blank => none

def Piece.errors (piece : Piece) (place : Position) : List LexicalError :=
  piece.faults.map fun fault => ⟨place.after (piece.text.take fault.1), fault.2⟩

/-- Pieces with their positions, the first starting at `place`. -/
def Piece.located (place : Position) : List Piece → List (Position × Piece)
  | [] => []
  | piece :: rest => (place, piece) :: located (place.after piece.text) rest

/--
Add a token behind the tokens kept so far, latest first.  A line end is kept
only behind a token that can end a line, and a closing bracket takes back the
line end in front of it.
-/
def Layout.add (kept : List Token) (token : Token) : List Token :=
  match kept with
  | [] => if token.kind = .lineEnd then [] else [token]
  | last :: earlier =>
      if token.kind = .lineEnd then
        if last.kind.continuesLine then kept else token :: kept
      else if token.kind.absorbsLineEnd && last.kind = .lineEnd then token :: earlier
      else token :: kept

/-- Leave out the line ends that end no statement. -/
def Layout.settle (tokens : List Token) : List Token :=
  (tokens.foldl add []).reverse

/-- The tokens of a script text and the errors in it. -/
structure Lexed where
  tokens : List Token
  errors : List LexicalError
deriving DecidableEq

/-- The token at the end of a text. -/
def Token.endOfInput (place : Position) : Token :=
  ⟨.endOfInput, "", place, .none⟩

/-- Cut a script text whose line ends are unified into tokens. -/
def lexChars (text : List Char) : Lexed :=
  let located := Piece.located .start (pieces [] text)
  { tokens :=
      Layout.settle (located.filterMap fun piece => piece.2.token? piece.1) ++
        [Token.endOfInput (Position.start.after text)]
    errors := located.flatMap fun piece => piece.2.errors piece.1 }

/-- The tokens and errors of a source. -/
def lex (source : String) : Lexed :=
  lexChars (Text.unifyLineEnds source.toList)

end ArrowScript
