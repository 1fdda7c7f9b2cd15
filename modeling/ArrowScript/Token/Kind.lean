namespace ArrowScript

/-!
# Kinds of tokens

Keywords and operators are their own kind; every other token belongs to one of
the named classes at the end of the list.
-/

/-- The kinds of tokens. -/
inductive Kind
  | kwTrue | kwFalse | kwIf | kwElse | kwWhile | kwVar | kwBreak
  | kwMatch | kwFn | kwEach | kwNull | kwUse | kwGroup | kwPublic
  | plus | minus | star | slash | greater | less | equal | comma | colon
  | braceOpen | braceClose | parenOpen | parenClose | bracketOpen | bracketClose
  | bang | ampersand | bar
  | spread | arrow | fatArrow | notEqual | greaterEqual | lessEqual | member
  | identifier | command | atSign | number | string
  | textStart | text | textEnd
  | lineEnd | endOfInput
deriving Repr, DecidableEq, Inhabited

namespace Kind

def keywords : List (String × Kind) :=
  [("true", .kwTrue), ("false", .kwFalse), ("if", .kwIf), ("else", .kwElse),
   ("while", .kwWhile), ("var", .kwVar), ("break", .kwBreak), ("match", .kwMatch),
   ("fn", .kwFn), ("each", .kwEach), ("null", .kwNull), ("use", .kwUse),
   ("group", .kwGroup), ("public", .kwPublic)]

def ofWord (word : String) : Kind :=
  (keywords.lookup word).getD .identifier

def ofSymbol? : Char → Option Kind
  | '+' => some .plus
  | '-' => some .minus
  | '*' => some .star
  | '/' => some .slash
  | '>' => some .greater
  | '<' => some .less
  | '=' => some .equal
  | ',' => some .comma
  | ':' => some .colon
  | '{' => some .braceOpen
  | '}' => some .braceClose
  | '(' => some .parenOpen
  | ')' => some .parenClose
  | '[' => some .bracketOpen
  | ']' => some .bracketClose
  | '!' => some .bang
  | '&' => some .ampersand
  | '|' => some .bar
  | _ => none

def ofPair? : Char → Char → Option Kind
  | '.', '.' => some .spread
  | '-', '>' => some .arrow
  | '=', '>' => some .fatArrow
  | '!', '=' => some .notEqual
  | '>', '=' => some .greaterEqual
  | '<', '=' => some .lessEqual
  | ':', ':' => some .member
  | _, _ => none

/-- The name of a kind in listings: the spelling of a keyword or operator, or a class name. -/
def name : Kind → String
  | .kwTrue => "true"
  | .kwFalse => "false"
  | .kwIf => "if"
  | .kwElse => "else"
  | .kwWhile => "while"
  | .kwVar => "var"
  | .kwBreak => "break"
  | .kwMatch => "match"
  | .kwFn => "fn"
  | .kwEach => "each"
  | .kwNull => "null"
  | .kwUse => "use"
  | .kwGroup => "group"
  | .kwPublic => "public"
  | .plus => "+"
  | .minus => "-"
  | .star => "*"
  | .slash => "/"
  | .greater => ">"
  | .less => "<"
  | .equal => "="
  | .comma => ","
  | .colon => ":"
  | .braceOpen => "\x7b"
  | .braceClose => "\x7d"
  | .parenOpen => "("
  | .parenClose => ")"
  | .bracketOpen => "["
  | .bracketClose => "]"
  | .bang => "!"
  | .ampersand => "&"
  | .bar => "|"
  | .spread => ".."
  | .arrow => "->"
  | .fatArrow => "=>"
  | .notEqual => "!="
  | .greaterEqual => ">="
  | .lessEqual => "<="
  | .member => "::"
  | .identifier => "IDENTIFIER"
  | .command => "COMMAND"
  | .atSign => "AT"
  | .number => "NUMBER"
  | .string => "STRING"
  | .textStart => "INTERPOLATED_START"
  | .text => "INTERPOLATED_TEXT"
  | .textEnd => "INTERPOLATED_END"
  | .lineEnd => "EOL"
  | .endOfInput => "EOF"

/-- A line break right behind one of these does not end a statement. -/
def continuesLine : Kind → Bool
  | .lineEnd | .braceOpen | .parenOpen | .bracketOpen | .comma => true
  | _ => false

/-- A line break right in front of one of these does not end a statement. -/
def absorbsLineEnd : Kind → Bool
  | .parenClose | .bracketClose => true
  | _ => false

end Kind

end ArrowScript
