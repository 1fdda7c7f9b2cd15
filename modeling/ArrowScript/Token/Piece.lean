import ArrowScript.Number.Text
import ArrowScript.Token.Basic

namespace ArrowScript

/-!
# Cutting a script text into pieces

A script text is cut into consecutive pieces: tokens, line breaks and blanks.
Nothing is dropped, so the texts of the pieces concatenate to the script text.
Faults are kept with the piece in which they were noticed.

An interpolated string is cut into its opening mark, its stretches of text and
its closing quote.  The expressions between the stretches are cut like any
other script text; the only memory needed is, for every expression that is
still open, how many of its own braces are open.
-/

/-- What a piece of a text contributes. -/
inductive Content
  | token (kind : Kind) (value : TokenValue)
  | lineBreak
  | blank
deriving DecidableEq

/-- A stretch of script text; a fault is noticed behind the given number of its characters. -/
structure Piece where
  text : List Char
  content : Content
  faults : List (Nat × LexicalFault)
deriving DecidableEq

def Piece.textOf (pieces : List Piece) : List Char :=
  pieces.flatMap Piece.text

/-- A piece that is a token without a value. -/
def Piece.plain (kind : Kind) (text : List Char) : Piece :=
  ⟨text, .token kind .none, []⟩

/-- A piece that contributes nothing. -/
def Piece.gap (text : List Char) : Piece :=
  ⟨text, .blank, []⟩

def isWordStart (character : Char) : Bool :=
  character.isAlpha || character == '_'

def isWordChar (character : Char) : Bool :=
  character.isAlphanum || character == '_'

/-- The character that an escape stands for. -/
def unescape? : Char → Option Char
  | 'n' => some '\n'
  | 'r' => some '\r'
  | 't' => some '\t'
  | '"' => some '"'
  | '\\' => some '\\'
  | _ => none

/-- What ends a stretch of interpolated text. -/
inductive Ending
  | quote
  | brace
  | input
deriving Repr, DecidableEq

def Ending.text : Ending → List Char
  | .quote => ['"']
  | .brace => ['{']
  | .input => []

/-- A stretch of quoted text up to its ending, and the characters behind the ending. -/
structure Quoted where
  raw : List Char
  decoded : List Char
  faults : List (Nat × LexicalFault)
  ending : Ending
  rest : List Char
deriving DecidableEq

namespace Quoted

def prepend (quoted : Quoted) (raw decoded : List Char)
    (faults : List (Nat × LexicalFault)) : Quoted where
  raw := raw ++ quoted.raw
  decoded := decoded ++ quoted.decoded
  faults := faults ++ quoted.faults.map (fun fault => (raw.length + fault.1, fault.2))
  ending := quoted.ending
  rest := quoted.rest

def prependEscape (quoted : Quoted) (char : Char) : Quoted :=
  match unescape? char with
  | some decoded => quoted.prepend ['\\', char] [decoded] []
  | none =>
      quoted.prepend ['\\', char] ['\\', char] [(1, .invalidEscape char)]

def string : List Char → Quoted
  | [] => ⟨[], [], [(0, .unterminatedString)], .input, []⟩
  | '"' :: rest => ⟨[], [], [], .quote, rest⟩
  | ['\\'] => ⟨['\\'], ['\\'], [(1, .escapeAtEnd), (1, .unterminatedString)], .input, []⟩
  | '\\' :: character :: rest => (string rest).prependEscape character
  | character :: rest => (string rest).prepend [character] [character] []

/-- Read a stretch of interpolated text; doubled braces stand for themselves, one alone ends it. -/
def interpolated : List Char → Quoted
  | [] => ⟨[], [], [(0, .unterminatedInterpolation)], .input, []⟩
  | '"' :: rest => ⟨[], [], [], .quote, rest⟩
  | ['\\'] =>
      ⟨['\\'], ['\\'], [(1, .escapeAtEnd), (1, .unterminatedInterpolation)], .input, []⟩
  | '\\' :: character :: rest => (interpolated rest).prependEscape character
  | '{' :: '{' :: rest => (interpolated rest).prepend ['{', '{'] ['{'] []
  | '{' :: rest => ⟨[], [], [], .brace, rest⟩
  | '}' :: '}' :: rest => (interpolated rest).prepend ['}', '}'] ['}'] []
  | '}' :: rest => (interpolated rest).prepend ['}'] [] [(1, .strayBrace)]
  | character :: rest => (interpolated rest).prepend [character] [character] []

/-- All characters that were read, the ending and the unread rest, in order. -/
def source (quoted : Quoted) : List Char :=
  quoted.raw ++ quoted.ending.text ++ quoted.rest

@[simp]
theorem source_prepend (quoted : Quoted) (raw decoded : List Char)
    (faults : List (Nat × LexicalFault)) :
    (quoted.prepend raw decoded faults).source = raw ++ quoted.source := by
  simp [source, prepend]

@[simp]
theorem source_prependEscape (quoted : Quoted) (char : Char) :
    (quoted.prependEscape char).source = '\\' :: char :: quoted.source := by
  unfold prependEscape
  split <;> simp

theorem source_string (text : List Char) : (string text).source = text := by
  fun_induction string text with
  | case1 => rfl
  | case2 => rfl
  | case3 => rfl
  | case4 _ _ ih => simp [ih]
  | case5 _ _ _ _ _ ih => simp [ih]

theorem source_interpolated (text : List Char) : (interpolated text).source = text := by
  fun_induction interpolated text with
  | case1 => rfl
  | case2 => rfl
  | case3 => rfl
  | case4 _ _ ih => simp [ih]
  | case5 _ ih => simp [ih]
  | case6 => rfl
  | case7 _ ih => simp [ih]
  | case8 _ _ ih => simp [ih]
  | case9 _ _ _ _ _ _ _ _ _ ih => simp [ih]

theorem length_rest_le (quoted : Quoted) : quoted.rest.length ≤ quoted.source.length := by
  simp [source]
  omega

end Quoted

/-- Read a block comment behind its opening marks, up to and including its closing marks. -/
def blockComment : List Char → List Char × Option (List Char)
  | [] => ([], none)
  | '#' :: '#' :: rest => (['#', '#'], some rest)
  | char :: rest =>
      let inner := blockComment rest
      (char :: inner.1, inner.2)

/-- Whether a character ends a line comment; in an embedded expression a brace does it too. -/
def endsComment (embedded : Bool) (char : Char) : Bool :=
  char == '\n' || (embedded && char == '}')

/-- Read a numeral: digits, and points that no second point follows. -/
def numeral : List Char → List Char × List Char
  | [] => ([], [])
  | char :: rest =>
      if char.isDigit || (char == '.' && rest.head? != some '.') then
        let inner := numeral rest
        (char :: inner.1, inner.2)
      else
        ([], char :: rest)

theorem numeral_append (text : List Char) : (numeral text).1 ++ (numeral text).2 = text := by
  fun_induction numeral text with
  | case1 => rfl
  | case2 _ _ _ _ ih => exact congrArg _ ih
  | case3 => rfl

theorem blockComment_append (text : List Char) :
    (blockComment text).1 ++ (blockComment text).2.getD [] = text := by
  fun_induction blockComment text with
  | case1 => rfl
  | case2 => rfl
  | case3 _ _ _ _ ih => exact congrArg _ ih

/-- The first piece of a text and the text behind it. -/
structure Cut where
  piece : Piece
  rest : List Char

namespace Cut

variable (embedded : Bool) (start : Char) (rest : List Char)

def source (cut : Cut) : List Char :=
  cut.piece.text ++ cut.rest

/-- A token that takes its text from the front of the remaining characters. -/
def word (content : List Char → Content) : Cut :=
  let tail := rest.takeWhile isWordChar
  ⟨⟨start :: tail, content tail, []⟩, rest.dropWhile isWordChar⟩

/-- The name of a call, or the context mark when no name follows. -/
def command : Cut :=
  if (rest.head?.map isWordChar).getD false then
    word '@' rest (fun name => .token .command (.text (String.ofList name)))
  else
    ⟨.plain .atSign ['@'], rest⟩

def name : Cut :=
  word start rest (fun tail => .token (Kind.ofWord (String.ofList (start :: tail))) .none)

def string : Cut :=
  let quoted := Quoted.string rest
  { piece :=
      { text := '"' :: (quoted.raw ++ quoted.ending.text)
        content := .token .string (.text (String.ofList quoted.decoded))
        faults := quoted.faults.map (fun fault => (fault.1 + 1, fault.2)) }
    rest := quoted.rest }

def number : Cut :=
  let inner := numeral rest
  let text := start :: inner.1
  match Number.ofLiteral? text with
  | some value => ⟨⟨text, .token .number (.number value), []⟩, inner.2⟩
  | none => ⟨⟨text, .blank, [(text.length, .invalidNumber (String.ofList text))]⟩, inner.2⟩

def comment : Cut :=
  match rest with
  | '#' :: inside =>
      let comment := blockComment inside
      let text := '#' :: '#' :: comment.1
      match comment.2 with
      | some rest => ⟨.gap text, rest⟩
      | none => ⟨⟨text, .blank, [(text.length, .unterminatedComment)]⟩, []⟩
  | _ =>
      ⟨.gap ('#' :: rest.takeWhile (fun char => !endsComment embedded char)),
        rest.dropWhile (fun char => !endsComment embedded char)⟩

/-- A line break; inside an embedded expression it is a blank. -/
def lineBreak : Cut :=
  ⟨⟨['\n'], if embedded then .blank else .lineBreak, []⟩, rest⟩

/-- The operator that a character and its successor write together. -/
def operator? : Option Cut :=
  match rest with
  | [] => none
  | second :: behind =>
      (Kind.ofPair? start second).map (fun kind => ⟨.plain kind [start, second], behind⟩)

/-- The next piece of a text that starts no interpolated string and ends no embedded expression. -/
def next : Cut :=
  if start = '@' then command rest
  else if start = '"' then string rest
  else
    match operator? start rest with
    | some cut => cut
    | none =>
        if isWordStart start then name start rest
        else if start == '.' || start.isDigit then number start rest
        else
          match Kind.ofSymbol? start with
          | some kind => ⟨.plain kind [start], rest⟩
          | none =>
              if start = '#' then comment embedded rest
              else if start = '\n' then lineBreak embedded rest
              else if start == ' ' || start == '\t' then ⟨.gap [start], rest⟩
              else ⟨⟨[start], .blank, [(0, .unexpectedCharacter start)]⟩, rest⟩

/-! Cutting loses no character. -/

theorem source_word (content : List Char → Content) :
    (word start rest content).source = start :: rest := by
  simp [word, source]

theorem source_command : (command rest).source = '@' :: rest := by
  unfold command
  split
  · exact source_word ..
  · rfl

theorem source_string : (string rest).source = '"' :: rest := by
  have inner := Quoted.source_string rest
  simp only [Quoted.source] at inner
  simp [string, source, inner]

theorem source_number :
    (number start rest).source = start :: rest := by
  simp only [number]
  split <;> simp [source, numeral_append]

theorem source_comment :
    (comment embedded rest).source = '#' :: rest := by
  unfold comment
  split
  · rename_i inside
    have inner := blockComment_append inside
    simp only
    split <;> rename_i isRest <;> simp [isRest] at inner <;> simp [source, Piece.gap, inner]
  · simp [source, Piece.gap]

theorem source_operator? {start : Char} {rest : List Char} {cut : Cut}
    (found : operator? start rest = some cut) : cut.source = start :: rest := by
  unfold operator? at found
  split at found
  · simp at found
  · obtain ⟨kind, _, rfl⟩ := Option.map_eq_some_iff.mp found
    rfl

theorem source_next :
    (next embedded start rest).source = start :: rest := by
  unfold next
  split
  · rename_i isAt
    exact isAt ▸ source_command rest
  split
  · rename_i isQuote
    exact isQuote ▸ source_string rest
  split
  · rename_i found
    exact source_operator? found
  split
  · exact source_word ..
  split
  · exact source_number start rest
  split
  · rfl
  split
  · rename_i isHash
    exact isHash ▸ source_comment embedded rest
  split
  · rename_i isBreak
    exact isBreak ▸ rfl
  split <;> rfl

theorem text_next_ne_nil :
    (next embedded start rest).piece.text ≠ [] := by
  unfold next
  split
  · unfold command
    split <;> simp [word, Piece.plain]
  split
  · simp [string]
  split
  · rename_i found
    unfold operator? at found
    split at found
    · simp at found
    · obtain ⟨kind, _, rfl⟩ := Option.map_eq_some_iff.mp found
      simp [Piece.plain]
  split
  · simp [name, word]
  split
  · simp only [number]
    split <;> simp
  split
  · simp [Piece.plain]
  split
  · unfold comment
    split
    · simp only
      split <;> simp [Piece.gap]
    · simp [Piece.gap]
  split
  · simp [lineBreak]
  split <;> simp [Piece.gap]

theorem length_rest_next_lt :
    (next embedded start rest).rest.length < (start :: rest).length := by
  have whole := congrArg List.length (source_next embedded start rest)
  have nonempty := List.length_pos_iff.mpr (text_next_ne_nil embedded start rest)
  simp only [source, List.length_append] at whole
  omega

end Cut

/-- The pieces that one step cuts off, the embedded expressions open behind them, and the rest. -/
structure Step where
  pieces : List Piece
  spans : List Nat
  rest : List Char

namespace Step

def source (step : Step) : List Char :=
  Piece.textOf step.pieces ++ step.rest

/--
Read a stretch of interpolated text behind `before`.  At a quote the string is
complete, at a brace an embedded expression opens inside `spans`, and at the
end of the input the string is closed by an empty mark.
-/
def stretch (before : Piece) (spans : List Nat) (rest : List Char) : Step :=
  let quoted := Quoted.interpolated rest
  let text : Piece :=
    ⟨quoted.raw, .token .text (.text (String.ofList quoted.decoded)), quoted.faults⟩
  match quoted.ending with
  | .quote => ⟨[before, text, .plain .textEnd ['"']], spans, quoted.rest⟩
  | .brace => ⟨[before, text, .gap ['{']], 0 :: spans, quoted.rest⟩
  | .input => ⟨[before, text, .plain .textEnd []], spans, quoted.rest⟩

/-- A step that cuts off one piece. -/
def single (cut : Cut) (spans : List Nat) : Step :=
  ⟨[cut.piece], spans, cut.rest⟩

/--
Cut off the next pieces.  `spans` holds, for every open embedded expression
and innermost first, the number of its own open braces.
-/
def next (spans : List Nat) (start : Char) (rest : List Char) : Step :=
  match spans, start, rest with
  | 0 :: outer, '}', rest => stretch (.gap ['}']) outer rest
  | (depth + 1) :: outer, '}', rest => single (Cut.next true '}' rest) (depth :: outer)
  | depth :: outer, '{', rest => single (Cut.next true '{' rest) ((depth + 1) :: outer)
  | spans, '@', '"' :: rest => stretch (.plain .textStart ['@', '"']) spans rest
  | spans, start, rest => single (Cut.next (!spans.isEmpty) start rest) spans

theorem source_stretch (before : Piece) (spans : List Nat) (rest : List Char) :
    (stretch before spans rest).source = before.text ++ rest := by
  have inner := Quoted.source_interpolated rest
  simp only [Quoted.source] at inner
  simp only [stretch]
  split <;> rename_i isEnding <;>
    simp_all [source, Piece.textOf, Piece.plain, Piece.gap, Ending.text]

theorem source_single (cut : Cut) (spans : List Nat) : (single cut spans).source = cut.source := by
  simp [single, source, Cut.source, Piece.textOf]

theorem source_next (spans : List Nat) (start : Char) (rest : List Char) :
    (next spans start rest).source = start :: rest := by
  unfold next
  split <;> simp [source_stretch, source_single, Cut.source_next, Piece.gap, Piece.plain]

theorem length_rest_stretch_lt {before : Piece} (spans : List Nat) (rest : List Char)
    (nonempty : before.text ≠ []) :
    (stretch before spans rest).rest.length < (before.text ++ rest).length := by
  have inner := congrArg List.length (Quoted.source_interpolated rest)
  have shorter := Quoted.length_rest_le (Quoted.interpolated rest)
  have positive := List.length_pos_iff.mpr nonempty
  simp only [stretch]
  split <;> simp_all <;> omega

theorem length_rest_next_lt (spans : List Nat) (start : Char) (rest : List Char) :
    (next spans start rest).rest.length < (start :: rest).length := by
  unfold next
  split
  · exact length_rest_stretch_lt _ _ (by simp [Piece.gap])
  · exact Cut.length_rest_next_lt ..
  · exact Cut.length_rest_next_lt ..
  · exact length_rest_stretch_lt _ _ (by simp [Piece.plain])
  · exact Cut.length_rest_next_lt ..

end Step

/-- The pieces that close the embedded expressions and strings open at the end of the input. -/
def closing (spans : List Nat) : List Piece :=
  spans.flatMap fun _ =>
    [⟨[], .token .text (.text ""),
      [(0, .unterminatedExpression), (0, .unterminatedInterpolation)]⟩,
     .plain .textEnd []]

/-- The pieces of a script text, inside the embedded expressions that are open. -/
def pieces (spans : List Nat) : List Char → List Piece
  | [] => closing spans
  | start :: rest =>
      let step := Step.next spans start rest
      step.pieces ++ pieces step.spans step.rest
termination_by text => text.length
decreasing_by exact Step.length_rest_next_lt spans start rest

theorem textOf_closing (spans : List Nat) : Piece.textOf (closing spans) = [] := by
  induction spans with
  | nil => rfl
  | cons _ outer ih => exact ih

theorem textOf_pieces (spans : List Nat) (text : List Char) :
    Piece.textOf (pieces spans text) = text := by
  fun_induction pieces spans text with
  | case1 spans => exact textOf_closing spans
  | case2 spans start rest step ih =>
      calc
        Piece.textOf (step.pieces ++ pieces step.spans step.rest)
            = Piece.textOf step.pieces ++ Piece.textOf (pieces step.spans step.rest) := by
              simp [Piece.textOf]
        _ = step.source := by rw [ih, Step.source]
        _ = start :: rest := Step.source_next spans start rest

end ArrowScript
