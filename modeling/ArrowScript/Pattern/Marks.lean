import ArrowScript.Pattern.Basic
import ArrowScript.Text.Alphanumeric
import ArrowScript.Text.Digit

namespace ArrowScript

/-!
# Reading the marks of a pattern text

The text of a pattern or of a replacement is a list of marks: single
characters, and characters behind a backslash.
-/

/-- A character of a pattern text, alone or behind a backslash. -/
structure Mark where
  escaped : Bool
  character : Char
deriving Repr, DecidableEq

def Mark.width (mark : Mark) : Nat :=
  if mark.escaped then 2 else 1

def Mark.text (mark : Mark) : List Char :=
  if mark.escaped then ['\\', mark.character] else [mark.character]

/-- The marks of a text, and whether a backslash is left over at its end. -/
def Mark.ofText : List Char → List Mark × Bool
  | [] => ([], false)
  | ['\\'] => ([], true)
  | '\\' :: char :: rest =>
      let inner := ofText rest
      (⟨true, char⟩ :: inner.1, inner.2)
  | char :: rest =>
      let inner := ofText rest
      (⟨false, char⟩ :: inner.1, inner.2)

/-- The marks to read, the offset of the first, and whether a backslash is left over at the end. -/
structure Marks where
  rest : List Mark
  offset : Nat
  dangling : Bool
deriving Repr, DecidableEq

namespace Marks

/-- A left over backslash is noticed as soon as everything in front of it was read. -/
def checkDangling (marks : Marks) : Except PatternError Marks :=
  if marks.rest.isEmpty && marks.dangling then .error ⟨.escapeAtEnd, marks.offset⟩
  else .ok marks

/-- The marks of a text. -/
def ofText (text : List Char) : Except PatternError Marks :=
  let marks := Mark.ofText text
  checkDangling ⟨marks.1, 0, marks.2⟩

/-- The first mark and those behind it. -/
def take? (marks : Marks) : Except PatternError (Option (Mark × Marks)) :=
  match marks.rest with
  | [] => .ok none
  | mark :: rest => do
      let behind ← checkDangling ⟨rest, marks.offset + mark.width, marks.dangling⟩
      return some (mark, behind)

def startsWith (marks : Marks) (char : Char) : Bool :=
  marks.rest.head? == some ⟨false, char⟩

/-- Read a plain character if it comes first. -/
def accept? (marks : Marks) (char : Char) : Except PatternError (Option Marks) :=
  if marks.startsWith char then
    return (← marks.take?).map Prod.snd
  else
    return none

/-- The next mark, if it is a plain character of a class. -/
def nextIn? (marks : Marks) (isMember : Char → Bool) : Option Char :=
  match marks.rest with
  | ⟨false, char⟩ :: _ => if isMember char then some char else none
  | _ => none

/-- Read plain characters of a class, at most the given number of them. -/
def takeWhile (isMember : Char → Bool) : Nat → Marks →
    Except PatternError (List Char × Marks)
  | 0, marks => .ok ([], marks)
  | count + 1, marks =>
      match marks.nextIn? isMember with
      | none => .ok ([], marks)
      | some char => do
          match ← marks.take? with
          | none => .ok ([], marks)
          | some (_, behind) =>
              let (characters, rest) ← takeWhile isMember count behind
              return (char :: characters, rest)

/-- Read a name up to a terminator; marks of a name keep their backslashes. -/
def nameUntil (terminator : Char) :
    Nat → List Char → Marks → Except PatternError (List Char × Marks)
  | 0, name, marks => .error ⟨.unterminatedName terminator, marks.offset - name.length⟩
  | count + 1, name, marks => do
      match ← marks.take? with
      | none =>
          if name.isEmpty then .error ⟨.missingName, marks.offset⟩
          else .error ⟨.unterminatedName terminator, marks.offset - name.length⟩
      | some (mark, behind) =>
          if mark = ⟨false, terminator⟩ then
            if name.isEmpty then .error ⟨.missingName, behind.offset - 1⟩
            else .ok (name, behind)
          else
            nameUntil terminator count (name ++ mark.text) behind

def name (marks : Marks) (terminator : Char) : Except PatternError (List Char × Marks) :=
  nameUntil terminator (marks.rest.length + 1) [] marks

end Marks

def isOctalDigit (char : Char) : Bool :=
  '0' ≤ char && char ≤ '7'

def isHexDigit (char : Char) : Bool :=
  char.isDigit || ('a' ≤ char && char ≤ 'f') ||
    ('A' ≤ char && char ≤ 'F')

/-- The number that digits of a base up to sixteen write. -/
def ofBaseDigits (base : Nat) (digits : List Char) : Nat :=
  digits.foldl (fun value char =>
    value * base +
      (if char.isDigit then char.toNat - '0'.toNat
        else char.toLower.toNat - 'a'.toNat + 10)) 0

/-- The characters that an escape can name by a letter or write as itself. -/
def escapedCharacter? : Char → Option Char
  | 'a' => some '\x07'
  | 'b' => some '\x08'
  | 'f' => some '\x0c'
  | 'n' => some '\n'
  | 'r' => some '\r'
  | 't' => some '\t'
  | 'v' => some '\x0b'
  | '\\' => some '\\'
  | _ => none

/-- Whether a group can have a name. -/
def isGroupName (name : List Char) : Bool :=
  match name with
  | [] => false
  | first :: rest =>
      let isStart := fun char => char == '_' ||
        (Text.isAlphanumeric char && !Text.isDigit char)
      isStart first && rest.all fun char => char == '_' || Text.isAlphanumeric char

end ArrowScript
