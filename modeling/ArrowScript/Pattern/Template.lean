import ArrowScript.Pattern.Marks
import ArrowScript.Pattern.Matcher
import ArrowScript.Text.Numeral

namespace ArrowScript

/-!
# Replacement templates

A template is text with references to groups of the match that it replaces.
-/

/-- A part of a replacement. -/
inductive TemplatePart
  | text (characters : List Char)
  | group (index : Nat)
deriving Repr, DecidableEq

/-- What is wrong with a replacement. -/
inductive TemplateFault
  | malformed (error : PatternError)
  | unknownGroup (name : String)
deriving Repr, DecidableEq

namespace Template

/-- What a reader of templates gives back: a part and the marks behind it. -/
abbrev Reading := Except TemplateFault (TemplatePart × Marks)

def reading (result : Except PatternError α) : Except TemplateFault α :=
  result.mapError .malformed

/-- A reference by number; `width` characters back stands the place of a fault. -/
def reference (regex : Regex) (index width : Nat) (marks : Marks) : Reading :=
  if index ≤ regex.groupCount then .ok (.group index, marks)
  else .error (.malformed ⟨.invalidReference index, marks.offset - width⟩)

def index? (name : List Char) : Option Nat := do
  let plain ← Text.plainText? name
  let digits ← Text.dropUnderscores '\x00' (Text.trimBlanks plain)
  let (negative, digits) := Text.splitSign digits
  if digits.isEmpty || !digits.all Char.isDigit then none
  else
    let index := Number.ofDigits digits
    if negative && index != 0 then none else some index

def namedReference (regex : Regex) (marks : Marks) : Reading := do
  match ← reading (marks.accept? '<') with
  | none => .error (.malformed ⟨.missingAngle, marks.offset⟩)
  | some marks =>
      let (name, marks) ← reading (marks.name '>')
      let text := String.ofList name
      if isGroupName name then
        match regex.groupNames.lookup text with
        | some index => .ok (.group index, marks)
        | none => .error (.unknownGroup text)
      else
        match index? name with
        | some index => reference regex index (name.length + 1) marks
        | none => .error (.malformed ⟨.badName text, marks.offset - (name.length + 1)⟩)

/-- An escape that starts with a digit other than zero. -/
def digitReference (regex : Regex) (first : Char) (marks : Marks) : Reading := do
  let (second, marks) ← reading (marks.takeWhile Char.isDigit 1)
  let digits := first :: second
  let (third, marks) ←
    if digits.length = 2 && digits.all isOctalDigit then
      reading (marks.takeWhile isOctalDigit 1)
    else pure ([], marks)
  if third.isEmpty then
    reference regex (Number.ofDigits digits) digits.length marks
  else
    let octal := digits ++ third
    let code := ofBaseDigits 8 octal
    if code ≤ 0xff then
      .ok (.text [Char.ofNat code], marks)
    else
      .error (.malformed ⟨.octalTooLarge (String.ofList ('\\' :: octal)), marks.offset - 4⟩)

/-- A character behind a backslash; `marks` stand behind it. -/
def escape (regex : Regex) (letter : Char) (marks : Marks) : Reading := do
  if letter = 'g' then
    namedReference regex marks
  else if letter = '0' then
    let (digits, marks) ← reading (marks.takeWhile isOctalDigit 2)
    .ok (.text [Char.ofNat (ofBaseDigits 8 digits % 0x100)], marks)
  else if letter.isDigit then
    digitReference regex letter marks
  else
    match escapedCharacter? letter with
    | some char => .ok (.text [char], marks)
    | none =>
        if letter.isAlpha then
          .error (.malformed ⟨.badEscape (String.ofList ['\\', letter]), marks.offset - 2⟩)
        else
          .ok (.text ['\\', letter], marks)

def parts (regex : Regex) : Nat → Marks → Except TemplateFault (List TemplatePart)
  | 0, _ => .ok []
  | bound + 1, marks => do
      match ← reading marks.take? with
      | none => .ok []
      | some (mark, behind) =>
          let (part, behind) ←
            if mark.escaped then escape regex mark.character behind
            else pure (.text [mark.character], behind)
          return part :: (← parts regex bound behind)

/-- Read a replacement for the matches of a regular expression. -/
def ofText (regex : Regex) (text : List Char) : Except TemplateFault (List TemplatePart) := do
  let marks ← reading (Marks.ofText text)
  parts regex text.length marks

/-- The text of a part for a match; a group that took no part is empty. -/
def expandPart (found : RegexMatch) : TemplatePart → List Char
  | .text chars => chars
  | .group 0 => found.text
  | .group index => (found.groups.lookup index).getD []

/-- What replaces a match. -/
def expand (template : List TemplatePart) (found : RegexMatch) : List Char :=
  template.flatMap (expandPart found)

end Template

/-- Replace all matches. -/
def Regex.replaceAll (regex : Regex) (template : List TemplatePart)
    (subject : List Char) : List Char :=
  let found := regex.matchesOf subject
  found.1.flatMap (fun each => each.skipped ++ Template.expand template each) ++ found.2

end ArrowScript
