import ArrowScript.Pattern.Marks

namespace ArrowScript

/-!
# Reading patterns

A pattern text is read mark by mark.  Groups that are still open stand on a
stack; each of them keeps its finished alternatives and the items of the
current one.
-/

/-- What an item of an alternative is, as far as a repetition behind it cares. -/
inductive ItemKind
  | plain
  | anchor
  | repetition
deriving Repr, DecidableEq

/-- A pattern and how it may be repeated. -/
structure PatternItem where
  pattern : Pattern
  kind : ItemKind

/-- What becomes of a group when it is closed. -/
inductive GroupKind
  | whole
  | capture (index : Nat)
  | plain
  | lookahead (negated : Bool)
deriving Repr, DecidableEq

/-- An open group; items are kept latest first. -/
structure OpenGroup where
  kind : GroupKind
  opening : Nat
  alternatives : List Pattern
  items : List PatternItem

namespace OpenGroup

def start (kind : GroupKind) (opening : Nat) : OpenGroup :=
  ⟨kind, opening, [], []⟩

/-- The alternative being read. -/
def current (group : OpenGroup) : Pattern :=
  group.items.foldl (fun later item =>
    match later with
    | .empty => item.pattern
    | _ => .sequence item.pattern later) .empty

def push (group : OpenGroup) (item : PatternItem) : OpenGroup :=
  { group with items := item :: group.items }

/-- Start another alternative. -/
def nextAlternative (group : OpenGroup) : OpenGroup :=
  { group with alternatives := group.alternatives ++ [group.current], items := [] }

/-- The alternatives joined, first one preferred. -/
def joined : List Pattern → Pattern → Pattern
  | [], last => last
  | first :: rest, last => .either first (joined rest last)

def close (group : OpenGroup) : Pattern :=
  let inner := joined group.alternatives group.current
  match group.kind with
  | .whole | .plain => inner
  | .capture index => .capture index inner
  | .lookahead negated => .lookahead negated inner

end OpenGroup

/-- The state of reading a pattern. -/
structure PatternReader where
  marks : Marks
  group : OpenGroup
  outer : List OpenGroup
  flags : PatternFlags
  groupCount : Nat
  groupNames : List (String × Nat)
  closedGroups : List Nat

namespace PatternReader

variable (reader : PatternReader)

def continueAt (marks : Marks) : PatternReader :=
  { reader with marks := marks }

/-- Add an item to the current alternative and go on behind some marks. -/
def add (pattern : Pattern) (marks : Marks)
    (kind : ItemKind := .plain) : PatternReader :=
  { reader with marks := marks, group := reader.group.push ⟨pattern, kind⟩ }

def namedClass? : Char → Option (CharacterClass × Bool)
  | 'd' => some (.digit, false)
  | 'D' => some (.digit, true)
  | 's' => some (.blank, false)
  | 'S' => some (.blank, true)
  | 'w' => some (.word, false)
  | 'W' => some (.word, true)
  | _ => none

def namedAnchor? : Char → Option Anchor
  | 'A' => some .subjectStart
  | 'Z' => some .subjectEnd
  | 'b' => some (.wordBoundary false)
  | 'B' => some (.wordBoundary true)
  | _ => none

/-- A character given by a fixed number of hexadecimal digits. -/
def hexEscape (letter : Char) (digits : Nat)
    (marks : Marks) : Except PatternError (Char × Marks) := do
  let (found, rest) ← marks.takeWhile isHexDigit digits
  let text := '\\' :: letter :: found
  if found.length = digits then
    let code := ofBaseDigits 16 found
    if code.isValidChar then
      return (Char.ofNat code, rest)
    else
      .error ⟨.badEscape (String.ofList text), rest.offset - text.length⟩
  else
    .error ⟨.incompleteEscape (String.ofList text), rest.offset - text.length⟩

/-- A character given by octal digits; the digits stand behind a backslash. -/
def octalEscape (digits : List Char) (marks : Marks) : Except PatternError (Char × Marks) :=
  let code := ofBaseDigits 8 digits
  if code ≤ 0xff then .ok (Char.ofNat code, marks)
  else
    .error ⟨.octalTooLarge (String.ofList ('\\' :: digits)), marks.offset - (digits.length + 1)⟩

/-- The character of an escape that names no class, place or group; `marks` stand behind it. -/
def characterEscape (letter : Char) (marks : Marks) : Except PatternError (Char × Marks) :=
  if letter = 'x' then hexEscape 'x' 2 marks
  else if letter = 'u' then hexEscape 'u' 4 marks
  else if letter = 'U' then hexEscape 'U' 8 marks
  else if letter.isAlpha then
    .error ⟨.badEscape (String.ofList ['\\', letter]), marks.offset - 2⟩
  else .ok (letter, marks)

/-- A reference to a group that must be closed already. -/
def groupReference (digits : List Char)
    (marks : Marks) : Except PatternError PatternReader :=
  let index := Number.ofDigits digits
  if reader.groupCount < index then
    .error ⟨.invalidReference index, marks.offset - digits.length⟩
  else if reader.closedGroups.contains index then
    .ok (reader.add (.reference index) marks)
  else
    .error ⟨.openReference, marks.offset - (digits.length + 1)⟩

/-- An escape that starts with a digit other than zero: a reference, or three octal digits. -/
def digitEscape (first : Char)
    (marks : Marks) : Except PatternError PatternReader := do
  let (second, marks) ← marks.takeWhile Char.isDigit 1
  let digits := first :: second
  if digits.length = 2 && digits.all isOctalDigit then
    let (third, marks) ← marks.takeWhile isOctalDigit 1
    if third.isEmpty then
      groupReference reader digits marks
    else
      let (character, marks) ← octalEscape (digits ++ third) marks
      return reader.add (.character character) marks
  else
    groupReference reader digits marks

/-- An escape outside a character set; `marks` stand behind it. -/
def escape (letter : Char) (marks : Marks) : Except PatternError PatternReader := do
  match namedClass? letter, namedAnchor? letter, escapedCharacter? letter with
  | some (name, negated), _, _ => return reader.add (.set false [.named name negated]) marks
  | none, some anchor, _ => return reader.add (.anchor anchor) marks .anchor
  | none, none, some char => return reader.add (.character char) marks
  | none, none, none =>
      if letter = '0' then
        let (digits, marks) ← marks.takeWhile isOctalDigit 2
        return reader.add (.character (Char.ofNat (ofBaseDigits 8 digits))) marks
      else if letter.isDigit then
        reader.digitEscape letter marks
      else
        let (char, marks) ← characterEscape letter marks
        return reader.add (.character char) marks

/-- A member of a character set: a character, or a class that an escape names. -/
def setMember (mark : Mark) (marks : Marks) : Except PatternError (SetItem × Marks) := do
  if !mark.escaped then
    return (.single mark.character, marks)
  match escapedCharacter? mark.character, namedClass? mark.character with
  | some char, _ => return (.single char, marks)
  | none, some (name, negated) => return (.named name negated, marks)
  | none, none =>
      if isOctalDigit mark.character then
        let (digits, marks) ← marks.takeWhile isOctalDigit 2
        let (char, marks) ← octalEscape (mark.character :: digits) marks
        return (.single char, marks)
      else if mark.character.isDigit then
        .error ⟨.badEscape (String.ofList mark.text), marks.offset - 2⟩
      else
        let (char, marks) ← characterEscape mark.character marks
        return (.single char, marks)

/-- A range of characters; its ends are named in the text of the fault. -/
def setRange (first last : SetItem) (text : List Char)
    (marks : Marks) : Except PatternError SetItem :=
  let fault : PatternError := ⟨.badRange (String.ofList text), marks.offset - text.length⟩
  match first, last with
  | .single low, .single high => if high < low then .error fault else .ok (.range low high)
  | _, _ => .error fault

/-- The members of a character set behind its opening bracket at `opening`. -/
def setItems (opening : Nat) :
    Nat → List SetItem → Marks → Except PatternError (List SetItem × Marks)
  | 0, _, _ => .error ⟨.unterminatedSet, opening⟩
  | count + 1, items, marks => do
      match ← marks.take? with
      | none => .error ⟨.unterminatedSet, opening⟩
      | some (mark, behind) =>
          if mark = ⟨false, ']'⟩ && !items.isEmpty then
            return (items, behind)
          let (first, behind) ← setMember mark behind
          match ← behind.accept? '-' with
          | none => setItems opening count (items ++ [first]) behind
          | some behind =>
              match ← behind.take? with
              | none => .error ⟨.unterminatedSet, opening⟩
              | some (lastMark, behind) =>
                  if lastMark = ⟨false, ']'⟩ then
                    return (items ++ [first, .single '-'], behind)
                  let (last, behind) ← setMember lastMark behind
                  let range ← setRange first last (mark.text ++ '-' :: lastMark.text) behind
                  setItems opening count (items ++ [range]) behind

def set (opening : Nat) (marks : Marks) : Except PatternError PatternReader := do
  let negation ← marks.accept? '^'
  let inner := negation.getD marks
  let (items, rest) ← setItems opening (inner.rest.length + 1) [] inner
  return reader.add (.set negation.isSome items) rest

def repetitionLimit : Nat := 4294967295

/-- The bounds of a repetition behind its opening brace; none if the brace stands for itself. -/
def bounds? (marks : Marks) : Except PatternError (Option (Nat × Option Nat × Marks)) := do
  if marks.startsWith '}' then
    return none
  let (low, afterLow) ← marks.takeWhile Char.isDigit marks.rest.length
  let comma ← afterLow.accept? ','
  let (high, afterHigh) ←
    match comma with
    | some behind => behind.takeWhile Char.isDigit behind.rest.length
    | none => pure (low, afterLow)
  match ← afterHigh.accept? '}' with
  | none => return none
  | some behind =>
      let least := Number.ofDigits low
      let most := if high.isEmpty then none else some (Number.ofDigits high)
      if repetitionLimit ≤ least || most.any (repetitionLimit ≤ ·) then
        .error ⟨.repeatTooLarge, marks.offset⟩
      match most with
      | some limit =>
          if limit < least then
            .error ⟨.repeatBoundsReversed, marks.offset⟩
          return some (least, most, behind)
      | none => return some (least, most, behind)

/-- How a repetition chooses the number of rounds, by the mark behind it. -/
def greed (marks : Marks) : Except PatternError (Greed × Marks) := do
  match ← marks.accept? '?' with
  | some behind => return (.lazy, behind)
  | none =>
      match ← marks.accept? '+' with
      | some behind => return (.possessive, behind)
      | none => return (.greedy, marks)

/-- Repeat the last item; `opening` is the offset of the mark that asks for it. -/
def repeatLast (opening least : Nat) (most : Option Nat)
    (marks : Marks) : Except PatternError PatternReader :=
  match reader.group.items with
  | [] => .error ⟨.nothingToRepeat, opening⟩
  | item :: earlier =>
      match item.kind with
      | .anchor => .error ⟨.nothingToRepeat, opening⟩
      | .repetition => .error ⟨.multipleRepeat, opening⟩
      | .plain => do
          let (greed, marks) ← greed marks
          let repeated : PatternItem := ⟨.repetition item.pattern least most greed, .repetition⟩
          return { reader with
            marks := marks, group := { reader.group with items := repeated :: earlier } }

def openGroup (kind : GroupKind) (opening : Nat) (marks : Marks) : PatternReader :=
  { reader with
    marks := marks, group := .start kind opening, outer := reader.group :: reader.outer }

def openCapture (opening : Nat) (marks : Marks) : PatternReader :=
  let index := reader.groupCount + 1
  { reader.openGroup (.capture index) opening marks with groupCount := index }

def openNamed (opening : Nat)
    (marks : Marks) : Except PatternError PatternReader := do
  let (name, marks) ← marks.name '>'
  let text := String.ofList name
  if !isGroupName name then
    .error ⟨.badName text, marks.offset - (name.length + 1)⟩
  match reader.groupNames.lookup text with
  | some earlier =>
      .error ⟨.redefinedName text (reader.groupCount + 1) earlier,
        marks.offset - (name.length + 1)⟩
  | none =>
      let opened := reader.openCapture opening marks
      return { opened with groupNames := opened.groupNames ++ [(text, opened.groupCount)] }

def namedReference (marks : Marks) : Except PatternError PatternReader := do
  let (name, marks) ← marks.name ')'
  let text := String.ofList name
  let offset := marks.offset - (name.length + 1)
  if !isGroupName name then
    .error ⟨.badName text, offset⟩
  match reader.groupNames.lookup text with
  | none => .error ⟨.unknownName text, offset⟩
  | some index =>
      if reader.closedGroups.contains index then
        return reader.add (.reference index) marks
      else
        .error ⟨.openReference, offset⟩

def flag? (flags : PatternFlags) : Char → Option PatternFlags
  | 'i' => some { flags with ignoreCase := true }
  | 'm' => some { flags with multiline := true }
  | 's' => some { flags with matchLineEnds := true }
  | 'u' => some flags
  | _ => none

/-- The flags of a whole pattern, up to the closing parenthesis, behind the given mark. -/
def wholeFlags (opening : Nat) :
    Nat → PatternReader → Mark → Marks → Except PatternError PatternReader
  | 0, _, _, marks => .error ⟨.unterminatedFlags, marks.offset⟩
  | count + 1, reader, mark, marks => do
      match if mark.escaped then none else flag? reader.flags mark.character with
      | none =>
          let isLetter := !mark.escaped && mark.character.isAlpha
          .error ⟨if isLetter then .unknownFlag else .unterminatedFlags,
            marks.offset - mark.width⟩
      | some flags =>
          let reader := { reader with flags := flags }
          match ← marks.take? with
          | none => .error ⟨.unterminatedFlags, marks.offset⟩
          | some (next, behind) =>
              if next = ⟨false, ')'⟩ then
                if reader.outer.isEmpty && reader.group.alternatives.isEmpty &&
                    reader.group.items.isEmpty then
                  return reader.continueAt behind
                else
                  .error ⟨.misplacedFlags, opening⟩
              else
                wholeFlags opening count reader next behind

/-- Read a group that starts with a question mark. -/
def extension (opening : Nat)
    (marks : Marks) : Except PatternError PatternReader := do
  match ← marks.take? with
  | none => .error ⟨.unexpectedEnd, marks.offset⟩
  | some (mark, behind) =>
      match mark with
      | ⟨false, ':'⟩ => return reader.openGroup .plain opening behind
      | ⟨false, '='⟩ => return reader.openGroup (.lookahead false) opening behind
      | ⟨false, '!'⟩ => return reader.openGroup (.lookahead true) opening behind
      | ⟨false, 'P'⟩ =>
          if let some named ← behind.accept? '<' then
            return ← reader.openNamed opening named
          if let some named ← behind.accept? '=' then
            return ← reader.namedReference named
          match ← behind.take? with
          | none => .error ⟨.unexpectedEnd, behind.offset⟩
          | some (letter, rest) =>
              .error ⟨.unknownExtension (String.ofList ('P' :: letter.text)),
                rest.offset - (letter.width + 2)⟩
      | mark =>
          if !mark.escaped && (flag? reader.flags mark.character).isSome then
            wholeFlags opening (behind.rest.length + 1) reader mark behind
          else
            .error ⟨.unknownExtension (String.ofList mark.text),
              behind.offset - (mark.width + 1)⟩

/-- An opening parenthesis at `opening`; `marks` stand behind it. -/
def parenthesis (opening : Nat)
    (marks : Marks) : Except PatternError PatternReader := do
  match ← marks.accept? '?' with
  | some behind => reader.extension opening behind
  | none => return reader.openCapture opening marks

/-- Close the innermost group; `marks` stand behind its closing parenthesis. -/
def closeGroup (closing : Nat)
    (marks : Marks) : Except PatternError PatternReader :=
  match reader.outer with
  | [] => .error ⟨.unbalancedParenthesis, closing⟩
  | group :: outer =>
      let closedGroups :=
        match reader.group.kind with
        | .capture index => index :: reader.closedGroups
        | _ => reader.closedGroups
      .ok { reader with
        marks := marks
        group := group.push ⟨reader.group.close, .plain⟩
        outer := outer
        closedGroups := closedGroups }

/-- Read one mark and what belongs to it; `marks` stand behind it. -/
def step (mark : Mark) (marks : Marks) : Except PatternError PatternReader := do
  let opening := reader.marks.offset
  if mark.escaped then
    return ← reader.escape mark.character marks
  match mark.character with
  | '[' => reader.set opening marks
  | '*' => reader.repeatLast opening 0 none marks
  | '+' => reader.repeatLast opening 1 none marks
  | '?' => reader.repeatLast opening 0 (some 1) marks
  | '{' =>
      match ← bounds? marks with
      | none => return reader.add (.character '{') marks
      | some (least, most, behind) => reader.repeatLast opening least most behind
  | '.' => return reader.add .anything marks
  | '^' => return reader.add (.anchor .lineStart) marks .anchor
  | '$' => return reader.add (.anchor .lineEnd) marks .anchor
  | '(' => reader.parenthesis opening marks
  | ')' => reader.closeGroup opening marks
  | '|' => return { reader with marks := marks, group := reader.group.nextAlternative }
  | character => return reader.add (.character character) marks

/-- Read marks until none is left, at most as many as counted. -/
def steps : Nat → PatternReader → Except PatternError PatternReader
  | 0, reader => .ok reader
  | count + 1, reader => do
      match ← reader.marks.take? with
      | none => return reader
      | some (mark, marks) =>
          let next ← reader.step mark marks
          steps count next

end PatternReader

/-- Read a regular expression. -/
def Regex.ofText (text : List Char) : Except PatternError Regex := do
  let marks ← Marks.ofText text
  let start : PatternReader := ⟨marks, .start .whole 0, [], {}, 0, [], []⟩
  let reader ← PatternReader.steps text.length start
  if reader.outer.isEmpty then
    return ⟨reader.group.close, reader.flags, reader.groupCount, reader.groupNames⟩
  else
    .error ⟨.unterminatedGroup, reader.group.opening⟩

end ArrowScript
