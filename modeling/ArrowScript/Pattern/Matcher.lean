import ArrowScript.Pattern.Basic
import ArrowScript.Text.Alphanumeric
import ArrowScript.Text.Blank
import ArrowScript.Text.Digit
import ArrowScript.Text.Lowercase

namespace ArrowScript

/-!
# Matching

Matching backtracks: a pattern is tried at a place together with what has to
match behind it, and the first way that succeeds is taken.
-/

/-- A place in a subject: the character in front of it and the text behind it. -/
structure Place where
  offset : Nat
  before : Option Char
  rest : List Char
deriving Repr, DecidableEq

def Place.start (subject : List Char) : Place :=
  ⟨0, none, subject⟩

def Place.next? (place : Place) : Option (Char × Place) :=
  match place.rest with
  | [] => none
  | char :: rest => some (char, ⟨place.offset + 1, some char, rest⟩)

/-- The text between two places. -/
def Place.textTo (first last : Place) : List Char :=
  first.rest.take (last.offset - first.offset)

/-- How far an attempt to match has come, and what its groups hold, latest first. -/
structure Attempt where
  place : Place
  groups : List (Nat × List Char)
deriving Repr, DecidableEq

def Attempt.group? (attempt : Attempt) (index : Nat) : Option (List Char) :=
  attempt.groups.lookup index

/-- How a match goes on. -/
abbrev Continuation := Attempt → Option Attempt

def isWordCharacter (char : Char) : Bool :=
  char == '_' || Text.isAlphanumeric char

def CharacterClass.has (name : CharacterClass) (char : Char) : Bool :=
  match name with
  | .digit => Text.isDigit char
  | .blank => Text.isBlank char
  | .word => isWordCharacter char

def SetItem.has (item : SetItem) (char : Char) : Bool :=
  match item with
  | .single member => member == char
  | .range first last => first ≤ char && char ≤ last
  | .named name negated => name.has char != negated

/-- Whether a member of a set covers a lower case letter when the case of letters does not count. -/
def SetItem.hasIgnoringCase (item : SetItem) (lower : Char) : Bool :=
  match item with
  | .single member => Text.sameLowercase (Text.lowercase member) lower
  | .range first last =>
      item.has lower ||
        (List.range (last.toNat - first.toNat + 1)).any fun distance =>
          Text.sameLowercase (Text.lowercase (Char.ofNat (first.toNat + distance))) lower
  | .named .. => item.has lower

namespace PatternFlags

def same (flags : PatternFlags) (expected character : Char) : Bool :=
  if flags.ignoreCase then
    Text.sameLowercase (Text.lowercase expected) (Text.lowercase character)
  else
    expected == character

def covers (flags : PatternFlags) (negated : Bool) (items : List SetItem)
    (character : Char) : Bool :=
  let found :=
    if flags.ignoreCase then
      let lower := Text.lowercase character
      items.any fun item => item.hasIgnoringCase lower
    else
      items.any fun item => item.has character
  found != negated

/-- Whether an anchor asks for a place; in an empty subject the word anchors ask for none. -/
def stands (flags : PatternFlags) (anchor : Anchor) (place : Place) : Bool :=
  match anchor with
  | .lineStart => place.before.isNone || (flags.multiline && place.before == some '\n')
  | .lineEnd =>
      place.rest.isEmpty || place.rest == ['\n'] ||
        (flags.multiline && place.rest.head? == some '\n')
  | .subjectStart => place.before.isNone
  | .subjectEnd => place.rest.isEmpty
  | .wordBoundary negated =>
      let isWord := fun (char : Option Char) => char.any isWordCharacter
      let isEmptySubject := place.before.isNone && place.rest.isEmpty
      !isEmptySubject && (isWord place.before != isWord place.rest.head?) != negated

end PatternFlags

/-- Match one character. -/
def matchCharacter (isMember : Char → Bool) (attempt : Attempt)
    (next : Continuation) : Option Attempt :=
  match attempt.place.next? with
  | none => none
  | some (char, place) =>
      if isMember char then next { attempt with place := place } else none

def matchText (isSame : Char → Char → Bool) : List Char → Attempt → Continuation →
    Option Attempt
  | [], attempt, next => next attempt
  | expected :: text, attempt, next =>
      matchCharacter (isSame expected) attempt fun behind =>
        matchText isSame text behind next

/-- How often a pattern is repeated, and how the number of rounds is chosen. -/
structure RepetitionRule where
  least : Nat
  most : Option Nat
  greed : Greed
deriving Repr, DecidableEq

def RepetitionRule.allowsMore (rule : RepetitionRule) (done : Nat) : Bool :=
  match rule.most with
  | none => true
  | some most => done < most

/-- Repeat what `inner` matches; beyond the least number, no round starts where the last one did. -/
def RepetitionRule.rounds (rule : RepetitionRule)
    (inner : Attempt → Continuation → Option Attempt) :
    (bound done : Nat) → (last : Option Nat) → Attempt → Continuation → Option Attempt
  | 0, _, _, _, _ => none
  | bound + 1, done, last, attempt, next =>
      if done < rule.least then
        inner attempt fun behind => rounds rule inner bound (done + 1) last behind next
      else
        let more := fun (_ : Unit) =>
          if rule.allowsMore done && last != some attempt.place.offset then
            inner attempt fun behind =>
              rounds rule inner bound (done + 1) (some attempt.place.offset) behind next
          else none
        match rule.greed with
        | .lazy => (next attempt).orElse more
        | .greedy | .possessive => (more ()).orElse fun _ => next attempt

/-- Match a pattern at a place, and what follows it. -/
def Pattern.matchAt (flags : PatternFlags) : Pattern → Attempt → Continuation → Option Attempt
  | .empty, attempt, next => next attempt
  | .character expected, attempt, next =>
      matchCharacter (flags.same expected) attempt next
  | .anything, attempt, next =>
      matchCharacter (fun character => flags.matchLineEnds || character != '\n') attempt next
  | .set negated items, attempt, next =>
      matchCharacter (flags.covers negated items) attempt next
  | .anchor place, attempt, next =>
      if flags.stands place attempt.place then next attempt else none
  | .capture index inner, attempt, next =>
      matchAt flags inner attempt fun behind =>
        next { behind with
          groups := (index, attempt.place.textTo behind.place) :: behind.groups }
  | .sequence first second, attempt, next =>
      matchAt flags first attempt fun behind => matchAt flags second behind next
  | .either first second, attempt, next =>
      (matchAt flags first attempt next).orElse fun _ =>
        matchAt flags second attempt next
  | .repetition inner least most greed, attempt, next =>
      let rule : RepetitionRule := ⟨least, most, greed⟩
      let bound := least + attempt.place.rest.length + 2
      match greed with
      | .possessive =>
          match rule.rounds (matchAt flags inner) bound 0 none attempt some with
          | none => none
          | some behind => next behind
      | .greedy | .lazy => rule.rounds (matchAt flags inner) bound 0 none attempt next
  | .reference index, attempt, next =>
      match attempt.group? index with
      | none => none
      | some text => matchText flags.same text attempt next
  | .lookahead negated inner, attempt, next =>
      match matchAt flags inner attempt some, negated with
      | some found, false => next { found with place := attempt.place }
      | none, true => next attempt
      | _, _ => none

/-- A match: the text in front of it, its own text, its groups and the place behind it. -/
structure RegexMatch where
  skipped : List Char
  text : List Char
  groups : List (Nat × List Char)
  behind : Place
deriving Repr, DecidableEq

namespace Regex

/-- Match at a place; `advance` refuses a match without characters. -/
def matchAt? (regex : Regex) (place : Place) (advance : Bool) : Option RegexMatch :=
  (regex.pattern.matchAt regex.flags ⟨place, []⟩ fun attempt =>
      if advance && attempt.place.offset == place.offset then none else some attempt).map
    fun attempt => ⟨[], place.textTo attempt.place, attempt.groups, attempt.place⟩

/-- The leftmost match in `rest`; at the first place `advance` refuses one without characters. -/
def search? (regex : Regex) (advance : Bool) (offset : Nat) (before : Option Char) :
    List Char → Option RegexMatch
  | [] => regex.matchAt? ⟨offset, before, []⟩ advance
  | char :: rest =>
      match regex.matchAt? ⟨offset, before, char :: rest⟩ advance with
      | some found => some found
      | none =>
          (search? regex false (offset + 1) (some char) rest).map fun found =>
            { found with skipped := char :: found.skipped }

/-- Matches from a place on, at most the given number of them, and the text behind the last one. -/
def matchesFrom (regex : Regex) : Nat → Place → Bool → List RegexMatch × List Char
  | 0, place, _ => ([], place.rest)
  | bound + 1, place, advance =>
      match regex.search? advance place.offset place.before place.rest with
      | none => ([], place.rest)
      | some found =>
          let later := matchesFrom regex bound found.behind found.text.isEmpty
          (found :: later.1, later.2)

/-- The matches of a regular expression from left to right, and the text behind the last one. -/
def matchesOf (regex : Regex) (subject : List Char) : List RegexMatch × List Char :=
  regex.matchesFrom (2 * subject.length + 2) (.start subject) false

def first? (regex : Regex) (subject : List Char) : Option (List Char) :=
  (regex.search? false 0 none subject).map RegexMatch.text

def all (regex : Regex) (subject : List Char) : List (List Char) :=
  (regex.matchesOf subject).1.map RegexMatch.text

end Regex

end ArrowScript
