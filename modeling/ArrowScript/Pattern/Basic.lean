import ArrowScript.Number.Text
import ArrowScript.Text.Quoted

namespace ArrowScript

/-!
# Regular expressions

Patterns as trees, and what can be wrong with the text of a pattern or of a
replacement.
-/

/-- A class of characters that an escape names. -/
inductive CharacterClass
  | digit
  | blank
  | word
deriving Repr, DecidableEq

/-- A member of a set of characters. -/
inductive SetItem
  | single (character : Char)
  | range (first last : Char)
  | named (name : CharacterClass) (negated : Bool)
deriving Repr, DecidableEq

/-- How many rounds a repetition prefers. -/
inductive Greed
  | greedy
  | lazy
  | possessive
deriving Repr, DecidableEq

/-- A place in the subject that a pattern can ask for. -/
inductive Anchor
  | lineStart
  | lineEnd
  | subjectStart
  | subjectEnd
  | wordBoundary (negated : Bool)
deriving Repr, DecidableEq

/-- What a regular expression matches. -/
inductive Pattern
  | empty
  | character (character : Char)
  | anything
  | set (negated : Bool) (items : List SetItem)
  | anchor (anchor : Anchor)
  | capture (index : Nat) (inner : Pattern)
  | sequence (first second : Pattern)
  | either (first second : Pattern)
  | repetition (inner : Pattern) (least : Nat) (most : Option Nat) (greed : Greed)
  | reference (index : Nat)
  | lookahead (negated : Bool) (inner : Pattern)
deriving Repr, DecidableEq, Inhabited

/-- The options of a regular expression. -/
structure PatternFlags where
  ignoreCase : Bool := false
  multiline : Bool := false
  matchLineEnds : Bool := false
deriving Repr, DecidableEq

/-- A pattern ready for matching, with the number of its groups and the names of some. -/
structure Regex where
  pattern : Pattern
  flags : PatternFlags
  groupCount : Nat
  groupNames : List (String × Nat)
deriving Repr, DecidableEq

/-- What is wrong with a pattern. -/
inductive PatternFault
  | unterminatedGroup
  | unbalancedParenthesis
  | unterminatedSet
  | nothingToRepeat
  | multipleRepeat
  | repeatBoundsReversed
  | repeatTooLarge
  | escapeAtEnd
  | badEscape (text : String)
  | incompleteEscape (text : String)
  | octalTooLarge (text : String)
  | badRange (text : String)
  | unexpectedEnd
  | invalidReference (index : Nat)
  | openReference
  | unknownExtension (text : String)
  | unknownName (name : String)
  | missingName
  | unterminatedName (terminator : Char)
  | badName (name : String)
  | redefinedName (name : String) (index earlier : Nat)
  | misplacedFlags
  | unknownFlag
  | unterminatedFlags
  | missingAngle
deriving Repr, DecidableEq

def PatternFault.message : PatternFault → String
  | .unterminatedGroup => "missing ), unterminated subpattern"
  | .unbalancedParenthesis => "unbalanced parenthesis"
  | .unterminatedSet => "unterminated character set"
  | .nothingToRepeat => "nothing to repeat"
  | .multipleRepeat => "multiple repeat"
  | .repeatBoundsReversed => "min repeat greater than max repeat"
  | .repeatTooLarge => "the repetition number is too large"
  | .escapeAtEnd => "bad escape (end of pattern)"
  | .badEscape text => "bad escape " ++ text
  | .incompleteEscape text => "incomplete escape " ++ text
  | .octalTooLarge text => "octal escape value " ++ text ++ " outside of range 0-0o377"
  | .badRange text => "bad character range " ++ text
  | .unexpectedEnd => "unexpected end of pattern"
  | .invalidReference index => "invalid group reference " ++ Number.digits index
  | .openReference => "cannot refer to an open group"
  | .unknownExtension text => "unknown extension ?" ++ text
  | .unknownName name => "unknown group name " ++ Text.quoted name
  | .missingName => "missing group name"
  | .unterminatedName terminator =>
      "missing " ++ String.ofList [terminator] ++ ", unterminated name"
  | .badName name => "bad character in group name " ++ Text.quoted name
  | .redefinedName name index earlier =>
      "redefinition of group name " ++ Text.quoted name ++ " as group " ++ Number.digits index ++
        "; was group " ++ Number.digits earlier
  | .misplacedFlags => "global flags not at the start of the expression"
  | .unknownFlag => "unknown flag"
  | .unterminatedFlags => "missing -, : or )"
  | .missingAngle => "missing <"

/-- A fault and its offset in the pattern. -/
structure PatternError where
  fault : PatternFault
  offset : Nat
deriving Repr, DecidableEq

/-- The located wording of a fault; in a text of several lines the line and column are named too. -/
def PatternError.message (error : PatternError) (text : List Char) : String :=
  let before := text.take error.offset
  let line := before.count '\n' + 1
  let column := (before.reverse.takeWhile (· != '\n')).length + 1
  error.fault.message ++ " at position " ++ Number.digits error.offset ++
    (if text.contains '\n' then
      " (line " ++ Number.digits line ++ ", column " ++ Number.digits column ++ ")"
    else "")

end ArrowScript
