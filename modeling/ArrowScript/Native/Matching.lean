import ArrowScript.Native.Arguments
import ArrowScript.Pattern.Reader
import ArrowScript.Pattern.Template

namespace ArrowScript

/-!
# Natives for regular expressions
-/

namespace Native

/-- An argument that must be a regular expression. -/
def patternArgument (native : Native) (args : List Value) (pos : Nat) : Action Regex := do
  let text ← stringArgument native args pos "pattern"
  match Regex.ofText text.toList with
  | .ok regex => return regex
  | .error error => refuse (.badPattern text error)

def runMatchFirst (args : List Value) : Action Value := do
  let text ← stringArgument .matchFirst args 0 "string"
  let regex ← patternArgument .matchFirst args 1
  return .text (String.ofList ((regex.first? text.toList).getD []))

def runMatchAll (args : List Value) : Action Value := do
  let text ← stringArgument .matchAll args 0 "string"
  let regex ← patternArgument .matchAll args 1
  newTexts (regex.all text.toList)

def runReplaceMatches (args : List Value) : Action Value := do
  let text ← stringArgument .replaceMatches args 0 "string"
  let regex ← patternArgument .replaceMatches args 1
  let replacement ← stringArgument .replaceMatches args 2 "replacement"
  match Template.ofText regex replacement.toList with
  | .ok template => return .text (String.ofList (regex.replaceAll template text.toList))
  | .error (.malformed error) => refuse (.badTemplate replacement error)
  | .error (.unknownGroup name) => throw (.unknownGroup name)

end Native

end ArrowScript
