import ArrowScript.Files.Access
import ArrowScript.Number.Text
import ArrowScript.Pattern.Basic

namespace ArrowScript

/-!
# What natives can refuse
-/

/-- The kinds of arguments that natives ask for. -/
inductive ArgumentKind
  | string
  | number
  | array
deriving Repr, DecidableEq

/-- How messages name a kind. -/
def ArgumentKind.phrase : ArgumentKind → String
  | .string => "a string"
  | .number => "a number"
  | .array => "an array"

/-- Why a native refuses its arguments. -/
inductive NativeFault
  | wrongArgument (function parameter : String) (expected : ArgumentKind) (actual : String)
  | negativeWait
  | waitTooLong
  | waitNotANumber
  | lengthOfNull
  | lengthKind
  | negativeSize
  | sizeTooLarge
  | outOfMemory
  | negativeIndex
  | indexOutOfRange (index : Int)
  | emptyDelimiter
  | divisionByZero
  | noRemainder
  | notFinite (reason : Number.NotFinite)
  | fileAbsent (path : String)
  | fileNotRead (path : String)
  | fileNotWritten (path : String)
  | fileNotDeleted (path : String)
  | directoryAbsent (path : String)
  | directoryNotDeleted (path : String)
  | directoryNotMade (path : String)
  | directoryNotRead (path : String)
  | nullInPath
  | notText (error : Text.DecodeError)
  | badPattern (pattern : String) (error : PatternError)
  | badTemplate (template : String) (error : PatternError)
  | host (message : String)
deriving Repr, DecidableEq

def NativeFault.message : NativeFault → String
  | .wrongArgument fn param expected actual =>
      fn ++ " " ++ param ++ " argument must be " ++ expected.phrase ++ ", got " ++
        actual ++ "."
  | .negativeWait => "Time to wait cannot be negative."
  | .waitTooLong => "timestamp too large to convert to C _PyTime_t"
  | .waitNotANumber => "Invalid value NaN (not a number)"
  | .lengthOfNull => "Cannot get the length of null."
  | .lengthKind => "Can only get the length of a string or array."
  | .negativeSize => "Size cannot be negative."
  | .sizeTooLarge => "cannot fit 'int' into an index-sized integer"
  | .outOfMemory => ""
  | .negativeIndex => "Index cannot be negative."
  | .indexOutOfRange index => "Index " ++ Number.integerText index ++ " is out of range."
  | .emptyDelimiter => "Delimiter cannot be empty."
  | .divisionByZero => "Cannot divide by zero."
  | .noRemainder => "math domain error"
  | .notFinite .nan => "cannot convert float NaN to integer"
  | .notFinite .infinity => "cannot convert float infinity to integer"
  | .fileAbsent path => "File '" ++ path ++ "' does not exist."
  | .fileNotRead path => "Error reading file '" ++ path ++ "'."
  | .fileNotWritten path => "Error writing file '" ++ path ++ "'."
  | .fileNotDeleted path => "Error deleting file '" ++ path ++ "'."
  | .directoryAbsent path => "Directory '" ++ path ++ "' does not exist."
  | .directoryNotDeleted path => "Error deleting directory '" ++ path ++ "'."
  | .directoryNotMade path => "Error creating directory '" ++ path ++ "'."
  | .directoryNotRead path => "Error reading directory '" ++ path ++ "'."
  | .nullInPath => "embedded null byte"
  | .notText error => error.message
  | .badPattern pattern error =>
      if error.fault = .repeatTooLarge then error.fault.message
      else
        "Invalid regular expression '" ++ pattern ++ "': " ++ error.message pattern.toList ++ "."
  | .badTemplate template error =>
      "Invalid replacement '" ++ template ++ "': " ++ error.message template.toList ++ "."
  | .host message => message

end ArrowScript
