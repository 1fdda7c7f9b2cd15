import ArrowScript.Number.Text
import ArrowScript.Text.Blank
import ArrowScript.Text.Digit

namespace ArrowScript.Text

/-!
# Numbers in free text

`number?` reads a number that a user typed: white space around it is ignored,
digits of any script count, single underscores may stand between digits, and
infinity and NaN have names.
-/

def isPlainBlank (char : Char) : Bool :=
  char == ' ' || (9 ≤ char.toNat && char.toNat ≤ 13)

/-- Write a digit of any script as a plain digit and white space as a plain blank. -/
def plainCharacter? (char : Char) : Option Char :=
  if char.toNat < 127 then some char
  else if isBlank char then some ' '
  else (digitValue? char).map fun value => Char.ofNat (value + '0'.toNat)

/-- Write a text in plain characters, if that can be done; plain text stays as it is. -/
def plainText? (text : List Char) : Option (List Char) :=
  if text.all fun char => char.toNat < 128 then some text
  else text.mapM plainCharacter?

def trimBlanks (text : List Char) : List Char :=
  ((text.dropWhile isPlainBlank).reverse.dropWhile isPlainBlank).reverse

/-- Leave out underscores; each must stand between two digits. -/
def dropUnderscores (previous : Char) : List Char → Option (List Char)
  | [] => if previous = '_' then none else some []
  | '_' :: rest => if previous.isDigit then dropUnderscores '_' rest else none
  | character :: rest =>
      if previous = '_' && !character.isDigit then none
      else (dropUnderscores character rest).map (character :: ·)

/-- Split off a sign; the first part says whether it is negative. -/
def splitSign : List Char → Bool × List Char
  | '-' :: rest => (true, rest)
  | '+' :: rest => (false, rest)
  | text => (false, text)

def exponent? (text : List Char) : Option Int :=
  let (negative, digits) := splitSign text
  if digits.isEmpty || !digits.all Char.isDigit then none
  else
    let magnitude : Int := Number.ofDigits digits
    some (if negative then -magnitude else magnitude)

/-- Read what follows the digits of a mantissa: nothing, or an exponent. -/
def exponentPart? : List Char → Option Int
  | [] => some 0
  | mark :: rest => if mark = 'e' || mark = 'E' then exponent? rest else none

/-- Read digits with an optional fraction and an optional exponent. -/
def decimal? (text : List Char) : Option Decimal :=
  let whole := text.takeWhile Char.isDigit
  let rest := text.dropWhile Char.isDigit
  let (fraction, rest) :=
    match rest with
    | '.' :: behind => (behind.takeWhile Char.isDigit, behind.dropWhile Char.isDigit)
    | rest => ([], rest)
  if whole.isEmpty && fraction.isEmpty then none
  else
    (exponentPart? rest).map fun exponent =>
      ⟨Number.ofDigits (whole ++ fraction), exponent - fraction.length⟩

/-- Read a magnitude: a name or a decimal. -/
def magnitude? (negative : Bool) (text : List Char) : Option Float :=
  let name := String.ofList (text.map Char.toLower)
  if name = "inf" || name = "infinity" then
    some (if negative then -Number.infinity else Number.infinity)
  else if name = "nan" then some Number.notANumber
  else (decimal? text).map fun decimal => decimal.toNumber negative

def number? (text : String) : Option Float := do
  let plain ← plainText? text.toList
  let digits ← dropUnderscores '\x00' (trimBlanks plain)
  let (negative, magnitude) := splitSign digits
  magnitude? negative magnitude

end ArrowScript.Text
