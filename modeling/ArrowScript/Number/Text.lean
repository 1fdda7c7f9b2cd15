import ArrowScript.Number.Decimal

namespace ArrowScript.Number

/-!
# Numbers as text and text as numbers

`literal` is the form with the fewest digits that read back, always
recognisable as a fraction; `display` is what scripts print, where whole
numbers show all their digits; `ofLiteral?` reads a numeral of a script.
-/

/-- The words for the quantities that have no digits. -/
structure Words where
  notANumber : String
  infinity : String
deriving Repr, DecidableEq

def literalWords : Words := ⟨"nan", "inf"⟩

def displayWords : Words := ⟨"NaN", "Infinity"⟩

def zeros (count : Nat) : String :=
  String.ofList (List.replicate count '0')

def digits (value : Nat) : String :=
  String.ofList (Nat.toDigits 10 value)

/-- Scientific form: a digit, the fraction if any, a sign and at least two exponent digits. -/
def scientific (text : List Char) (exponent : Int) : String :=
  let mantissa :=
    match text with
    | [] => "0"
    | [lead] => String.ofList [lead]
    | lead :: fraction => String.ofList (lead :: '.' :: fraction)
  let magnitude := digits exponent.natAbs
  let sign := if exponent < 0 then "-" else "+"
  mantissa ++ "e" ++ sign ++ (if magnitude.length < 2 then "0" ++ magnitude else magnitude)

/-- Positional form with at least one digit on either side of the point. -/
def positional (text : List Char) (exponent : Int) (place : Int) : String :=
  if 0 ≤ place then String.ofList text ++ zeros place.toNat ++ ".0"
  else if 0 ≤ exponent then
    let wholeDigits := exponent.toNat + 1
    String.ofList (text.take wholeDigits) ++ "." ++ String.ofList (text.drop wholeDigits)
  else
    "0." ++ zeros (-exponent - 1).toNat ++ String.ofList text

/-- A decimal quantity: positional from `10 ^ -4` up to `10 ^ 16`, scientific outside. -/
def decimalText (decimal : Decimal) : String :=
  if decimal.digits = 0 then "0.0"
  else
    let text := Nat.toDigits 10 decimal.digits
    let exponent := decimal.exponent + text.length - 1
    if -4 ≤ exponent ∧ exponent < 16 then positional text exponent decimal.exponent
    else scientific text exponent

/-- The fewest digits that read back, with the given words for NaN and infinity. -/
def textWith (words : Words) (x : Float) : String :=
  match decode x with
  | .nan => words.notANumber
  | .infinite negative => (if negative then "-" else "") ++ words.infinity
  | .finite negative mantissa exponent =>
      (if negative then "-" else "") ++ decimalText (Decimal.shortest mantissa exponent)

def literal (x : Float) : String :=
  textWith literalWords x

def integerText (value : Int) : String :=
  (if value < 0 then "-" else "") ++ digits value.natAbs

/-- What scripts print: whole numbers in full, without a sign on zero, others in literal form. -/
def display (x : Float) : String :=
  match whole? x with
  | some value => integerText value
  | none => textWith displayWords x

def digitValue (char : Char) : Nat :=
  char.toNat - '0'.toNat

def ofDigits (text : List Char) : Nat :=
  text.foldl (fun value char => value * 10 + digitValue char) 0

/--
The number that a numeral of a script writes: digits with at most one point
among them, before them or behind them.
-/
def ofLiteral? (text : List Char) : Option Float :=
  let whole := text.takeWhile Char.isDigit
  match text.dropWhile Char.isDigit with
  | [] =>
      if whole.isEmpty then none
      else some (Decimal.toNumber ⟨ofDigits whole, 0⟩ false)
  | point :: fraction =>
      if point = '.' && fraction.all Char.isDigit && !(whole.isEmpty && fraction.isEmpty) then
        some (Decimal.toNumber ⟨ofDigits (whole ++ fraction), -(fraction.length : Int)⟩ false)
      else
        none

end ArrowScript.Number
