import ArrowScript.Number.Bits

namespace ArrowScript

/-!
# Decimal fractions and doubles

`Decimal.toNumber` reads a decimal fraction as the nearest double, and
`Decimal.shortest` chooses the fewest digits that read back as a given double.
-/

/-- The non-negative quantity `digits · 10 ^ exponent`. -/
structure Decimal where
  digits : Nat
  exponent : Int
deriving Repr, DecidableEq

namespace Decimal

/-- How many decimal digits a number has; zero has none. -/
def digitCount (value : Nat) : Nat :=
  if value = 0 then 0 else (Nat.toDigits 10 value).length

/--
The double nearest to `± digits · 10 ^ exponent`, ties to even.  Quantities
beyond `10 ^ 400` are infinite and those below `10 ^ -400` vanish without
computing their power of ten.
-/
def toNumber (decimal : Decimal) (negative : Bool) : Float :=
  let size := decimal.exponent + digitCount decimal.digits
  if decimal.digits = 0 ∨ size < -400 then Number.ofRatio negative 0 1
  else if 400 < size then if negative then -Number.infinity else Number.infinity
  else if 0 ≤ decimal.exponent then
    Number.ofRatio negative (decimal.digits * Number.tenTo decimal.exponent.toNat) 1
  else
    Number.ofRatio negative decimal.digits (Number.tenTo (-decimal.exponent).toNat)

/-- Move trailing zeros of the digits into the exponent, at most `count` of them. -/
def dropZeros : Nat → Decimal → Decimal
  | 0, decimal => decimal
  | count + 1, decimal =>
      if decimal.digits % 10 = 0 ∧ decimal.digits ≠ 0 then
        dropZeros count ⟨decimal.digits / 10, decimal.exponent + 1⟩
      else
        decimal

/-- The positive ratio `numerator / denominator` as a comparison bound. -/
structure Ratio where
  numerator : Nat
  denominator : Nat

namespace Ratio

def ofDyadic (mantissa : Nat) (exponent : Int) : Ratio :=
  if 0 ≤ exponent then ⟨mantissa * Number.twoTo exponent.toNat, 1⟩
  else ⟨mantissa, Number.twoTo (-exponent).toNat⟩

def overPower (ratio : Ratio) (exponent : Int) : Ratio :=
  if 0 ≤ exponent then ⟨ratio.numerator, ratio.denominator * Number.tenTo exponent.toNat⟩
  else ⟨ratio.numerator * Number.tenTo (-exponent).toNat, ratio.denominator⟩

def floor (ratio : Ratio) : Nat :=
  ratio.numerator / ratio.denominator

def compareNat (ratio : Ratio) (value : Nat) : Ordering :=
  compare ratio.numerator (value * ratio.denominator)

end Ratio

/-- The reals that round to one double; the ends belong to it exactly when `closed` holds. -/
structure Interval where
  lower : Ratio
  upper : Ratio
  closed : Bool

/-- The reals that round to `mantissa · 2 ^ exponent`. -/
def Interval.ofDyadic (mantissa : Nat) (exponent : Int) : Interval where
  lower :=
    if mantissa = Number.twoTo 52 ∧ -1074 < exponent then
      Ratio.ofDyadic (4 * mantissa - 1) (exponent - 2)
    else Ratio.ofDyadic (2 * mantissa - 1) (exponent - 1)
  upper := Ratio.ofDyadic (2 * mantissa + 1) (exponent - 1)
  closed := mantissa % 2 = 0

/-- Whether `value · 10 ^ exponent` lies in the interval. -/
def Interval.contains (interval : Interval) (value : Nat) (exponent : Int) : Bool :=
  let below := (interval.lower.overPower exponent).compareNat value
  let above := (interval.upper.overPower exponent).compareNat value
  (below == .lt || (interval.closed && below == .eq)) &&
    (above == .gt || (interval.closed && above == .eq))

def log10 (mantissa : Nat) (exponent : Int) : Int :=
  let ratio := Ratio.ofDyadic mantissa exponent
  let guess := ((mantissa.log2 : Int) + exponent) * 30103 / 100000
  if (ratio.overPower (guess + 1)).compareNat 1 != .lt then guess + 1
  else if (ratio.overPower guess).compareNat 1 == .lt then guess - 1
  else guess

/--
The candidate with the given last place: of the two neighbours of the value on
that decimal grid, the one that rounds to the double; of two such, the nearer,
and of two equally near, the even one.
-/
def candidate? (mantissa : Nat) (exponent : Int) (place : Int) : Option Decimal :=
  let interval := Interval.ofDyadic mantissa exponent
  let value := (Ratio.ofDyadic mantissa exponent).overPower place
  let floor := value.floor
  let lowFits := interval.contains floor place
  let highFits := interval.contains (floor + 1) place
  if lowFits && highFits then
    some ⟨Number.divideToEven value.numerator value.denominator, place⟩
  else if lowFits then some ⟨floor, place⟩
  else if highFits then some ⟨floor + 1, place⟩
  else none

/-- Try ever finer last places, at most `count` of them. -/
def finestFrom (mantissa : Nat) (exponent : Int) : Nat → Int → Decimal
  | 0, place =>
      ⟨((Ratio.ofDyadic mantissa exponent).overPower place).floor, place⟩
  | count + 1, place =>
      match candidate? mantissa exponent place with
      | some decimal => decimal
      | none => finestFrom mantissa exponent count (place - 1)

/-- The fewest digits that read back as the double `mantissa · 2 ^ exponent`, nearest first. -/
def shortest (mantissa : Nat) (exponent : Int) : Decimal :=
  if mantissa = 0 then ⟨0, 0⟩
  else dropZeros 20 (finestFrom mantissa exponent 17 (log10 mantissa exponent))

end Decimal

end ArrowScript
