namespace ArrowScript.Number

/-!
# Doubles as exact quantities

Numbers of the language are IEEE doubles.  Everything the language asks about
a number except its four arithmetic operations is answered from the bit
pattern with exact integers: equality, order, wholeness, truncation, and the
nearest double of a ratio.
-/

def twoTo (exponent : Nat) : Nat :=
  Nat.pow 2 exponent

def tenTo (exponent : Nat) : Nat :=
  Nat.pow 10 exponent

/-- What a bit pattern stands for: a finite number is `± mantissa · 2 ^ exponent`. -/
inductive Decoded
  | nan
  | infinite (negative : Bool)
  | finite (negative : Bool) (mantissa : Nat) (exponent : Int)
deriving Repr, DecidableEq

/-- Read the sign, exponent and fraction fields of a double. -/
def decode (x : Float) : Decoded :=
  let bits := x.toBits.toNat
  let negative := decide (twoTo 63 ≤ bits)
  let field : Nat := bits / twoTo 52 % twoTo 11
  let fraction := bits % twoTo 52
  if field = 2047 then
    if fraction = 0 then .infinite negative else .nan
  else if field = 0 then
    .finite negative fraction (-1074)
  else
    .finite negative (twoTo 52 + fraction) ((field : Int) - 1075)

def isNaN (x : Float) : Bool :=
  decode x == .nan

/-- Position of a double on the number line; both zeros share position zero. -/
def rank (x : Float) : Int :=
  let bits := x.toBits.toNat
  if twoTo 63 ≤ bits then -((bits - twoTo 63 : Nat) : Int) else bits

/-- Numeric equality: the zeros are equal and NaN differs from everything. -/
def same (x y : Float) : Bool :=
  !isNaN x && !isNaN y && rank x == rank y

/-- Strict numeric order; NaN is unordered. -/
def less (x y : Float) : Bool :=
  !isNaN x && !isNaN y && decide (rank x < rank y)

/-- Numeric order; NaN is unordered. -/
def lessOrSame (x y : Float) : Bool :=
  !isNaN x && !isNaN y && decide (rank x ≤ rank y)

/-- Below zero; negative zero is not. -/
def isNegative (x : Float) : Bool :=
  !isNaN x && decide (rank x < 0)

def isZero (x : Float) : Bool :=
  rank x == 0

/-- The values that are not finite. -/
inductive NotFinite
  | nan
  | infinity
deriving Repr, DecidableEq

def truncate (x : Float) : Except NotFinite Int :=
  match decode x with
  | .nan => .error .nan
  | .infinite _ => .error .infinity
  | .finite negative mantissa exponent =>
      let magnitude : Nat :=
        if 0 ≤ exponent then mantissa * twoTo exponent.toNat
          else mantissa / twoTo (-exponent).toNat
      .ok (if negative then -(magnitude : Int) else magnitude)

def whole? (x : Float) : Option Int :=
  match decode x with
  | .finite negative mantissa exponent =>
      let scale := twoTo (-exponent).toNat
      if 0 ≤ exponent then
        some (if negative then -((mantissa * twoTo exponent.toNat : Nat) : Int)
          else (mantissa * twoTo exponent.toNat : Nat))
      else if mantissa % scale = 0 then
        some (if negative then -((mantissa / scale : Nat) : Int) else (mantissa / scale : Nat))
      else
        none
  | _ => none

/-- Divide and round to the nearest integer, a half going to the even neighbour. -/
def divideToEven (dividend divisor : Nat) : Nat :=
  let quotient := dividend / divisor
  let twice := 2 * (dividend % divisor)
  if twice < divisor then quotient
  else if divisor < twice then quotient + 1
  else if quotient % 2 = 0 then quotient
  else quotient + 1

/-- The power of two below a positive ratio: `2 ^ k ≤ numerator / denominator < 2 ^ (k + 1)`. -/
def ratioLog2 (numerator denominator : Nat) : Int :=
  let guess : Int := (numerator.log2 : Int) - denominator.log2
  let reached : Bool :=
    if 0 ≤ guess then decide (denominator * twoTo guess.toNat ≤ numerator)
    else decide (denominator ≤ numerator * twoTo (-guess).toNat)
  if reached then guess else guess - 1

/-- Divide a ratio by a power of two and round to the nearest integer, ties to even. -/
def scaledToEven (numerator denominator : Nat) (exponent : Int) : Nat :=
  if 0 ≤ exponent then divideToEven numerator (denominator * twoTo exponent.toNat)
  else divideToEven (numerator * twoTo (-exponent).toNat) denominator

/-- The bit pattern of the double nearest to a non-negative ratio, ties to even. -/
def nearestBits (numerator denominator : Nat) : Nat :=
  if numerator = 0 then 0
  else
    let exponent := max (ratioLog2 numerator denominator - 52) (-1074)
    let mantissa := scaledToEven numerator denominator exponent
    if 971 < exponent then 2047 * twoTo 52
    else if mantissa < twoTo 52 then mantissa
    else min (2047 * twoTo 52) ((exponent + 1075).toNat * twoTo 52 + (mantissa - twoTo 52))

/-- The double nearest to `± numerator / denominator`, ties to even. -/
def ofRatio (negative : Bool) (numerator denominator : Nat) : Float :=
  let bits := nearestBits numerator denominator
  Float.ofBits (UInt64.ofNat (if negative then twoTo 63 + bits else bits))

def ofInt (value : Int) : Float :=
  ofRatio (value < 0) value.natAbs 1

def infinity : Float := Float.ofBits 0x7ff0000000000000

def notANumber : Float := Float.ofBits 0x7ff8000000000000

/-- Why a division has no remainder. -/
inductive NoRemainder
  | infiniteDividend
deriving Repr, DecidableEq

/--
The exact remainder of a division that rounds toward zero, with the sign of
the dividend.  NaN passes through, and an infinite divisor leaves the dividend.
The divisor is not zero.
-/
def remainder (x y : Float) : Except NoRemainder Float :=
  match decode x, decode y with
  | .nan, _ => .ok x
  | _, .nan => .ok y
  | .infinite _, _ => .error .infiniteDividend
  | _, .infinite _ => .ok x
  | .finite negative mantissa exponent, .finite _ divisor divisorExponent =>
      let lowest := min exponent divisorExponent
      let left := mantissa * twoTo (exponent - lowest).toNat
      let right := divisor * twoTo (divisorExponent - lowest).toNat
      let rest := left % right
      if 0 ≤ lowest then .ok (ofRatio negative (rest * twoTo lowest.toNat) 1)
      else .ok (ofRatio negative rest (twoTo (-lowest).toNat))

end ArrowScript.Number
