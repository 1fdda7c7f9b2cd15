import Mathlib.Algebra.Order.Floor.Semifield
import Mathlib.Data.Rat.Cast.Order
import Mathlib.Data.Rat.Floor
import Mathlib.Tactic.FieldSimp
import Mathlib.Tactic.Ring
import ArrowScript.Number.Bits

namespace ArrowScript.Number

/-!
# The exact value of a double

A finite double stands for a fraction, and it is a whole number exactly when
this fraction is.  Its integer part counts the whole units of the fraction.
-/

/-- The fraction that a finite double stands for. -/
def Decoded.value? : Decoded → Option ℚ
  | .finite negative mantissa exponent =>
    some ((if negative then -1 else 1) * mantissa * (2 : ℚ) ^ exponent)
  | .nan | .infinite _ => none

/-- The exact value of a double that is a number and finite. -/
def value? (x : Float) : Option ℚ :=
  (decode x).value?

theorem twoTo_eq (exponent : Nat) : twoTo exponent = 2 ^ exponent :=
  rfl

theorem cast_signed (negative : Bool) (size : Nat) :
    (((if negative then -(size : Int) else size) : Int) : ℚ) =
      (if negative then -1 else 1) * size := by
  cases negative <;> simp

theorem whole?_eq_some_iff {x : Float} {whole : Int} :
    whole? x = some whole ↔ value? x = some (whole : ℚ) := by
  unfold whole? value?
  cases decode x with
  | nan => simp [Decoded.value?]
  | infinite negative => simp [Decoded.value?]
  | finite negative mantissa exponent =>
    simp only [Decoded.value?, Option.some.injEq]
    split
    · rename_i nonnegative
      obtain ⟨power, rfl⟩ := Int.eq_ofNat_of_zero_le nonnegative
      have scaled :
          (if negative then -1 else 1) * (mantissa : ℚ) * 2 ^ (power : Int) =
            (if negative then -1 else 1) * ((mantissa * 2 ^ power : Nat) : ℚ) := by
        push_cast
        rw [zpow_natCast]
        ring
      rw [scaled, ← cast_signed, Int.cast_inj, Option.some.injEq, Int.toNat_natCast, twoTo_eq]
    · rename_i isNegative
      obtain ⟨power, rfl⟩ : ∃ power : Nat, exponent = -(power : Int) :=
        ⟨(-exponent).toNat, by omega⟩
      have nonzero : (2 : ℚ) ^ power ≠ 0 := pow_ne_zero power two_ne_zero
      rw [neg_neg, Int.toNat_natCast, zpow_neg, zpow_natCast]
      split
      · rename_i divides
        rw [twoTo_eq] at divides ⊢
        obtain ⟨quotient, rfl⟩ := Nat.dvd_of_mod_eq_zero divides
        have scaled :
            (if negative then -1 else 1) * ((2 ^ power * quotient : Nat) : ℚ) * (2 ^ power)⁻¹ =
              (if negative then -1 else 1) * (quotient : ℚ) := by
          push_cast
          field_simp
        rw [scaled, ← cast_signed, Int.cast_inj, Option.some.injEq,
          Nat.mul_div_cancel_left _ (Nat.two_pow_pos power)]
      · rename_i notDivides
        refine iff_of_false (by simp) fun isWhole => notDivides ?_
        have product : (if negative then -(mantissa : Int) else mantissa) = whole * 2 ^ power := by
          have cleared := (mul_inv_eq_iff_eq_mul₀ nonzero).mp isWhole
          rw [← cast_signed] at cleared
          exact_mod_cast cleared
        have sizes : mantissa = whole.natAbs * 2 ^ power := by
          have absolute := congrArg Int.natAbs product
          rw [Int.natAbs_mul, Int.natAbs_pow] at absolute
          cases negative <;> simpa using absolute
        rw [sizes, twoTo_eq]
        exact Nat.mul_mod_left _ _

/-- How many whole units are in a finite double that is not below zero. -/
def place? (x : Float) : Option Nat :=
  (value? x).bind fun value => if 0 ≤ value then some ⌊value⌋₊ else none

/-- The doubles below zero have a sign, and a further bit. -/
theorem rank_neg_iff (x : Float) : rank x < 0 ↔ 2 ^ 63 < x.toBits.toNat := by
  unfold rank
  by_cases signed : twoTo 63 ≤ x.toBits.toNat
  · rw [if_pos signed]
    rw [twoTo_eq] at signed ⊢
    omega
  · rw [if_neg signed]
    rw [twoTo_eq] at signed
    omega

theorem isNegative_of_decode {x : Float} {negative : Bool} {mantissa : Nat} {exponent : Int}
    (decoded : decode x = .finite negative mantissa exponent) :
    isNegative x = (negative && mantissa != 0) := by
  have isNumber : isNaN x = false := by rw [isNaN, decoded]; rfl
  have bounded : x.toBits.toNat < 2 ^ 64 := x.toBits.toNat_lt
  have signed : negative = true ↔ 2 ^ 63 ≤ x.toBits.toNat := by
    unfold decode at decoded
    grind [twoTo_eq]
  have zero : mantissa = 0 ↔ x.toBits.toNat % 2 ^ 63 = 0 := by
    unfold decode at decoded
    grind [twoTo_eq]
  rw [Bool.eq_iff_iff, isNegative, isNumber, Bool.not_false, Bool.true_and, decide_eq_true_eq,
    rank_neg_iff, Bool.and_eq_true, bne_iff_ne, Ne, signed, zero]
  omega

theorem truncate_nonneg {x : Float} {whole : Int} (nonnegative : isNegative x = false)
    (truncated : truncate x = .ok whole) : 0 ≤ whole := by
  unfold truncate at truncated
  cases decoded : decode x with
  | nan => simp [decoded] at truncated
  | infinite negative => simp [decoded] at truncated
  | finite negative mantissa exponent =>
    rw [isNegative_of_decode decoded] at nonnegative
    simp only [decoded, Except.ok.injEq] at truncated
    cases negative with
    | false => exact truncated ▸ Int.natCast_nonneg _
    | true =>
      have zero : mantissa = 0 := by simpa using nonnegative
      simp [← truncated, zero]

theorem floor_mul_zpow (mantissa : Nat) (exponent : Int) :
    ⌊(mantissa : ℚ) * 2 ^ exponent⌋₊ =
      if 0 ≤ exponent then mantissa * twoTo exponent.toNat
      else mantissa / twoTo (-exponent).toNat := by
  simp only [twoTo_eq]
  split
  · rename_i nonnegative
    obtain ⟨power, rfl⟩ := Int.eq_ofNat_of_zero_le nonnegative
    rw [Int.toNat_natCast, zpow_natCast, ← Nat.floor_natCast (R := ℚ) (mantissa * 2 ^ power)]
    push_cast
    rfl
  · rename_i isNegative
    obtain ⟨power, rfl⟩ : ∃ power : Nat, exponent = -(power : Int) :=
      ⟨(-exponent).toNat, by omega⟩
    rw [neg_neg, Int.toNat_natCast, zpow_neg, zpow_natCast, ← div_eq_mul_inv,
      ← Nat.floor_div_eq_div (K := ℚ)]
    push_cast
    rfl

theorem place?_eq_some_iff {x : Float} {place : Nat} :
    place? x = some place ↔ isNegative x = false ∧ truncate x = .ok (place : Int) := by
  cases decoded : decode x with
  | nan => simp [place?, value?, truncate, decoded, Decoded.value?]
  | infinite negative => simp [place?, value?, truncate, decoded, Decoded.value?]
  | finite negative mantissa exponent =>
    have nonnegative : (0 : ℚ) ≤ mantissa * 2 ^ exponent :=
      mul_nonneg mantissa.cast_nonneg (zpow_nonneg zero_le_two exponent)
    simp only [place?, value?, truncate, decoded, Decoded.value?, Option.bind_some,
      isNegative_of_decode decoded, ← floor_mul_zpow]
    cases negative with
    | false => simp [nonnegative]
    | true =>
      by_cases zero : mantissa = 0
      · simp [zero, eq_comm]
      · have above : (0 : ℚ) < mantissa * 2 ^ exponent :=
          mul_pos (Nat.cast_pos.mpr (by omega)) (zpow_pos two_pos exponent)
        simp [zero, above.not_ge]
end ArrowScript.Number
