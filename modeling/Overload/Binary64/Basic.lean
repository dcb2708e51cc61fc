/-!
Finite binary floating-point numbers of 64 bits, and the one nearest to a decimal.
All arithmetic is exact, on natural numbers; rounding happens once, at the end.
-/
namespace Overload

/-- The number `significand · 2 ^ exponent` with a sign. The significand has 53 bits, except that
at the least exponent, `-1074`, it may have fewer. -/
structure Binary64 where
  negative : Bool
  significand : Nat
  exponent : Int
deriving DecidableEq

namespace Binary64

def zero (negative : Bool) : Binary64 := ⟨negative, 0, -1074⟩

/-- Numbers are compared by value: the two zeros are equal, and no others that differ in a part. -/
instance : BEq Binary64 where
  beq x y := x.significand == 0 && y.significand == 0 || decide (x = y)

/-- The quotient rounded to the nearest natural number, a half to the even one. -/
def roundHalfEven (numerator denominator : Nat) : Nat :=
  let quotient := numerator / denominator
  let twice := 2 * (numerator % denominator)
  if twice < denominator ∨ (twice = denominator ∧ quotient % 2 = 0) then quotient
  else quotient + 1

/-- The greatest `k` with `2 ^ k ≤ numerator / denominator`, for positive arguments. -/
def log2Ratio (numerator denominator : Nat) : Int :=
  let k := (numerator.log2 : Int) - denominator.log2
  if numerator * Nat.pow 2 (-k).toNat < denominator * Nat.pow 2 k.toNat then k - 1 else k

def nearestRatio? (negative : Bool) (numerator denominator : Nat) : Option Binary64 :=
  let exponent := max (-1074) (log2Ratio numerator denominator - 52)
  let significand :=
    roundHalfEven (numerator * Nat.pow 2 (-exponent).toNat)
      (denominator * Nat.pow 2 exponent.toNat)
  let rounded : Binary64 :=
    if significand = Nat.pow 2 53 then ⟨negative, Nat.pow 2 52, exponent + 1⟩
    else ⟨negative, significand, exponent⟩
  if rounded.exponent ≤ 971 then some rounded else none

/-- The number nearest to `digits · 10 ^ exponent`, or none if it lies beyond the greatest number.
The quotient is formed exactly before it is rounded, so the shortest digits of a number give it back
(`nearest?_of_holds`); that is more than repeated scaling by powers of ten would give. Exponents far
outside the range are settled at once, so that no huge power is computed. -/
def nearest? (negative : Bool) (digits : Nat) (exponent : Int) : Option Binary64 :=
  if digits = 0 ∨ exponent < -(400 + digits.log2 : Int) then some (zero negative)
  else if 400 < exponent then none
  else
    nearestRatio? negative (digits * Nat.pow 10 exponent.toNat) (Nat.pow 10 (-exponent).toNat)

end Binary64

end Overload
