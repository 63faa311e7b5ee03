/-! # Binary floating point numbers of 64 bits

A finite number is a mantissa of at most 53 bits times a power of two that is at least `2 ^ -1074`. A
decimal number is rounded to the nearest of them, halves to the even mantissa, in exact arithmetic. -/
namespace CommittedRegex

inductive Binary64
  /-- The number `mantissa * 2 ^ exponent` with a sign. -/
  | finite (negative : Bool) (mantissa : Nat) (exponent : Int)
  | infinite (negative : Bool)
  | nan
  deriving DecidableEq, Inhabited

namespace Binary64

def twoTo (exponent : Nat) : Nat := Nat.pow 2 exponent

def tenTo (exponent : Nat) : Nat := Nat.pow 10 exponent

/-- The exponent of the smallest positive number. -/
def leastExponent : Int := -1074

/-- The exponent of the largest finite number. -/
def greatestExponent : Int := 971

/-- The integer nearest to a quotient; a half goes to the even neighbour. -/
def divideToNearest (numerator denominator : Nat) : Nat :=
  let quotient := numerator / denominator
  let twice := 2 * (numerator % denominator)
  if twice < denominator then quotient
  else if twice = denominator then quotient + quotient % 2
  else quotient + 1

/-- The quotient of the scaled numbers in lowest shifts: `numerator / denominator / 2 ^ exponent`. -/
def shifted (numerator denominator : Nat) (exponent : Int) : Nat × Nat :=
  if 0 ≤ exponent then (numerator, denominator <<< exponent.toNat)
  else (numerator <<< (-exponent).toNat, denominator)

def ofQuotient (negative : Bool) (numerator denominator : Nat) : Binary64 :=
  let guess := max ((numerator.log2 : Int) - denominator.log2 - 53) leastExponent
  let floor := shifted numerator denominator guess
  let exponent := if twoTo 53 ≤ floor.1 / floor.2 then guess + 1 else guess
  let quotient := shifted numerator denominator exponent
  let mantissa := divideToNearest quotient.1 quotient.2
  let (mantissa, exponent) :=
    if mantissa = twoTo 53 then (twoTo 52, exponent + 1) else (mantissa, exponent)
  if greatestExponent < exponent then infinite negative else finite negative mantissa exponent

/-- The number nearest to `digits * 10 ^ scale`. Since ten lies between the third and the fourth power
of two, the count of binary digits decides about magnitudes far beyond the format: the number is at
least `2 ^ least` and less than `2 ^ bound`. -/
def ofDecimal (negative : Bool) (digits : Nat) (scale : Int) : Binary64 :=
  let least : Int := digits.log2 + (if 0 ≤ scale then 3 else 4) * scale
  let bound : Int := digits.log2 + 1 + (if 0 ≤ scale then 4 else 3) * scale
  if digits = 0 ∨ bound < leastExponent then finite negative 0 leastExponent
  else if 1024 ≤ least then infinite negative
  else if 0 ≤ scale then ofQuotient negative (digits * tenTo scale.toNat) 1
  else ofQuotient negative digits (tenTo (-scale).toNat)

end Binary64

end CommittedRegex
