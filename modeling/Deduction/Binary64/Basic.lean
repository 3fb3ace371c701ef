set_option autoImplicit false

/-! # Floating-point numbers

Numbers of the 64-bit binary format: a significand of at most 53 binary digits, times a power of two.
`nearest` is the number of the format that is closest to a fraction. It is infinite if the fraction
lies beyond the greatest number of the format by half a step or more. -/

namespace Deduction

/-- A number of the format. The significand of a number has 53 digits, unless the exponent is the
    least one. -/
inductive Binary64 where
  /-- The number `significand * 2 ^ exponent`, or its negative. Zero has a sign, too. -/
  | finite (negative : Bool) (significand : Nat) (exponent : Int)
  | infinite (negative : Bool)
  | notANumber
deriving DecidableEq

namespace Binary64

/-- The number of binary digits of a significand. -/
def precision : Nat := 53

def minExponent : Int := -1074

def maxExponent : Int := 971

/-- The whole number nearest to a fraction, and of two the even one. -/
def roundedQuotient (numerator denominator : Nat) : Nat :=
  let quotient := numerator / denominator
  match compare (2 * (numerator % denominator)) denominator with
  | .lt => quotient
  | .eq => quotient + quotient % 2
  | .gt => quotient + 1

/-- A fraction divided by a power of two. -/
def scaled (numerator denominator : Nat) (exponent : Int) : Nat × Nat :=
  (numerator * Nat.pow 2 (-exponent).toNat, denominator * Nat.pow 2 exponent.toNat)

/-- The exponent with which the significand of a fraction above zero has 53 digits, but not less than
    the least one. The lengths of its two parts tell it up to one. -/
def exponentOf (numerator denominator : Nat) : Int :=
  let guess := max ((numerator.log2 : Int) - denominator.log2 - precision) minExponent
  let (n, d) := scaled numerator denominator guess
  if n < Nat.pow 2 precision * d then guess else guess + 1

/-- The number nearest to a fraction. Rounding up may need one digit more, which makes the significand
    a power of two. -/
def nearest (negative : Bool) (numerator denominator : Nat) : Binary64 :=
  if numerator = 0 then .finite negative 0 minExponent
  else
    let exponent := exponentOf numerator denominator
    let (n, d) := scaled numerator denominator exponent
    let significand := roundedQuotient n d
    let (significand, exponent) :=
      if significand < Nat.pow 2 precision then (significand, exponent)
      else (significand / 2, exponent + 1)
    if exponent ≤ maxExponent then .finite negative significand exponent else .infinite negative

/-- Does a whole number lie in the range of the format? -/
def inRange (n : Nat) : Bool := nearest false n 1 != .infinite false

def isZero : Binary64 → Bool
  | .finite _ significand _ => significand == 0
  | .infinite _ | .notANumber => false

/-- The exact value of a finite number. The two zeros have the same. -/
def value? : Binary64 → Option Dyadic
  | .finite negative significand exponent =>
    let n : Int := if negative then -significand else significand
    some (.ofIntWithPrec n (-exponent))
  | .infinite _ | .notANumber => none

end Binary64

end Deduction
