import Deduction.Binary64.Basic

set_option autoImplicit false

/-! # Floating-point numbers as text

A number is written with the fewest decimal digits that read back as the same number; of several
choices the one nearest to it is taken. Numbers with up to 16 digits in front of the point, and those
with up to three zeros behind it, are written out; all others have an exponent. -/

namespace Deduction

/-- The number `digits * 10 ^ exponent`. -/
structure Decimal where
  digits : Nat
  exponent : Int
deriving DecidableEq

namespace Decimal

/-- The same number without zeros at the end of its digits; `fuel` bounds their number. -/
def strip : Nat → Decimal → Decimal
  | 0, d => d
  | fuel + 1, d => if d.digits % 10 = 0 then strip fuel ⟨d.digits / 10, d.exponent + 1⟩ else d

/-- The nearest floating-point number. -/
def toBinary64 (negative : Bool) (d : Decimal) : Binary64 :=
  .nearest negative (d.digits * Nat.pow 10 d.exponent.toNat) (Nat.pow 10 (-d.exponent).toNat)

/-! ## Layout -/

/-- The most digits in front of the point of a number that is written out. -/
def maxWholeDigits : Int := 16

/-- The most zeros behind the point of a number that is written out. -/
def maxLeadingZeros : Int := 3

def zeros (n : Int) : String := String.ofList (List.replicate n.toNat '0')

/-- Digits with a point behind the first `whole` of them. -/
def pointed (digits : List Char) (whole : Nat) : String :=
  String.ofList (digits.take whole) ++ "." ++ String.ofList (digits.drop whole)

/-- An exponent has a sign and at least two digits. -/
def exponentText (exponent : Int) : String :=
  let digits := toString exponent.natAbs
  "e" ++ (if exponent < 0 then "-" else "+") ++ zeros (2 - digits.length) ++ digits

def render (d : Decimal) : String :=
  let digits := (toString d.digits).toList
  let whole : Int := digits.length + d.exponent
  if whole < -maxLeadingZeros ∨ maxWholeDigits < whole then
    (if digits.length = 1 then String.ofList digits else pointed digits 1)
      ++ exponentText (whole - 1)
  else if whole ≤ 0 then "0." ++ zeros (-whole) ++ String.ofList digits
  else if whole < digits.length then pointed digits whole.toNat
  else String.ofList digits ++ zeros (whole - digits.length) ++ ".0"

end Decimal

namespace Binary64

/-! ## Digits -/

/-- Enough decimal digits for every number of the format. -/
def maxDigits : Nat := 17

/-- The least power of ten above a fraction, which is not zero, given by its exponent. -/
def magnitude (numerator denominator : Nat) : Int :=
  if denominator ≤ numerator then (toString (numerator / denominator)).length
  else 1 - (toString ((denominator - 1) / numerator)).length

/-- The number with `count` decimal digits that is nearest to a fraction, of those that read back as
    the floating-point number `x`. Only the two neighbours of the fraction come into question. -/
def withDigits? (x : Binary64) (numerator denominator : Nat) (count : Nat) : Option Decimal :=
  let exponent := magnitude numerator denominator - count
  let n := numerator * Nat.pow 10 (-exponent).toNat
  let d := denominator * Nat.pow 10 exponent.toNat
  let lower : Decimal := ⟨n / d, exponent⟩
  let upper : Decimal := ⟨n / d + 1, exponent⟩
  let readsBack (c : Decimal) := c.toBinary64 false == x
  match readsBack lower, readsBack upper with
  | true, true => some ⟨roundedQuotient n d, exponent⟩
  | true, false => some lower
  | false, true => some upper
  | false, false => none

/-- The decimal number of fewest digits that reads back as `significand * 2 ^ exponent`. -/
def shortest (significand : Nat) (exponent : Int) : Decimal :=
  let n := significand * Nat.pow 2 exponent.toNat
  let d := Nat.pow 2 (-exponent).toNat
  let found := (List.range maxDigits).findSome? fun i =>
    withDigits? (.finite false significand exponent) n d (i + 1)
  (found.getD ⟨n * Nat.pow 5 (-exponent).toNat, min exponent 0⟩).strip maxDigits

/-! ## Text -/

/-- The text of a number above or at zero. -/
def renderFinite (significand : Nat) (exponent : Int) : String :=
  if significand = 0 then "0.0" else (shortest significand exponent).render

def signText (negative : Bool) : String := if negative then "-" else ""

/-- The number in a message. -/
def render : Binary64 → String
  | .finite negative significand exponent => signText negative ++ renderFinite significand exponent
  | .infinite negative => signText negative ++ "inf"
  | .notANumber => "nan"

/-- The number in a document. -/
def literal : Binary64 → String
  | .finite negative significand exponent => signText negative ++ renderFinite significand exponent
  | .infinite negative => signText negative ++ "Infinity"
  | .notANumber => "NaN"

end Binary64

end Deduction
