import Deduction.Text.Blank
import Deduction.Text.Digit

set_option autoImplicit false

/-! # Integers in text

A sign may come first, and single underscores may stand between digits. Blanks around the number are
ignored, the information separators apart; the digits may be of any script, and there are at most 4300
of them. -/

namespace Deduction.Text

/-- The greatest number of digits that is read. -/
def maxDigits : Nat := 4300

/-- The values of digits, a single underscore being allowed in front of each of them. -/
def readDigits? : List Char → Option (List Nat)
  | [] => some []
  | '_' :: c :: cs => do
    let value ← digitValue? c
    let values ← readDigits? cs
    return value :: values
  | c :: cs => do
    let value ← digitValue? c
    let values ← readDigits? cs
    return value :: values

/-- A natural number without a sign. -/
def readNatural? : List Char → Option Nat
  | [] => none
  | '_' :: _ => none
  | cs => do
    let values ← readDigits? cs
    if values.length ≤ maxDigits then some (values.foldl (fun n value => 10 * n + value) 0) else none

/-- May a character stand around a number? -/
def isMargin (c : Char) : Bool := isBlank c && !informationSeparators.has c

/-- Drops the blanks at both ends. -/
def trimMargins (cs : List Char) : List Char :=
  ((cs.dropWhile isMargin).reverse.dropWhile isMargin).reverse

/-- The integer that a text spells. -/
def readInteger? (s : String) : Option Int :=
  match trimMargins s.toList with
  | '+' :: cs => (readNatural? cs).map Int.ofNat
  | '-' :: cs => (readNatural? cs).map fun n => -(n : Int)
  | cs => (readNatural? cs).map Int.ofNat

/-- Drops a line break at the end. -/
def dropLineBreak (cs : List Char) : List Char :=
  if cs.getLast? = some '\n' then cs.dropLast else cs

/-- Does a text that starts with a minus look like a number, with or without decimals? A line break
    may end it. -/
def looksNegative (s : String) : Bool :=
  let isDigit (c : Char) := (digitValue? c).isSome
  match dropLineBreak s.toList with
  | '-' :: cs =>
    match cs.dropWhile isDigit with
    | [] => !cs.isEmpty
    | '.' :: decimals => !decimals.isEmpty && decimals.all isDigit
    | _ => false
  | _ => false

end Deduction.Text
