import Deduction.Text.Casing
import Deduction.Text.CaseMap

set_option autoImplicit false

/-! # Title case

A character that follows a cased character is written in lower case, any other in title case. The
lower case of a capital sigma depends on its place: at the end of a word, that is after a cased
character and not before one (case-ignorable characters aside), it is the final form. -/

namespace Deduction.Text

def capitalSigma : Char := 'Σ'

/-- Is the nearest character that is not case-ignorable a cased one? -/
def nextIsCased (cs : List Char) : Bool :=
  match cs.dropWhile isCaseIgnorable with
  | [] => false
  | c :: _ => isCased c

/-- The lower case of `c`, which stands between `before` (read backwards) and `after`. -/
def lowerBetween (before : List Char) (c : Char) (after : List Char) : List Char :=
  if c = capitalSigma then
    if nextIsCased before && !nextIsCased after then ['ς'] else ['σ']
  else
    lowerCase.apply c

/-- Title case of the rest of a text whose characters `before` (read backwards) are done. -/
def titleAfter (before : List Char) : List Char → List Char
  | [] => []
  | c :: after =>
    let inWord := before.head?.any isCased
    (if inWord then lowerBetween before c after else titleCase.apply c)
      ++ titleAfter (c :: before) after

/-- The text in title case. -/
def title (s : String) : String := String.ofList (titleAfter [] s.toList)

end Deduction.Text
