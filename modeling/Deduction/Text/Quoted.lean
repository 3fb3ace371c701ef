import Deduction.Text.Printable

set_option autoImplicit false

/-! # Quoted text

Messages show names, texts and identifiers between quotes. Single quotes are used, unless the text
holds a single quote and no double one. The delimiter and the backslash are escaped by a backslash;
newline, tab and carriage return have letters of their own; every other unprintable character is
written by its code point, with two, four or eight hexadecimal digits, as few as suffice. -/

namespace Deduction.Text

def singleQuote : Char := '\x27'

def doubleQuote : Char := '\x22'

def backslash : Char := '\x5c'

/-- The number in base sixteen, in at least `width` digits. -/
def hexadecimal (width n : Nat) : List Char :=
  (Nat.toDigits 16 n).leftpad width '0'

/-- The code point of an unprintable character. -/
def codeEscape (n : Nat) : List Char :=
  if n < 0x100 then backslash :: 'x' :: hexadecimal 2 n
  else if n < 0x10000 then backslash :: 'u' :: hexadecimal 4 n
  else backslash :: 'U' :: hexadecimal 8 n

/-- One character as it stands between two delimiters. -/
def escape (delimiter c : Char) : List Char :=
  if c = delimiter ∨ c = backslash then [backslash, c]
  else if c = '\n' then [backslash, 'n']
  else if c = '\t' then [backslash, 't']
  else if c = '\r' then [backslash, 'r']
  else if isPrintable c then [c]
  else codeEscape c.toNat

/-- The delimiter that a text is quoted with. -/
def delimiterFor (cs : List Char) : Char :=
  if singleQuote ∈ cs ∧ doubleQuote ∉ cs then doubleQuote else singleQuote

/-- The text between quotes. -/
def quote (s : String) : String :=
  let cs := s.toList
  let delimiter := delimiterFor cs
  String.ofList (delimiter :: cs.flatMap (escape delimiter) ++ [delimiter])

end Deduction.Text
