import Deduction.Text.Blank
import Deduction.Text.Quoted

set_option autoImplicit false

/-! # Tokens

The text of a formula is cut into tokens from left to right. Connectives, constants, quantifiers and
punctuation have fixed spellings, most of them one in ASCII and one in Unicode. Names are maximal
runs of ASCII letters, digits, underscores and primes that do not start with a digit or a prime; two
of them are the keywords of the quantifiers. Blanks separate tokens and are otherwise ignored.

Columns count characters from one. -/

namespace Deduction

inductive TokenKind where
  | top | bottom | iff | implies | and | or | not | all | ex
  | name | leftParen | rightParen | comma | dot | endOfText
deriving DecidableEq

/-- The word that messages use for a kind of token. -/
def TokenKind.label : TokenKind → String
  | .top => "TOP"
  | .bottom => "BOTTOM"
  | .iff => "IFF"
  | .implies => "IMPLIES"
  | .and => "AND"
  | .or => "OR"
  | .not => "NOT"
  | .all => "FORALL"
  | .ex => "EXISTS"
  | .name => "NAME"
  | .leftParen => "LPAREN"
  | .rightParen => "RPAREN"
  | .comma => "COMMA"
  | .dot => "DOT"
  | .endOfText => "EOF"

/-- A token: its kind, its characters, and the column of the first of them. -/
structure Token where
  kind : TokenKind
  text : String
  column : Nat
deriving DecidableEq

/-! ## Errors -/

/-- Why a text is no formula. -/
inductive ParseFault where
  /-- No token starts with the character. -/
  | badCharacter (c : Char)
  /-- The text holds no token at all. -/
  | emptyExpression
  /-- A token of one kind had to come, and another one (or the end) came. -/
  | expected (kind : TokenKind) (got : String)
  /-- The token (or the end) cannot come here. -/
  | unexpected (got : String)
deriving DecidableEq

structure ParseError where
  column : Nat
  fault : ParseFault
deriving DecidableEq

/-- The text of a token in a message. The end of the text has none. -/
def ParseFault.shown (got : String) : String :=
  Text.quote (if got = "" then "end of input" else got)

def ParseFault.message : ParseFault → String
  | .badCharacter c => "unexpected character " ++ Text.quote (String.singleton c)
  | .emptyExpression => "empty expression"
  | .expected kind got => "expected " ++ kind.label ++ ", got " ++ shown got
  | .unexpected got => "unexpected " ++ shown got

def ParseError.message (e : ParseError) : String :=
  "col " ++ toString e.column ++ ": " ++ e.fault.message

/-! ## Lexemes -/

/-- What stands at the front of a text: a token of some kind, or blanks. -/
structure Lexeme where
  kind? : Option TokenKind
  chars : List Char
deriving DecidableEq

/-- The tokens of fixed spelling. No spelling starts another one. -/
def spellings : List (List Char × TokenKind) := [
  (['^', '|', '^'], .top), (['⊤'], .top),
  (['_', '|', '_'], .bottom), (['⊥'], .bottom),
  (['<', '-', '>'], .iff), (['↔'], .iff),
  (['-', '>'], .implies), (['→'], .implies),
  (['&'], .and), (['∧'], .and),
  (['|'], .or), (['∨'], .or),
  (['~'], .not), (['¬'], .not),
  (['∀'], .all), (['∃'], .ex),
  (['('], .leftParen), ([')'], .rightParen), ([','], .comma), (['.'], .dot)]

def isNameStart (c : Char) : Bool := c.isAlpha || c == '_'

def isNameChar (c : Char) : Bool := c.isAlphanum || c == '_' || c == Text.singleQuote

/-- The kind of a word: the keywords are no names. -/
def wordKind (word : String) : TokenKind :=
  if word = "forall" then .all
  else if word = "exists" then .ex
  else .name

/-- The lexeme at the front of a text. A fixed spelling comes before a name. -/
def lexeme? : List Char → Option Lexeme
  | [] => none
  | c :: cs =>
    match spellings.find? fun s => s.1.isPrefixOf (c :: cs) with
    | some (spelling, kind) => some ⟨some kind, spelling⟩
    | none =>
      if Text.isBlank c then some ⟨none, c :: cs.takeWhile Text.isBlank⟩
      else if isNameStart c then
        let word := c :: cs.takeWhile isNameChar
        some ⟨some (wordKind (String.ofList word)), word⟩
      else none

/-! ## Cutting a text into tokens -/

/-- The token that a lexeme gives at a column; blanks give none. -/
def Lexeme.toToken? (lexeme : Lexeme) (column : Nat) : Option Token :=
  lexeme.kind?.map fun kind => ⟨kind, String.ofList lexeme.chars, column⟩

/-- The tokens of a text that starts at `column` and whose first `skip` characters belong to a lexeme
    that has been read already. -/
def scanFrom (column skip : Nat) : List Char → Except ParseError (List Token)
  | [] => .ok []
  | c :: cs =>
    match skip with
    | skip + 1 => scanFrom (column + 1) skip cs
    | 0 =>
      match lexeme? (c :: cs) with
      | none => .error ⟨column, .badCharacter c⟩
      | some lexeme => do
        let tokens ← scanFrom (column + 1) (lexeme.chars.length - 1) cs
        return (lexeme.toToken? column).toList ++ tokens

namespace Token

/-- The tokens of a text, in order. -/
def scan (text : String) : Except ParseError (List Token) := scanFrom 1 0 text.toList

/-- The mark behind the last character of a text. -/
def endOf (text : String) : Token := ⟨.endOfText, "", text.length + 1⟩

/-- The tokens of a text with the mark of its end. -/
def scanToEnd (text : String) : Except ParseError (List Token) := do
  let tokens ← scan text
  return tokens ++ [endOf text]

end Token

end Deduction
