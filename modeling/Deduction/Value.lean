import Deduction.Binary64.Printer
import Deduction.Text.Listed
import Deduction.Text.Quoted

set_option autoImplicit false

/-! # Data values

Saved documents are made of plain data: nothing, truth values, numbers, texts, lists and records.
`render` writes a value on one line, as messages do; `pretty` writes it as indented text. -/

namespace Deduction

inductive Value where
  | null
  | bool (b : Bool)
  | number (n : Int)
  | real (x : Binary64)
  | text (s : String)
  | list (items : List Value)
  | record (fields : List (String × Value))

namespace Value

instance : Inhabited Value := ⟨.null⟩

/-! ## Equality -/

mutual

/-- Are two values built alike? -/
def beq : Value → Value → Bool
  | .null, .null => true
  | .bool a, .bool b => a == b
  | .number n, .number m => n == m
  | .real x, .real y => x == y
  | .text s, .text t => s == t
  | .list xs, .list ys => beqItems xs ys
  | .record xs, .record ys => beqFields xs ys
  | _, _ => false

def beqItems : List Value → List Value → Bool
  | [], [] => true
  | x :: xs, y :: ys => beq x y && beqItems xs ys
  | _, _ => false

def beqFields : List (String × Value) → List (String × Value) → Bool
  | [], [] => true
  | (n, x) :: xs, (m, y) :: ys => n == m && beq x y && beqFields xs ys
  | _, _ => false

end

mutual

theorem beq_eq_true : ∀ v w : Value, beq v w = true ↔ v = w
  | .null, w => by cases w <;> simp [beq]
  | .bool a, w => by cases w <;> simp [beq]
  | .number n, w => by cases w <;> simp [beq]
  | .real x, w => by cases w <;> simp [beq]
  | .text s, w => by cases w <;> simp [beq]
  | .list xs, w => by cases w <;> simp [beq, beqItems_eq_true xs]
  | .record xs, w => by cases w <;> simp [beq, beqFields_eq_true xs]

theorem beqItems_eq_true : ∀ xs ys : List Value, beqItems xs ys = true ↔ xs = ys
  | [], ys => by cases ys <;> simp [beqItems]
  | x :: xs, ys => by cases ys <;> simp [beqItems, beq_eq_true x, beqItems_eq_true xs]

theorem beqFields_eq_true : ∀ xs ys : List (String × Value), beqFields xs ys = true ↔ xs = ys
  | [], ys => by cases ys <;> simp [beqFields]
  | (n, x) :: xs, ys => by
    rcases ys with _ | ⟨⟨m, y⟩, ys⟩ <;>
      simp [beqFields, beq_eq_true x, beqFields_eq_true xs, and_assoc]

end

instance : DecidableEq Value := fun v w => decidable_of_iff _ (beq_eq_true v w)

/-! ## Parts -/

/-- The value of a field; none if there is no such field. -/
def field? (name : String) : Value → Option Value
  | .record fields => (fields.find? (·.1 == name)).map Prod.snd
  | _ => none

/-- What a value holds, one by one: the items of a list, the characters of a text, the names of a
    record's fields. Other values cannot be gone through. -/
def items? : Value → Option (List Value)
  | .list items => some items
  | .text s => some (s.toList.map fun c => .text (String.singleton c))
  | .record fields => some (fields.map fun field => .text field.1)
  | .null | .bool _ | .number _ | .real _ => none

/-- Does the value stand for nothing? -/
def isNothing : Value → Bool
  | .null => true
  | .bool b => !b
  | .number n => n == 0
  | .real x => x.isZero
  | .text s => s.isEmpty
  | .list items => items.isEmpty
  | .record fields => fields.isEmpty

/-- Lists and records are made of other values. -/
def isCollection : Value → Bool
  | .list _ | .record _ => true
  | .null | .bool _ | .number _ | .real _ | .text _ => false

/-! ## Text on one line -/

mutual

/-- The value on one line. -/
def render : Value → String
  | .null => "None"
  | .bool b => if b then "True" else "False"
  | .number n => toString n
  | .real x => x.render
  | .text s => Text.quote s
  | .list items => "[" ++ commaSeparated (renderItems items) ++ "]"
  | .record fields => "\x7b" ++ commaSeparated (renderFields fields) ++ "\x7d"

def renderItems : List Value → List String
  | [] => []
  | item :: items => render item :: renderItems items

def renderFields : List (String × Value) → List String
  | [] => []
  | (name, value) :: fields => (Text.quote name ++ ": " ++ render value) :: renderFields fields

end

/-- The value by itself: a text stands without quotes. -/
def display : Value → String
  | .text s => s
  | v => v.render

/-! ## Indented text -/

/-- One character of a text between double quotes. -/
def escapeChar (c : Char) : List Char :=
  if c = Text.doubleQuote ∨ c = Text.backslash then [Text.backslash, c]
  else if c = '\n' then [Text.backslash, 'n']
  else if c = '\r' then [Text.backslash, 'r']
  else if c = '\t' then [Text.backslash, 't']
  else if c.toNat = 0x8 then [Text.backslash, 'b']
  else if c.toNat = 0xc then [Text.backslash, 'f']
  else if c.toNat < 0x20 then Text.backslash :: 'u' :: Text.hexadecimal 4 c.toNat
  else [c]

def quoteText (s : String) : String :=
  String.ofList (Text.doubleQuote :: s.toList.flatMap escapeChar ++ [Text.doubleQuote])

/-- A new line with two spaces for each level of nesting. -/
def newLine (level : Nat) : String := "\n" ++ String.ofList (List.replicate (2 * level) ' ')

/-- Parts on lines of their own between two brackets. -/
def bracketed (opening closing : String) (level : Nat) : List String → String
  | [] => opening ++ closing
  | parts =>
    opening ++ newLine (level + 1) ++ ("," ++ newLine (level + 1)).intercalate parts
      ++ newLine level ++ closing

mutual

/-- The value as indented text, inside `level` brackets. -/
def prettyAt (level : Nat) : Value → String
  | .null => "null"
  | .bool b => if b then "true" else "false"
  | .number n => toString n
  | .real x => x.literal
  | .text s => quoteText s
  | .list items => bracketed "[" "]" level (prettyItems (level + 1) items)
  | .record fields => bracketed "\x7b" "\x7d" level (prettyFields (level + 1) fields)

def prettyItems (level : Nat) : List Value → List String
  | [] => []
  | item :: items => prettyAt level item :: prettyItems level items

def prettyFields (level : Nat) : List (String × Value) → List String
  | [] => []
  | (name, value) :: fields =>
    (quoteText name ++ ": " ++ prettyAt level value) :: prettyFields level fields

end

/-- The value as indented text. -/
def pretty (v : Value) : String := v.prettyAt 0

end Value

end Deduction
