import Deduction.Formula.Basic
import Deduction.Text.Listed
import Deduction.Text.Quoted

set_option autoImplicit false

/-! # Formulas as text

`render` writes a formula the way it is read: binary formulas stand in parentheses wherever they
are part of a larger formula, except as an argument of an application, and nothing else does.

`explicit` writes every constructor with the names of its fields, so that the shape of the tree can
be seen. It is used where several formulas are reported together. -/

namespace Deduction

def Connective.symbol : Connective → String
  | .and => "&"
  | .or => "|"
  | .implies => "->"
  | .iff => "<->"

def Quantifier.keyword : Quantifier → String
  | .all => "forall"
  | .ex => "exists"

namespace Formula

/-- Puts the text of a binary formula in parentheses. -/
def parenthesize : Formula → String → String
  | .binary .., text => "(" ++ text ++ ")"
  | _, text => text

mutual

/-- The text of a formula. -/
def render : Formula → String
  | .top => "⊤"
  | .bottom => "⊥"
  | .app name args =>
    match args with
    | [] => name
    | a :: as => name ++ "(" ++ commaSeparated (render a :: renderList as) ++ ")"
  | .neg f => "~" ++ parenthesize f (render f)
  | .binary op l r =>
    parenthesize l (render l) ++ " " ++ op.symbol ++ " " ++ parenthesize r (render r)
  | .quant q name body =>
    q.keyword ++ " " ++ name ++ ", " ++ parenthesize body (render body)
  | .hole i => "?" ++ toString i

def renderList : List Formula → List String
  | [] => []
  | a :: as => render a :: renderList as

end

theorem renderList_eq (as : List Formula) : renderList as = as.map render := by
  induction as with
  | nil => rfl
  | cons a as ih => simp [renderList, ih]

/-! ## The explicit form -/

/-- Parts in a row between parentheses; a single part keeps a comma behind it. -/
def explicitRow : List String → String
  | [part] => "(" ++ part ++ ",)"
  | parts => "(" ++ commaSeparated parts ++ ")"

/-- The word for a connective in the explicit form. -/
def connectiveWord : Connective → String
  | .and => "And"
  | .or => "Or"
  | .implies => "Implies"
  | .iff => "Iff"

/-- The word for a quantifier in the explicit form. -/
def quantifierWord : Quantifier → String
  | .all => "Forall"
  | .ex => "Exists"

mutual

/-- A formula with its constructors and fields written out. -/
def explicit : Formula → String
  | .top => "Taut()"
  | .bottom => "Contra()"
  | .app name args =>
    "Var(name=" ++ Text.quote name ++ ", args=" ++ explicitRow (explicitList args) ++ ")"
  | .neg f => "Not(operand=" ++ explicit f ++ ")"
  | .binary op l r =>
    connectiveWord op ++ "(left=" ++ explicit l ++ ", right=" ++ explicit r ++ ")"
  | .quant q name body =>
    quantifierWord q ++ "(name=" ++ Text.quote name ++ ", body=" ++ explicit body ++ ")"
  | .hole i => "Hole(index=" ++ toString i ++ ")"

def explicitList : List Formula → List String
  | [] => []
  | a :: as => explicit a :: explicitList as

end

end Formula

end Deduction
