import Deduction.Assoc
import Deduction.Formula.Basic
import Deduction.Text.Quoted

set_option autoImplicit false

/-! # Free names and their arities

A name occurs free outside every quantifier that binds it; names of applications count like names
that stand alone. `inferArities` records with how many arguments each free name is used, and fails
when one name is used with two different numbers of them. -/

namespace Deduction

/-- One name was used with two different numbers of arguments. -/
structure ArityConflict where
  name : String
  first : Int
  second : Int
deriving DecidableEq

def ArityConflict.message (e : ArityConflict) : String :=
  Text.quote e.name ++ " used with arity " ++ toString e.first ++ " and arity " ++
    toString e.second

/-- The number of arguments of each name. Arities that are given from outside may be negative: no use
    of a name agrees with such a one. -/
abbrev Arities := Assoc Int

/-- Adds a use of a name to the arities seen so far. -/
def Arities.record (seen : Arities) (name : String) (count : Int) :
    Except ArityConflict Arities :=
  match seen.get? name with
  | none => .ok (seen.put name count)
  | some first => if first = count then .ok seen else .error ⟨name, first, count⟩

/-- The names of a list without repetitions, in the order of their code points. -/
def sortedNames (names : List String) : List String :=
  names.eraseDups.mergeSort fun a b => decide (a ≤ b)

namespace Formula

mutual

/-- The names that occur free in a formula, with repetitions. -/
def freeNames : Formula → List String
  | .app name args => name :: freeNamesList args
  | .neg f => freeNames f
  | .binary _ l r => freeNames l ++ freeNames r
  | .quant _ name body => (freeNames body).filter (· ≠ name)
  | .top | .bottom | .hole _ => []

def freeNamesList : List Formula → List String
  | [] => []
  | a :: as => freeNames a ++ freeNamesList as

end

theorem freeNamesList_eq (as : List Formula) : freeNamesList as = as.flatMap freeNames := by
  induction as with
  | nil => rfl
  | cons a as ih => simp [freeNamesList, ih]

/-- Does one of the given names occur free in the formula? -/
def mentions (names : List String) (f : Formula) : Bool :=
  f.freeNames.any fun name => names.contains name

mutual

/-- Adds the uses of all names that are free in the formula and not in `bound`, from left to
    right, an application before its arguments. -/
def inferArities (bound : List String) : Formula → Arities → Except ArityConflict Arities
  | .app name args, seen => do
    let seen ← if bound.contains name then .ok seen else seen.record name args.length
    inferAritiesList bound args seen
  | .neg f, seen => inferArities bound f seen
  | .binary _ l r, seen => do
    let seen ← inferArities bound l seen
    inferArities bound r seen
  | .quant _ name body, seen => inferArities (name :: bound) body seen
  | .top, seen => .ok seen
  | .bottom, seen => .ok seen
  | .hole _, seen => .ok seen

def inferAritiesList (bound : List String) : List Formula → Arities → Except ArityConflict Arities
  | [], seen => .ok seen
  | a :: as, seen => do
    let seen ← inferArities bound a seen
    inferAritiesList bound as seen

end

end Formula

end Deduction
