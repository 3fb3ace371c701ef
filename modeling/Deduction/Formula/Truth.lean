import Deduction.Formula.Names
import Deduction.Formula.Printer

set_option autoImplicit false

/-! # Truth-functional evaluation

An environment gives each name a truth table: `2 ^ k` truth values for a name with `k` arguments,
the entry for given argument values standing at the position whose `i`-th binary digit is the value
of argument `i`. Formulas without quantifiers and holes then have a truth value. -/

namespace Deduction

/-- A truth table for each name. -/
abbrev Environment := Assoc (List Bool)

inductive EvalError where
  /-- The environment has no table for the name. -/
  | noTable (name : String)
  /-- The table has no entry for the values of the arguments. -/
  | shortTable
  /-- A quantified formula or a hole has no truth value. -/
  | notTruthFunctional (f : Formula)
deriving DecidableEq

def EvalError.message : EvalError → String
  | .noTable name => "no truth table for " ++ Text.quote name
  | .shortTable => "truth table too short"
  | .notTruthFunctional f => f.render ++ " is not truth-functional"

/-- The truth function of a connective. -/
def Connective.truth : Connective → Bool → Bool → Bool
  | .and, a, b => a && b
  | .or, a, b => a || b
  | .implies, a, b => !a || b
  | .iff, a, b => a == b

/-- The number of rows of truth values of a given width, and so of the entries of a table for that
    many arguments. -/
def rowCount (width : Nat) : Nat := Nat.pow 2 width

theorem rowCount_succ (width : Nat) : rowCount (width + 1) = 2 * rowCount width :=
  Nat.mul_comm (Nat.pow 2 width) 2

/-- The position of the entry for the given argument values, the first one counting least. -/
def tableIndex : List Bool → Nat
  | [] => 0
  | b :: bs => b.toNat + 2 * tableIndex bs

theorem tableIndex_lt (bs : List Bool) : tableIndex bs < rowCount bs.length := by
  induction bs with
  | nil => decide
  | cons b bs ih =>
      have hb := Bool.toNat_le b
      simp only [tableIndex, List.length_cons, rowCount_succ]
      omega

namespace Formula

mutual

/-- The truth value of a formula. The name of an application is looked up before its arguments are
    evaluated, from left to right, and its table is read after them; both sides of a connective
    are evaluated, the left one first. -/
def evaluate (env : Environment) : Formula → Except EvalError Bool
  | .top => .ok true
  | .bottom => .ok false
  | .app name args =>
    match env.get? name with
    | none => .error (.noTable name)
    | some table => do
      let values ← evaluateList env args
      match table[tableIndex values]? with
      | some value => .ok value
      | none => .error .shortTable
  | .neg f => do
    let value ← evaluate env f
    return !value
  | .binary op l r => do
    let a ← evaluate env l
    let b ← evaluate env r
    return op.truth a b
  | .quant q name body => .error (.notTruthFunctional (.quant q name body))
  | .hole i => .error (.notTruthFunctional (.hole i))

def evaluateList (env : Environment) : List Formula → Except EvalError (List Bool)
  | [] => .ok []
  | a :: as => do
    let value ← evaluate env a
    let values ← evaluateList env as
    return value :: values

end

end Formula

end Deduction
