import Deduction.Formula.Names
import Deduction.Formula.Printer
import Deduction.SignedIndex

set_option autoImplicit false

/-! # Contexts

A context is a formula with numbered holes. Filling it puts an argument into every hole, and is
refused where a free name of the argument would come under a quantifier that binds it. Abstraction
goes the other way: it puts holes in place of the occurrences of given formulas, the outermost
first, leaving alone those whose names an enclosing quantifier binds. -/

namespace Deduction

/-- A body whose holes are the places of `arity` arguments. One of negative arity takes none. -/
structure Context where
  arity : Int
  body : Formula
deriving DecidableEq

/-- Why a context cannot be filled. -/
inductive FillError where
  /-- A hole has no argument. -/
  | noArgument
  /-- A free name of an argument would be bound inside the body. -/
  | capture (body : Formula) (args : List Formula)
deriving DecidableEq

/-- A capture is reported by the arguments: one by its text, several in explicit form. -/
def FillError.message : FillError → String
  | .noArgument => "a hole has no argument"
  | .capture _ [arg] => arg.render
  | .capture _ args => Formula.explicitRow (Formula.explicitList args)

namespace Formula

mutual

/-- Would a free name of an argument come under a quantifier of the formula that binds it, the names
    in `bound` being bound already? The search goes from left to right and ends at the first such
    hole; it fails at a hole without an argument. -/
def captures (args : List Formula) (bound : List String) : Formula → Option Bool
  | .hole i => (elementAt? args i).map (mentions bound)
  | .app _ as => capturesAny args bound as
  | .neg f => captures args bound f
  | .binary _ l r =>
    match captures args bound l with
    | some false => captures args bound r
    | found => found
  | .quant _ name body => captures args (name :: bound) body
  | .top => some false
  | .bottom => some false

def capturesAny (args : List Formula) (bound : List String) : List Formula → Option Bool
  | [] => some false
  | a :: as =>
    match captures args bound a with
    | some false => capturesAny args bound as
    | found => found

end

mutual

/-- Puts the arguments into the holes; fails if a hole has none. -/
def fillHoles (args : List Formula) : Formula → Option Formula
  | .hole i => elementAt? args i
  | .app name as => do
    let as ← fillHolesList args as
    return .app name as
  | .neg f => do
    let f ← fillHoles args f
    return .neg f
  | .binary op l r => do
    let l ← fillHoles args l
    let r ← fillHoles args r
    return .binary op l r
  | .quant q name body => do
    let body ← fillHoles args body
    return .quant q name body
  | .top => some .top
  | .bottom => some .bottom

def fillHolesList (args : List Formula) : List Formula → Option (List Formula)
  | [] => some []
  | a :: as => do
    let a ← fillHoles args a
    let as ← fillHolesList args as
    return a :: as

end

/-- The number of the first target that the formula equals and whose free names are not in
    `bound`. -/
def targetIndex? (targets : List Formula) (bound : List String) (f : Formula) : Option Nat :=
  targets.findIdx? fun target => f == target && !target.mentions bound

mutual

/-- Puts hole `i` in place of each occurrence of target `i` that is free, the outermost first; the
    names in `bound` are bound around the formula. -/
def abstract (targets : List Formula) (bound : List String) (f : Formula) : Formula :=
  match targetIndex? targets bound f with
  | some i => .hole i
  | none =>
    match f with
    | .app name as => .app name (abstractList targets bound as)
    | .neg g => .neg (abstract targets bound g)
    | .binary op l r => .binary op (abstract targets bound l) (abstract targets bound r)
    | .quant q name body => .quant q name (abstract targets (name :: bound) body)
    | .top => .top
    | .bottom => .bottom
    | .hole i => .hole i

def abstractList (targets : List Formula) (bound : List String) : List Formula → List Formula
  | [] => []
  | a :: as => abstract targets bound a :: abstractList targets bound as

end

end Formula

namespace Context

/-- Would filling the context capture a name? Fails at a hole without an argument. -/
def captures (c : Context) (args : List Formula) : Option Bool := c.body.captures args []

/-- The body with the arguments in its holes. -/
def fill (c : Context) (args : List Formula) : Except FillError Formula :=
  match c.captures args with
  | none => .error .noArgument
  | some true => .error (.capture c.body args)
  | some false =>
    match c.body.fillHoles args with
    | none => .error .noArgument
    | some f => .ok f

/-- The context in which the targets occur in a formula. -/
def ofTargets (f : Formula) (targets : List Formula) : Context :=
  ⟨targets.length, f.abstract targets []⟩

/-- The text of a context: its holes, then its body. -/
def render (c : Context) : String :=
  let holes := (List.range c.arity.toNat).map fun i => "?" ++ toString i
  "\\" ++ commaSeparated holes ++ ". " ++ c.body.render

end Context

end Deduction
