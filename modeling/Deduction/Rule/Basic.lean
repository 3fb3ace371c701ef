import Deduction.Formula.Parser
import Deduction.Pattern.Match

set_option autoImplicit false

/-! # Rules

A rule is a named list of clauses, each an equivalence of two patterns that may be read in both
directions. A step from cited premises to a conclusion is licensed when some clause, in some
direction, matches: its source side the premises and its target side the conclusion, under the same
bindings. Several premises stand for the parts of a conjunction on the source side, in any order. -/

namespace Deduction

/-- Two patterns that are equivalent. -/
structure Clause where
  lhs : Formula
  rhs : Formula
deriving DecidableEq

inductive Direction where
  | forward | backward
deriving DecidableEq

def Direction.word : Direction → String
  | .forward => "FORWARD"
  | .backward => "BACKWARD"

def Direction.description : Direction → String
  | .forward => "lhs => rhs"
  | .backward => "rhs => lhs"

def Clause.render (c : Clause) : String := c.lhs.render ++ " <=> " ++ c.rhs.render

/-- The side that is matched first. -/
def Clause.source (c : Clause) : Direction → Formula
  | .forward => c.lhs
  | .backward => c.rhs

/-- The side that is matched, or instantiated, second. -/
def Clause.target (c : Clause) : Direction → Formula
  | .forward => c.rhs
  | .backward => c.lhs

structure Rule where
  name : String
  clauses : List Clause
deriving DecidableEq

/-! ## Premises and the parts of a conjunction -/

/-- The `count` parts of a conjunction that is nested to the left: `(a & b) & c` has the three parts
    `a`, `b`, `c`, and the two parts `a & b`, `c`. -/
def Formula.splitConjuncts (f : Formula) (count : Int) : Option (List Formula) :=
  if count = 1 then some [f]
  else
    match f with
    | .binary .and l r => do
      let parts ← l.splitConjuncts (count - 1)
      return parts ++ [r]
    | _ => none

/-- Each element of a list with the others, in order. -/
def choices {α : Type} : List α → List (α × List α)
  | [] => []
  | x :: xs => (x, xs) :: (choices xs).map fun choice => (choice.1, x :: choice.2)

/-- The ways to take `count` elements of a list one after the other: those that start with an earlier
    element come first. -/
def arrangements {α : Type} : Nat → List α → List (List α)
  | 0, _ => [[]]
  | count + 1, xs =>
    (choices xs).flatMap fun choice => (arrangements count choice.2).map (choice.1 :: ·)

/-- All orders of a list. -/
def orderings {α : Type} (xs : List α) : List (List α) := arrangements xs.length xs

namespace Rule

/-- A clause read in one of its directions. -/
structure DirectedClause where
  index : Nat
  clause : Clause
  direction : Direction

def DirectedClause.source (d : DirectedClause) : Formula := d.clause.source d.direction

def DirectedClause.target (d : DirectedClause) : Formula := d.clause.target d.direction

/-- Both directions of every clause, in order. -/
def directedClauses (rule : Rule) : List DirectedClause :=
  rule.clauses.zipIdx.flatMap fun (clause, index) =>
    [⟨index, clause, .forward⟩, ⟨index, clause, .backward⟩]

/-- Which clause, in which direction and under which bindings, licenses a step. -/
structure Match where
  clause : Nat
  direction : Direction
  bindings : Bindings
deriving DecidableEq

/-- Reads the patterns of a rule. -/
def ofPatterns (name : String) (patterns : List (String × String)) : Except ParseError Rule := do
  let clauses ← patterns.mapM fun (lhs, rhs) => do
    let lhs ← Formula.parse lhs
    let rhs ← Formula.parse rhs
    return Clause.mk lhs rhs
  return ⟨name, clauses⟩

/-- The bindings under which the parts are the premises in their order and the target is the
    conclusion. -/
def matchStep (parts premises : List Formula) (target conclusion : Formula) :
    Except MatchError (Option Bindings) := do
  match ← matchAll (parts.zip premises) [] with
  | none => return none
  | some bindings => matchOne target conclusion bindings

/-- Tries one clause in one direction, with the premises in every order. -/
def DirectedClause.find (d : DirectedClause) (conclusion : Formula) (premises : List Formula) :
    Except MatchError (Option Match) :=
  match d.source.splitConjuncts premises.length with
  | none => .ok none
  | some parts =>
    (orderings premises).findSomeM? fun ordering => do
      let found ← matchStep parts ordering d.target conclusion
      return found.map fun bindings => ⟨d.index, d.direction, bindings⟩

/-- The first clause and direction that licenses the step from the premises to the conclusion.
    Without premises there is none. -/
def findMatch (rule : Rule) (conclusion : Formula) (premises : List Formula) :
    Except MatchError (Option Match) :=
  if premises.isEmpty then .ok none
  else rule.directedClauses.findSomeM? fun d => d.find conclusion premises

/-- Does the rule license the step from the premises to the conclusion? -/
def applies (rule : Rule) (conclusion : Formula) (premises : List Formula) :
    Except MatchError Bool := do
  let found ← rule.findMatch conclusion premises
  return found.isSome

/-- The target side of the clause at a signed position; nothing if there is no such clause. -/
def instantiate? (rule : Rule) (clause : Int) (direction : Direction) (bindings : Bindings) :
    Option (Except InstanceError Formula) :=
  (elementAt? rule.clauses clause).map fun c => (c.target direction).instantiate bindings

/-- What one clause in one direction makes of a whole formula. -/
def DirectedClause.result (d : DirectedClause) (f : Formula) :
    Except MatchError (Option Formula) := do
  match ← matchOne d.source f [] with
  | none => return none
  | some bindings =>
    match d.target.instantiate bindings with
    | .ok result => return some result
    | .error (.unbound _) => return none
    | .error (.fill (.capture ..)) => return none
    | .error (.fill .noArgument) => .error .noArgument
    | .error (.arity conflict) => .error (.arity conflict)

/-- What the directed clauses make of a whole formula, in order and without repetitions, behind the
    results found already. -/
def collectResults (f : Formula) :
    List DirectedClause → List Formula → Except MatchError (List Formula)
  | [], results => .ok results
  | d :: ds, results => do
    match ← d.result f with
    | none => collectResults f ds results
    | some result =>
      collectResults f ds (if results.contains result then results else results ++ [result])

/-- Every formula that one application of the rule to a whole formula gives. -/
def results (rule : Rule) (f : Formula) : Except MatchError (List Formula) :=
  collectResults f rule.directedClauses []

/-- The numbers of arguments of the free names of both sides of a clause. -/
def clauseArities (lhs rhs : Formula) : Except ArityConflict Arities := do
  let seen ← lhs.inferArities [] []
  rhs.inferArities [] seen

/-- Each clause must use every free name with one number of arguments. -/
def validate (rule : Rule) : Except ArityConflict Unit :=
  rule.clauses.forM fun c => do
    let _ ← clauseArities c.lhs c.rhs

def render (rule : Rule) : String :=
  rule.name ++ ": " ++ "; ".intercalate (rule.clauses.map Clause.render)

end Rule

end Deduction
