import Deduction.Pattern.Binding

set_option autoImplicit false

/-! # Matching

Matching finds bindings under which patterns become given formulas. It is one-sided and purely
syntactic: only the pattern's names are open, and `P & Q` does not match `Q & P`.

A name with arguments can only be matched once the instances of its arguments are known, so such
occurrences are put off until the shapes have been compared. They are then settled in rounds. The
first occurrence of a name settles its context, by abstracting the instances of its arguments from
the formula at its place; every later one has to give its formula back when that context is
filled. -/

namespace Deduction

/-- An occurrence of a name with arguments, and the formula at its place. -/
structure Deferred where
  name : String
  args : List Formula
  candidate : Formula
deriving DecidableEq

/-- What a comparison of shapes has found so far. -/
structure MatchState where
  bindings : Bindings
  deferred : List Deferred

/-- Why matching fails for good, and not only for this candidate. -/
inductive MatchError where
  /-- A name of the pattern is used, or bound, with two numbers of arguments. -/
  | arity (conflict : ArityConflict)
  /-- A bound context has a hole without an argument. -/
  | noArgument
deriving DecidableEq

def MatchError.message : MatchError → String
  | .arity conflict => conflict.message
  | .noArgument => FillError.message .noArgument

/-! ## Comparing shapes -/

/-- A name without arguments takes the candidate as its binding, or is bound to it already. -/
def MatchState.bind (s : MatchState) (name : String) (candidate : Formula) : Option MatchState :=
  match s.bindings.get? name with
  | none => some { s with bindings := s.bindings.put name (.formula candidate) }
  | some bound => if bound = .formula candidate then some s else none

/-- An occurrence of a name with arguments is put off. -/
def MatchState.defer (s : MatchState) (d : Deferred) : MatchState :=
  { s with deferred := s.deferred ++ [d] }

/-- Compares a pattern with a candidate from the root down. -/
def Formula.matchShape : Formula → Formula → MatchState → Option MatchState
  | .app name args, candidate, s =>
    if args.isEmpty then s.bind name candidate else some (s.defer ⟨name, args, candidate⟩)
  | .top, .top, s => some s
  | .bottom, .bottom, s => some s
  | .neg p, .neg f, s => p.matchShape f s
  | .binary op l r, .binary op' l' r', s =>
    if op = op' then (l.matchShape l' s).bind fun s => r.matchShape r' s else none
  | .quant q name p, .quant q' name' f, s =>
    if q = q' ∧ name = name' then p.matchShape f s else none
  | .hole i, .hole j, s => if i = j then some s else none
  | _, _, _ => none

/-- Compares several patterns with their candidates, in order. -/
def matchShapes : List (Formula × Formula) → MatchState → Option MatchState
  | [], s => some s
  | (pattern, candidate) :: pairs, s =>
    (pattern.matchShape candidate s).bind fun s => matchShapes pairs s

/-! ## Settling what was put off -/

/-- The instances of the arguments, or nothing while they cannot be known: a name is unbound, or a
    context would capture a name. -/
def groundArgs (bindings : Bindings) (args : List Formula) :
    Except MatchError (Option (List Formula)) :=
  match Formula.instantiateList bindings args with
  | .ok values => .ok (some values)
  | .error (.unbound _) => .ok none
  | .error (.fill (.capture ..)) => .ok none
  | .error (.fill .noArgument) => .error .noArgument
  | .error (.arity conflict) => .error (.arity conflict)

/-- What becomes of one occurrence in a round. -/
inductive Settled where
  /-- Its arguments are not known yet. -/
  | waits
  /-- It cannot give the formula at its place. -/
  | fails
  /-- It gives the formula at its place under these bindings. -/
  | holds (bindings : Bindings)

/-- Tries to settle one occurrence. -/
def Deferred.settle (d : Deferred) (bindings : Bindings) : Except MatchError Settled := do
  match ← groundArgs bindings d.args with
  | none => return .waits
  | some values =>
    match bindings.get? d.name with
    | none => return .holds (bindings.put d.name (.context (.ofTargets d.candidate values)))
    | some (.formula _) => return .fails
    | some (.context c) =>
      if c.arity ≠ values.length then return .fails
      else
        match c.fill values with
        | .ok f => return if f = d.candidate then .holds bindings else .fails
        | .error (.capture ..) => return .fails
        | .error .noArgument => .error .noArgument

/-- Tries to settle each occurrence once, in order. The result is the bindings then and the
    occurrences that still wait. -/
def settleRound (bindings : Bindings) :
    List Deferred → Except MatchError (Option (Bindings × List Deferred))
  | [] => .ok (some (bindings, []))
  | d :: ds => do
    match ← d.settle bindings with
    | .fails => return none
    | .holds bindings => settleRound bindings ds
    | .waits =>
      match ← settleRound bindings ds with
      | none => return none
      | some (bindings, waiting) => return some (bindings, d :: waiting)

/-- Settles occurrences in rounds until none is left. A round that settles none is the last: the
    arguments that are still unknown occur nowhere else. -/
def settleAll (bindings : Bindings) (deferred : List Deferred) :
    Except MatchError (Option Bindings) :=
  if deferred.isEmpty then .ok (some bindings)
  else
    match settleRound bindings deferred with
    | .error e => .error e
    | .ok none => .ok none
    | .ok (some (bindings, waiting)) =>
      if waiting.length < deferred.length then settleAll bindings waiting else .ok none
termination_by deferred.length

/-! ## Matching -/

/-- Bindings that extend the given ones and turn each pattern into its candidate, if there are
    any to be found. -/
def matchAll (pairs : List (Formula × Formula)) (bindings : Bindings) :
    Except MatchError (Option Bindings) :=
  match matchShapes pairs ⟨bindings, []⟩ with
  | none => .ok none
  | some s => settleAll s.bindings s.deferred

/-- Matches one pattern with one candidate. -/
def matchOne (pattern candidate : Formula) (bindings : Bindings) :
    Except MatchError (Option Bindings) :=
  matchAll [(pattern, candidate)] bindings

end Deduction
