import Deduction.Binary64.Basic
import Deduction.Formula.Truth
import Deduction.Rule.Basic

set_option autoImplicit false

/-! # Truth-table checks

A clause is an equivalence when both sides have the same truth value under every environment that
gives each free name a table of the right size. There are `2 ^ s` such environments, where the tables
together have `s` slots, so the check is only run up to a limit on `s`.

Rows are lists of truth values, one for each slot. They are ordered like binary numerals with the
first slot leading, false before true. -/

namespace Deduction

/-! ## Rows -/

/-- All rows of a given width, in order. -/
def rows : Nat → List (List Bool)
  | 0 => [[]]
  | n + 1 => (rows n).map (false :: ·) ++ (rows n).map (true :: ·)

/-- The place of a row among the rows of its width: the row read as a binary numeral. -/
def rowIndex (row : List Bool) : Nat := row.foldl (fun n b => 2 * n + b.toNat) 0

/-- The first row of a given width that passes a test. Rows behind it are not tried. -/
def findRow {ε : Type} : Nat → (List Bool → Except ε Bool) → Except ε (Option (List Bool))
  | 0, test => do
    let passed ← test []
    return if passed then some [] else none
  | n + 1, test => do
    match ← findRow n fun row => test (false :: row) with
    | some row => return some (false :: row)
    | none =>
      let found ← findRow n fun row => test (true :: row)
      return found.map (true :: ·)

/-! ## Environments -/

/-- Cuts a row into tables of the given widths, one for each name. -/
def layout : List (String × Nat) → List Bool → List (String × List Bool)
  | [], _ => []
  | (name, width) :: rest, row => (name, row.take width) :: layout rest (row.drop width)

/-- Why there are no environments for some names. -/
inductive TableError where
  /-- The arity of the name is not known. -/
  | noArity (name : String)
  /-- There is no table for a negative number of arguments. -/
  | negativeArity (name : String) (arity : Int)
  /-- A width is a fraction, and it or another one is out of its range. -/
  | outOfRange
  /-- The rows would be too long. -/
  | tooWide (slots : Nat)
deriving DecidableEq

def TableError.message : TableError → String
  | .noArity name => "no arity for " ++ Text.quote name
  | .negativeArity name arity => Text.quote name ++ " has arity " ++ toString arity
  | .outOfRange => "the width of a table is out of range"
  | .tooWide slots => toString slots ++ " truth-table slots are too many"

/-- The number of slots of all tables together. -/
def slotCount : List (String × Nat) → Nat
  | [] => 0
  | (_, width) :: rest => width + slotCount rest

/-- The width of the table of a name with an arity. -/
def tableWidth (known : String × Int) : String × Nat := (known.1, rowCount known.2.toNat)

/-- Why there are no widths for names of which one has a negative arity: as soon as a fraction is among
    them, they are added up as floating-point numbers. -/
def negativeArity (known : List (String × Int)) (name : String) (arity : Int) : TableError :=
  let whole := known.takeWhile fun entry => 0 ≤ entry.2
  let others := known.drop whole.length
  if Binary64.inRange (slotCount (whole.map tableWidth)) ∧
      others.all fun entry => Binary64.inRange (tableWidth entry).2 then
    .negativeArity name arity
  else .outOfRange

/-- The greatest length of a row. -/
def maxRowWidth : Nat := Nat.pow 2 32

/-- Refuses rows that are too long. -/
def limitWidth (slots : Nat) : Except TableError Unit :=
  if maxRowWidth < slots then .error (.tooWide slots) else .ok ()

/-- The number of slots up to which clauses are checked when nothing else is said. -/
def defaultMaxSlots : Int := 20

/-- The outcome of the check of one clause. -/
structure ClauseReport where
  rule : String
  clause : Int
  lhs : Formula
  rhs : Formula
  arities : Arities
  /-- How many rows were tried. -/
  rows : Nat
  /-- The first environment under which the sides differ. -/
  counterexample : Option Environment

namespace ClauseReport

def ok (r : ClauseReport) : Bool := r.counterexample.isNone

def name (r : ClauseReport) : String :=
  r.rule ++ "[" ++ toString r.clause ++ "]: " ++ r.lhs.render ++ " <=> " ++ r.rhs.render

end ClauseReport

/-- Why a clause cannot be checked. -/
inductive CheckError where
  | arity (conflict : ArityConflict)
  | tooManySlots (rule : String) (clause : Int) (slots : Nat) (limit : Int)
  | table (e : TableError)
  | eval (e : EvalError)
deriving DecidableEq

def CheckError.message : CheckError → String
  | .arity conflict => conflict.message
  | .tooManySlots rule clause slots limit =>
    rule ++ "[" ++ toString clause ++ "] needs " ++ toString slots ++
      " truth-table slots, limit is " ++ toString limit
  | .table e => e.message
  | .eval e => e.message

/-- Do the two sides differ under an environment? -/
def sidesDiffer (lhs rhs : Formula) (env : Environment) : Except EvalError Bool := do
  let a ← lhs.evaluate env
  let b ← rhs.evaluate env
  return a != b

/-- The free names of both sides, in the order of their code points. -/
def clauseNames (lhs rhs : Formula) : List String := sortedNames (lhs.freeNames ++ rhs.freeNames)

/-- Compares the two sides of a clause under every environment. -/
def checkClause (rule : String) (clause : Int) (lhs rhs : Formula) (maxSlots : Int) :
    Except CheckError ClauseReport := do
  let arities ← (Rule.clauseArities lhs rhs).mapError .arity
  let widths := (clauseNames lhs rhs).map fun name =>
    (name, rowCount ((arities.get? name).getD 0).toNat)
  let slots := slotCount widths
  if maxSlots < slots then
    .error (.tooManySlots rule clause slots maxSlots)
  else
    (limitWidth slots).mapError .table
    let found ← (findRow slots fun row => sidesDiffer lhs rhs (layout widths row)).mapError .eval
    return {
      rule, clause, lhs, rhs, arities
      rows := match found with
        | none => rowCount slots
        | some row => rowIndex row + 1
      counterexample := found.map (layout widths) }

/-- Checks every clause of a rule. -/
def Rule.check (rule : Rule) (maxSlots : Int) : Except CheckError (List ClauseReport) :=
  rule.clauses.zipIdx.mapM fun (clause, index) =>
    checkClause rule.name index clause.lhs clause.rhs maxSlots

/-- Checks every clause of every rule. -/
def checkRules (rules : List Rule) (maxSlots : Int) : Except CheckError (List ClauseReport) := do
  let reports ← rules.mapM fun rule => rule.check maxSlots
  return reports.flatten

/-- The truth tables of an environment in braces, each a row of truth values. -/
def Environment.render (env : Environment) : String :=
  let table (values : List Bool) :=
    Formula.explicitRow (values.map fun value => if value then "True" else "False")
  "\x7b" ++ commaSeparated (env.map fun (name, values) => Text.quote name ++ ": " ++ table values)
    ++ "\x7d"

/-- Why rules do not count as sound. -/
inductive SoundnessError where
  | check (e : CheckError)
  | mismatch (rule : String) (lhs rhs : Formula) (env : Environment)

def SoundnessError.message : SoundnessError → String
  | .check e => e.message
  | .mismatch rule lhs rhs env =>
    rule ++ ": " ++ lhs.render ++ " and " ++ rhs.render ++ " differ under " ++ env.render

/-- The first report with a counterexample. -/
def firstMismatch? (reports : List ClauseReport) : Option SoundnessError :=
  reports.findSome? fun r => r.counterexample.map (.mismatch r.rule r.lhs r.rhs ·)

/-- Checks every clause, and fails at the first one that is no equivalence. -/
def requireSound (rules : List Rule) (maxSlots : Int) :
    Except SoundnessError (List ClauseReport) := do
  let reports ← (checkRules rules maxSlots).mapError .check
  match firstMismatch? reports with
  | some e => .error e
  | none => return reports

end Deduction
