import Deduction.Derivation.Visibility
import Deduction.Rule.Catalog

set_option autoImplicit false

/-! # Verdicts

A step is correct when its rule is in the catalog, everything it cites may be cited from its place,
and the rule takes the formulas of the cited lines to its conclusion. `verifyLine` finds the first
reason why a line is not correct. Premises are correct as they are. A line without a formula is not
wrong but unverified, and so is a subproof, which is checked through the lines inside it. -/

namespace Deduction

/-! ## Objections -/

inductive ErrorKind where
  | wrongRule | badDependency | wrongDependencyCount | noRule | unknownRule | notFound | incomplete
  | notALine
deriving DecidableEq

def ErrorKind.word : ErrorKind → String
  | .wrongRule => "WRONG_RULE"
  | .badDependency => "BAD_DEPENDENCY"
  | .wrongDependencyCount => "WRONG_DEPENDENCY_COUNT"
  | .noRule => "NO_RULE"
  | .unknownRule => "UNKNOWN_RULE"
  | .notFound => "NOT_FOUND"
  | .incomplete => "INCOMPLETE"
  | .notALine => "NOT_A_LINE"

/-- All kinds of errors. -/
def ErrorKind.all : List ErrorKind := [
  .wrongRule, .badDependency, .wrongDependencyCount, .noRule, .unknownRule, .notFound, .incomplete,
  .notALine]

/-- What an error of a kind says when it has no message of its own. -/
def ErrorKind.description : ErrorKind → String
  | .wrongRule => "the cited rule does not produce this conclusion from the cited lines"
  | .badDependency => "a cited dependency does not exist or is out of scope"
  | .wrongDependencyCount => "the cited rule needs a different set of dependencies"
  | .noRule => "no rule cited"
  | .unknownRule => "the cited rule is not in the catalog"
  | .notFound => "no such line"
  | .incomplete => "the line or one of its dependencies has no parsed expression"
  | .notALine => "a subproof is checked through the lines inside it"

/-- A reason why a line is not correct. -/
structure VerificationError where
  kind : ErrorKind
  message : String := ""
deriving DecidableEq

def VerificationError.text (e : VerificationError) : String :=
  if e.message = "" then e.kind.description else e.message

/-! ## Verdicts -/

inductive LineStatus where
  | unverified | valid | invalid
deriving DecidableEq

def LineStatus.word : LineStatus → String
  | .unverified => "unverified"
  | .valid => "valid"
  | .invalid => "invalid"

structure Verdict where
  status : LineStatus
  error : Option VerificationError := none
deriving DecidableEq

/-- The verdict on a line that has the given error, or none. -/
def Verdict.ofError : Option VerificationError → Verdict
  | none => ⟨.valid, none⟩
  | some e =>
    match e.kind with
    | .incomplete | .notALine => ⟨.unverified, some e⟩
    | _ => ⟨.invalid, some e⟩

/-- Why there is no verdict on a line, or no table of a derivation. -/
inductive Obstacle where
  /-- The patterns of a rule cannot be matched. -/
  | matching (e : MatchError)
  /-- A list or a record is cited, in which no rule can be looked up. -/
  | notAKey (v : Value)
  /-- What is cited as a rule is no name that could be shown. -/
  | notAName (v : Value)
deriving DecidableEq

def Obstacle.message : Obstacle → String
  | .matching e => e.message
  | .notAKey v => v.render ++ " is no key of a catalog"
  | .notAName v => v.render ++ " is no name of a rule"

/-- The rule that a step means by what it cites, if the catalog has it. -/
def Catalog.cited? (catalog : Catalog) : Value → Except Obstacle (Option Rule)
  | .text name => .ok (catalog.lookup name)
  | v => if v.isCollection then .error (.notAKey v) else .ok none

namespace Derivation

/-- A reference in a message: by its line number, by the lines it spans, or by itself. -/
def describe (d : Derivation) (r : Ref) : String :=
  match d.lineNumber? r with
  | some number => "line " ++ toString number
  | none =>
    match d.span? r with
    | some (first, last) => "subproof " ++ toString first ++ "-" ++ toString last
    | none => r.render

/-- The first of the cited references, by number, that may not be cited where it is: it is of the
    wrong kind or not visible. -/
def badDependency? (d : Derivation) (line : Ref) (content : Step) : Option Ref :=
  let bad (ofKind : Ref → Bool) (dep : Ref) := !ofKind dep || !d.canCite line dep
  match (Ref.sorted content.lineDeps).find? (bad Ref.isLine) with
  | some dep => some dep
  | none => (Ref.sorted content.subproofDeps).find? (bad Ref.isSubproof)

/-- The formulas of the cited lines in the order of their numbers, or nothing if one is blank. -/
def citedFormulas? (d : Derivation) (content : Step) : Option (List Formula) :=
  (Ref.sorted content.lineDeps).mapM d.formulaOf

/-- Checks a step with a conclusion against the rule it cites. -/
def verifyStep (d : Derivation) (r : Ref) (content : Step) (conclusion : Formula) (rule : Rule) :
    Except Obstacle (Option VerificationError) := do
  let ruleName := Catalog.displayName rule.name
  match d.badDependency? r content with
  | some dep =>
    return some ⟨.badDependency, d.describe dep ++ " cannot be cited from " ++ d.describe r⟩
  | none =>
    if !content.subproofDeps.isEmpty then
      return some ⟨.wrongDependencyCount, ruleName ++ " cites lines, not subproofs"⟩
    else if content.lineDeps.isEmpty then
      return some ⟨.wrongDependencyCount, ruleName ++ " needs at least one cited line"⟩
    else
      match d.citedFormulas? content with
      | none => return some ⟨.incomplete, "a cited line has no parsed expression"⟩
      | some premises =>
        if ← (rule.applies conclusion premises).mapError .matching then return none
        else
          return some ⟨.wrongRule, ruleName ++ " does not produce " ++ conclusion.render ++
            " from " ++ commaSeparated (premises.map Formula.render)⟩

/-- The first reason why a line is not correct; none if it is. -/
def verifyLine (d : Derivation) (catalog : Catalog) (r : Option Ref) :
    Except Obstacle (Option VerificationError) :=
  let notALine : VerificationError :=
    ⟨.notFound, Ref.renderOption r ++ " is not a line of this proof"⟩
  match r with
  | none => .ok (some notALine)
  | some r =>
    match r with
    | .premise _ =>
      .ok (if d.contains r then none else some ⟨.notFound, r.render ++ " does not exist"⟩)
    | .subproof _ =>
      .ok (some (if d.contains r then ⟨.notALine, d.describe r ++ " is a subproof, not a line"⟩
        else notALine))
    | .step _ =>
      match d.step? r with
      | none => .ok (some notALine)
      | some content =>
        match content.conclusion with
        | none => .ok (some ⟨.incomplete, "this line has no parsed expression"⟩)
        | some conclusion =>
          if content.rule = .null then .ok (some ⟨.noRule, ""⟩)
          else do
            match ← catalog.cited? content.rule with
            | none => return some ⟨.unknownRule, "unknown rule " ++ content.rule.render⟩
            | some rule => d.verifyStep r content conclusion rule

/-- The verdict on a line. -/
def verdict (d : Derivation) (catalog : Catalog) (r : Option Ref) : Except Obstacle Verdict :=
  let blank := r.any fun r => r.isLine && d.contains r && (d.formulaOf r).isNone
  if blank then .ok ⟨.unverified, none⟩
  else (d.verifyLine catalog r).map Verdict.ofError

/-- The verdict on every line, in document order. -/
def verifyAll (d : Derivation) (catalog : Catalog) : Except Obstacle (List (Ref × Verdict)) :=
  d.lines.mapM fun (_, r) => do
    let verdict ← d.verdict catalog (some r)
    return (r, verdict)

end Derivation

end Deduction
