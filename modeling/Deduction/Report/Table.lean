import Deduction.Derivation.Verdict
import Deduction.Report.Layout

set_option autoImplicit false

/-! # The table of a derivation

One row for each line: its number, a bar for each scope around it, its formula, the verdict on it,
and for steps the rule with the numbers of the lines it cites. A short stroke divides the premises of
a scope from its lines. -/

namespace Deduction.Report

/-- What the verdict on a line is called; `whenValid` if there is nothing to object. -/
def statusText (verdict : Verdict) (whenValid : String) : String :=
  match verdict.status with
  | .unverified => "(unverified)"
  | .invalid => "Error: " ++ (verdict.error.map VerificationError.text).getD "None"
  | .valid => whenValid

/-- The bars of the scopes around a scope. -/
def bars (depth : Nat) : String := String.ofList (List.replicate depth '│')

/-- The stroke between premises and lines. -/
def divider (depth : Nat) : String := "    " ++ bars depth ++ "├────"

/-- The text of a formula that may be missing. -/
def formulaText (f : Option Formula) : String := (f.map Formula.render).getD ""

/-- The number of a line, at the right end of its column. -/
def numberText (d : Derivation) (r : Ref) : String :=
  alignRight 3 (((d.lineNumber? r).map toString).getD "")

/-- The rule of a step. -/
def ruleText (content : Step) : Except Obstacle String :=
  if content.rule.isNothing then .ok Step.noRuleText
  else
    match content.rule with
    | .text name => .ok (Catalog.displayName name)
    | v => .error (.notAName v)

/-- The rule of a step and the lines and subproofs it cites, by number. -/
def citation (d : Derivation) (content : Step) : Except Obstacle String := do
  let rule ← ruleText content
  let cited := (content.lineDeps.filterMap d.lineNumber?).mergeSort fun a b => decide (a ≤ b)
  let spans := (Ref.sorted content.subproofDeps).filterMap d.span?
  let parts := cited.map toString ++ spans.map fun (first, last) =>
    toString first ++ "-" ++ toString last
  return if parts.isEmpty then rule else rule ++ " [" ++ commaSeparated parts ++ "]"

/-- The verdict on a line, among those on all lines. -/
def verdictOn (verdicts : List (Ref × Verdict)) (r : Ref) : Verdict :=
  (verdicts.lookup r).getD ⟨.unverified, none⟩

/-- The rows of the premises of a scope, with the stroke behind them. -/
def premiseRows (d : Derivation) (verdicts : List (Ref × Verdict)) (depth : Nat)
    (premises : List Premise) : List String :=
  let row (p : Premise) :=
    numberText d p.ref ++ " " ++ bars depth ++ "│ " ++ alignLeft 32 (formulaText p.formula) ++ " "
      ++ statusText (verdictOn verdicts p.ref) (if depth = 0 then "Premise" else "Assumption")
  premises.map row ++ [divider depth]

/-- The row of a step. -/
def stepRow (d : Derivation) (verdicts : List (Ref × Verdict)) (depth : Nat) (id : Int)
    (content : Step) (isLast : Bool) : Except Obstacle String := do
  let status := statusText (verdictOn verdicts (.step id)) "Correct"
  let edge := if isLast then "└" else "│"
  return numberText d (.step id) ++ " " ++ bars depth ++ edge ++ " "
    ++ alignLeft 32 (formulaText content.conclusion) ++ " " ++ alignLeft 12 status ++ " "
    ++ (← citation d content)

/-- The rows of the lines of a scope. -/
def lineRows (d : Derivation) (verdicts : List (Ref × Verdict)) (depth : Nat) :
    Lines → Except Obstacle (List String)
  | .nil => .ok []
  | .step id content rest => do
    let row ← stepRow d verdicts depth id content (rest == .nil)
    let rows ← lineRows d verdicts depth rest
    return row :: rows
  | .subproof _ premises body rest => do
    let inner ← lineRows d verdicts (depth + 1) body
    let rows ← lineRows d verdicts depth rest
    return premiseRows d verdicts (depth + 1) premises ++ inner ++ rows

/-- The rows of the table. All lines are judged before any of them is shown. -/
def tableRows (d : Derivation) (catalog : Catalog) : Except Obstacle (List String) := do
  let verdicts ← d.verifyAll catalog
  let lines ← lineRows d verdicts 0 d.root.lines
  return premiseRows d verdicts 0 d.root.premises ++ lines

/-- How many lines have a status. -/
def statusCount (verdicts : List (Ref × Verdict)) (status : LineStatus) : Nat :=
  verdicts.countP fun entry => entry.2.status = status

/-- The table, with a count of the lines below it. -/
def table (d : Derivation) (catalog : Catalog) : Except Obstacle String := do
  let rows ← tableRows d catalog
  let verdicts ← d.verifyAll catalog
  let summary := "  " ++ toString verdicts.length ++ " lines, "
    ++ toString (statusCount verdicts .invalid) ++ " invalid, "
    ++ toString (statusCount verdicts .unverified) ++ " unverified"
  return unlines (["", rule] ++ rows ++ [rule, summary])

end Deduction.Report
