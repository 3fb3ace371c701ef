import Deduction.Report.Layout
import Deduction.Rule.Catalog

set_option autoImplicit false

/-! # Listings of rules and of their checks -/

namespace Deduction.Report

/-- The head of a listing. -/
def heading (title : String) : List String := ["", rule, title, rule]

/-- The lines for one rule; its clauses are left out of a short listing. -/
def ruleLines (clauses : Bool) (r : Rule) : List String :=
  ("  " ++ Catalog.displayName r.name) ::
    if clauses then
      r.clauses.map fun c => "      " ++ c.lhs.render ++ "  <=>  " ++ c.rhs.render
    else []

/-- The rules of a catalog, group by group. -/
def catalogListing (catalog : Catalog) (clauses : Bool) : String :=
  unlines (heading "Rule catalog" ++ catalog.classifications.flatMap fun (group, rules) =>
    (group ++ ":") :: rules.flatMap (ruleLines clauses))

/-- The lines for the check of one clause. -/
def reportLines (r : ClauseReport) : List String :=
  ("  [" ++ alignRight 8 (if r.ok then "ok" else "MISMATCH") ++ "] " ++ r.name ++ "  ("
      ++ toString r.rows ++ " rows)") ::
    (r.counterexample.map fun env => "             counterexample: " ++ env.render).toList

/-- The outcome of truth-table checks. -/
def checkListing (reports : List ClauseReport) : String :=
  let failures := reports.countP fun r => !r.ok
  unlines (heading "Truth-table check" ++ reports.flatMap reportLines ++ [rule,
    "  " ++ toString reports.length ++ " clauses, " ++ toString failures ++ " failures"])

end Deduction.Report
