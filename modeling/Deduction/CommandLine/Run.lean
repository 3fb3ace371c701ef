import Deduction.CommandLine.Arguments
import Deduction.CommandLine.Folder
import Deduction.Document.Load
import Deduction.Report.Graph
import Deduction.Report.Listing
import Deduction.Report.Table

set_option autoImplicit false

/-! # The program

Shows a sample derivation with a verdict on each line; on request also the rule catalog, its
truth-table check, the document of the sample and its graph. -/

namespace Deduction.CommandLine

/-- What a run of the program leaves behind: its exit code, its output, and the files it writes. -/
structure Outcome where
  code : Nat
  output : String := ""
  errors : String := ""
  files : List (String × String) := []

/-- The exit code when there is nothing to act on. -/
def Stop.code : Stop → Nat
  | .help => 0
  | .mistake => 2

/-- Shows a sample, behind the output so far. -/
def showSample (o : Options) (sample : Sample) (output : String) : Outcome :=
  let title := "Demo: " ++ sample.name ++ " (" ++ sample.description ++ ")\n"
  let derivation := sample.derivation
  match Report.table derivation .builtin with
  | .error e => { code := 1, output := output ++ title, errors := e.message ++ "\n" }
  | .ok table =>
    let document := if o.dump then derivation.toValue.pretty ++ "\n" else ""
    let shown := output ++ title ++ table ++ document
    if o.graphFile = "" then { code := 0, output := shown }
    else
      { code := 0
        output := shown ++ Report.graphNotice o.graphFile
        files := [(o.graphFile, Report.graph derivation)] }

/-- Does what the options ask for; fails with the setting that is needed and has no value. -/
def run (o : Options) : Except Setting Outcome := do
  let sample (output : String) : Except Setting Outcome :=
    match o.sample with
    | none => .error .sample
    | some sample => .ok (showSample o sample output)
  let catalog := if o.catalog then Report.catalogListing .builtin !o.quiet else ""
  if o.checkCatalog then
    match o.maxSlots with
    | none => .error .maxSlots
    | some maxSlots =>
      match checkRules Catalog.builtin.rules maxSlots with
      | .error e =>
        .ok { code := 1, output := catalog,
              errors := "Truth-table check aborted: " ++ e.message ++ "\n" }
      | .ok reports =>
        let output := catalog ++ Report.checkListing reports
        if reports.all (·.ok) then sample output else .ok { code := 1, output }
  else sample catalog

end Deduction.CommandLine
