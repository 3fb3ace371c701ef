set_option autoImplicit false

/-! # Layout of reports

Reports are made of lines. Columns are padded with spaces to a least width, which counts
characters. -/

namespace Deduction.Report

/-- Lines of text, each with its end. -/
def unlines (lines : List String) : String := String.join (lines.map (· ++ "\n"))

/-- Text at the right end of a column. -/
def alignRight (width : Nat) (s : String) : String :=
  String.ofList (s.toList.leftpad width ' ')

/-- Text at the left end of a column. -/
def alignLeft (width : Nat) (s : String) : String :=
  String.ofList (s.toList.rightpad width ' ')

/-- The line above and below a title. -/
def rule : String := String.ofList (List.replicate 60 '=')

end Deduction.Report
