import Deduction.Derivation.Order
import Deduction.Report.Layout

set_option autoImplicit false

/-! # The graph of a derivation

The lines of a derivation as the nodes of a directed graph, in the DOT language of Graphviz, with an
edge from each cited line to the step that cites it. Behind the node of a step its edges follow in
the order of the cited lines. -/

namespace Deduction.Report

/-- A label between double quotes. -/
def graphLabel (s : String) : String :=
  String.ofList (s.toList.flatMap fun c =>
    if c = Text.doubleQuote then [Text.backslash, c] else [c])

/-- The node of a line. -/
def graphNode (d : Derivation) (line : Derivation.NumberedLine) : String :=
  let number := toString line.number
  let label := graphLabel (number ++ ". " ++ ((d.formulaOf line.ref).map Formula.render).getD "")
  let color := match line.ref with
    | .premise _ => "lightblue"
    | _ => "lightgray"
  "  \"" ++ number ++ "\" [label=\"" ++ label ++ "\", fillcolor=" ++ color ++ ", style=filled];"

/-- The edges to a line. -/
def graphEdges (d : Derivation) (line : Derivation.NumberedLine) : List String :=
  let cited := ((d.step? line.ref).map Step.lineDeps).getD []
  let sources := (cited.filterMap d.lineNumber?).mergeSort fun a b => decide (a ≤ b)
  sources.map fun source =>
    "  \"" ++ toString source ++ "\" -> \"" ++ toString line.number ++ "\";"

/-- The graph. -/
def graph (d : Derivation) : String :=
  unlines (["digraph proof \x7b", "  rankdir=TB;", "  node [shape=box, style=rounded];"]
    ++ d.numberedLines.flatMap (fun line => graphNode d line :: graphEdges d line)
    ++ ["\x7d"])

/-- The file that a graph goes to when no other one is named. -/
def defaultGraphFile : String := "proof_graph.dot"

/-- The notice that a graph has been written to a file. -/
def graphNotice (path : String) : String := unlines ["Graph exported to " ++ path]

end Deduction.Report
