import Deduction.Derivation.Basic

set_option autoImplicit false

/-! # Document order

Walking through a derivation passes the premises of a scope, then its lines, and behind each subproof
all that is nested in it. Lines are numbered from one in that order, and a subproof spans the numbers
of the lines inside it. -/

namespace Deduction

/-- Every part of the lines with its depth, in document order. -/
def Lines.walk (depth : Nat) : Lines → List (Nat × Ref)
  | .nil => []
  | .step id _ rest => (depth, .step id) :: rest.walk depth
  | .subproof id premises body rest =>
    (depth, .subproof id) ::
      (premises.map fun p => (depth + 1, p.ref)) ++ body.walk (depth + 1) ++ rest.walk depth

/-- Every part of a scope with its depth, in document order. -/
def Scope.walk (s : Scope) (depth : Nat) : List (Nat × Ref) :=
  (s.premises.map fun p => (depth, p.ref)) ++ s.lines.walk depth

/-- Every part of a scope, in document order. -/
def Scope.refs (s : Scope) : List Ref := (s.walk 0).map Prod.snd

namespace Derivation

/-- Every premise, step and subproof with its depth, in document order. -/
def walk (d : Derivation) : List (Nat × Ref) := d.root.walk 0

/-- Everything that a reference leads to. -/
def refs (d : Derivation) : List Ref := d.root.refs

def contains (d : Derivation) (r : Ref) : Bool := d.refs.contains r

/-- The lines with their depths, in document order. -/
def lines (d : Derivation) : List (Nat × Ref) := d.walk.filter fun entry => entry.2.isLine

/-- The number of lines. -/
def length (d : Derivation) : Nat := d.lines.length

/-- A line with its number and depth. -/
structure NumberedLine where
  number : Nat
  depth : Nat
  ref : Ref

/-- The lines with their numbers, from one on. -/
def numberedLines (d : Derivation) : List NumberedLine :=
  (d.lines.zipIdx 1).map fun ((depth, r), number) => ⟨number, depth, r⟩

/-- The number of a line. -/
def lineNumber? (d : Derivation) (r : Ref) : Option Nat :=
  (d.numberedLines.find? fun line => line.ref = r).map NumberedLine.number

/-- The least and the greatest number of a line inside a subproof, at any depth. -/
def span? (d : Derivation) (r : Ref) : Option (Nat × Nat) := do
  let scope ← d.scope? r
  let inside := scope.refs.filterMap d.lineNumber?
  return (← inside.min?, ← inside.max?)

end Derivation

end Deduction
