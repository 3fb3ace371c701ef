set_option autoImplicit false

/-! # Runs of code points

A property of characters is tabulated as the list of the maximal runs of code points that have
it, in increasing order, each run given by its first and its last member. -/

namespace Deduction.Text

/-- The first and the last code point of each run. -/
abbrev Runs := List (Nat × Nat)

/-- Does the character lie in one of the runs? -/
def Runs.has (runs : Runs) (c : Char) : Bool :=
  runs.any fun run => run.1 ≤ c.toNat && c.toNat ≤ run.2

theorem Runs.has_cons (first last : Nat) (runs : Runs) (c : Char) :
    Runs.has ((first, last) :: runs) c = (first ≤ c.toNat && c.toNat ≤ last || runs.has c) := by
  simp [Runs.has]

end Deduction.Text
