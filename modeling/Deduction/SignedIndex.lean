set_option autoImplicit false

/-! # Signed positions

A position in a list counts from the front, starting at zero; a negative one counts from the back,
`-1` being the last element. -/

namespace Deduction

variable {α : Type}

/-- The element at a signed position. -/
def elementAt? (xs : List α) (i : Int) : Option α :=
  if 0 ≤ i then xs[i.toNat]?
  else if -(xs.length : Int) ≤ i then xs[(xs.length + i).toNat]?
  else none

theorem elementAt?_natCast (xs : List α) (n : Nat) : elementAt? xs n = xs[n]? := by
  simp [elementAt?]

end Deduction
