import Deduction.Proofs.ClauseDecision

set_option autoImplicit false

/-! # What becomes of a check

Whether a check ends in a report, and why it fails if it does, can be told from the clause: from the
free uses of names on both sides, from the slots that their tables have together, and from whether a
quantifier or a hole occurs anywhere. Where the check goes through the rows, each name that evaluation
meets has a table, and the table is long enough: the names that are looked up are the free ones, with
as many arguments as were recorded for them. So evaluation fails at quantifiers and holes only. -/

namespace Deduction

/-! ## Failures of evaluation -/

namespace Formula

/-- Neither quantifiers nor holes occur in the formula. -/
def TruthFunctional (f : Formula) : Prop := f.hasQuantifiers = false ∧ f.hasHoles = false

instance (f : Formula) : Decidable f.TruthFunctional := inferInstanceAs (Decidable (_ ∧ _))

/-- The first formula is a part of the second one that has no truth value: quantified, or a hole. -/
def Obstructs (part f : Formula) : Prop :=
  part ∈ f.subformulas ∧ (part.isQuantified = true ∨ part.isHole = true)

variable {env : Environment}

end Formula

/-! ## The search through the rows -/

section Search

variable {ε : Type} {n : Nat} {test : List Bool → Except ε Bool}

end Search

namespace Clause

variable {c : Clause}

/-- Both sides have a truth value as soon as their names have one. -/
def TruthFunctional (c : Clause) : Prop := c.lhs.TruthFunctional ∧ c.rhs.TruthFunctional

instance (c : Clause) : Decidable c.TruthFunctional := inferInstanceAs (Decidable (_ ∧ _))

/-- The number of arguments of a name, read off its first free use. -/
def arity (c : Clause) (name : String) : Nat := (Assoc.get? c.freeUses name).getD 0

/-- The number of slots of the tables for the free names of the clause. -/
def slots (c : Clause) : Nat := clauseSlots c.arity c.lhs c.rhs

/-- What can become of the check of a clause, and when. -/
inductive Outcome (c : Clause) (rule : String) (clause maxSlots : Int) :
    Except CheckError ClauseReport → Prop
  | conflict {name : String} {first second : Nat} (hne : first ≠ second)
      (hfirst : (name, first) ∈ c.freeUses) (hsecond : (name, second) ∈ c.freeUses) :
      Outcome c rule clause maxSlots (.error (.arity ⟨name, first, second⟩))
  | tooManySlots (hclash : ¬ c.Clashes) (hslots : maxSlots < c.slots) :
      Outcome c rule clause maxSlots (.error (.tooManySlots rule clause c.slots maxSlots))
  | tooWide (hclash : ¬ c.Clashes) (hslots : c.slots ≤ maxSlots) (hwidth : maxRowWidth < c.slots) :
      Outcome c rule clause maxSlots (.error (.table (.tooWide c.slots)))
  | obstructed {part : Formula} (hclash : ¬ c.Clashes) (hslots : c.slots ≤ maxSlots)
      (hwidth : c.slots ≤ maxRowWidth) (hpart : part.Obstructs c.lhs ∨ part.Obstructs c.rhs) :
      Outcome c rule clause maxSlots (.error (.eval (.notTruthFunctional part)))
  | reported {report : ClauseReport} (hclash : ¬ c.Clashes) (hslots : c.slots ≤ maxSlots)
      (hwidth : c.slots ≤ maxRowWidth) (hplain : c.TruthFunctional) :
      Outcome c rule clause maxSlots (.ok report)

end Clause

namespace Clause.Outcome

variable {c : Clause} {rule : String} {clause maxSlots : Int} {result : Except CheckError ClauseReport}

end Clause.Outcome

end Deduction
