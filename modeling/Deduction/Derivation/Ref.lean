set_option autoImplicit false

/-! # References

A reference is a handle on a part of a derivation. It holds a number that is drawn once and never
again, and does not depend on where the part stands. -/

namespace Deduction

inductive Ref where
  /-- An assumed formula. -/
  | premise (id : Int)
  /-- A derived line. -/
  | step (id : Int)
  /-- A nested scope. -/
  | subproof (id : Int)
deriving DecidableEq

namespace Ref

def id : Ref → Int
  | .premise id => id
  | .step id => id
  | .subproof id => id

/-- Premises and steps are lines. -/
def isLine : Ref → Bool
  | .premise _ | .step _ => true
  | .subproof _ => false

/-- Steps and subproofs are what follows the premises of a scope. -/
def followsPremises : Ref → Bool
  | .step _ | .subproof _ => true
  | .premise _ => false

def isSubproof : Ref → Bool
  | .subproof _ => true
  | .premise _ | .step _ => false

/-- The short form, used in saved documents. -/
def label : Ref → String
  | .premise id => "p" ++ toString id
  | .step id => "j" ++ toString id
  | .subproof id => "s" ++ toString id

/-- The long form, used in messages about references that lead nowhere. -/
def render : Ref → String
  | .premise id => "PremiseRef(" ++ toString id ++ ")"
  | .step id => "JustificationRef(" ++ toString id ++ ")"
  | .subproof id => "SubproofRef(" ++ toString id ++ ")"

/-- The long form of a reference that may be missing. -/
def renderOption : Option Ref → String
  | none => "None"
  | some r => r.render

/-- The references of a list in the order of their numbers, each once. -/
def sorted (refs : List Ref) : List Ref := refs.eraseDups.mergeSort fun a b => decide (a.id ≤ b.id)

end Ref

end Deduction
