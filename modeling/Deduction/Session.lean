import Deduction.Derivation.Hold
import Deduction.Document.Load

set_option autoImplicit false

/-! # Sessions

A session works on one derivation. When the derivation is loaded anew while a line is held, the new
derivation holds nothing, and the content of the held line comes loose: what is assigned to it until
its hold ends is no longer part of the derivation. -/

namespace Deduction

/-- The content of a line. -/
inductive Content where
  | premise (formula : Option Formula)
  | step (content : Step)
deriving DecidableEq

namespace Content

def assignFormula (formula : Option Formula) : Content → Content
  | .premise _ => .premise formula
  | .step content => .step { content with conclusion := formula }

/-- Premises have no rule. -/
def assignRule (rule : Value) : Content → Content
  | .premise formula => .premise formula
  | .step content => .step { content with rule }

end Content

/-- The content of the held line. -/
def Derivation.heldContent? (d : Derivation) : Option Content :=
  match d.held with
  | some (.premise id) => (d.premise? (.premise id)).map fun p => .premise p.formula
  | some (.step id) => (d.step? (.step id)).map .step
  | some (.subproof _) | none => none

/-- A derivation, and the content of a line that is held but no longer part of it. -/
structure Session where
  derivation : Derivation
  loose : Option Content := none

namespace Session

/-- The content that can be assigned to. -/
def content? (s : Session) : Option Content := s.derivation.heldContent? <|> s.loose

/-- Assigns to the held line, or to the content that has come loose. -/
def assign (s : Session) (inPlace : Derivation → Derivation) (apart : Content → Content) : Session :=
  if s.derivation.held.isSome then { s with derivation := inPlace s.derivation }
  else { s with loose := s.loose.map apart }

def assignFormula (s : Session) (formula : Option Formula) : Session :=
  s.assign (·.assignFormula formula) (·.assignFormula formula)

def assignRule (s : Session) (rule : Value) : Session :=
  s.assign (·.assignRule rule) (·.assignRule rule)

/-- Goes on with the derivation as it is loaded from its own document. -/
def reload (s : Session) : Except LoadError Session := do
  return ⟨← s.derivation.reload, s.content?⟩

variable {α : Type}

/-- Runs `body` on the derivation that one of the holds of a derivation provides. Content that was
    loose before is out of reach in the meantime. -/
def within (s : Session) (hold : (Derivation → α × Derivation) → Derivation.Edited (Option α))
    (body : Session → α × Session) : Except Derivation.AccessError (Option α × Session) := do
  let (result, d) ← hold fun d =>
    let (result, after) := body ⟨d, none⟩
    (result, after.derivation)
  return (result, { s with derivation := d })

/-- Holds a premise while `body` runs. -/
def withPremise (s : Session) (r : Ref) (body : Session → α × Session) :
    Except Derivation.AccessError (Option α × Session) :=
  s.within (s.derivation.withPremise r) body

/-- Holds a step while `body` runs. -/
def withStep (s : Session) (r : Ref) (body : Session → α × Session) :
    Except Derivation.AccessError (Option α × Session) :=
  s.within (s.derivation.withStep r) body

end Session

end Deduction
