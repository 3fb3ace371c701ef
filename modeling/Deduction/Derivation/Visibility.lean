import Deduction.Derivation.Order

set_option autoImplicit false

/-! # Visibility

A line may cite what stands before it in its own scope and in the scopes around it. A subproof that
has ended may be cited as a whole, but nothing inside it. While a derivation is walked through,
`seen` holds what may be cited at the current place: inside a subproof it grows by the subproof's own
premises and lines, behind it only by the subproof itself. -/

namespace Deduction

/-- What a premise among the given ones sees, `seen` being visible in front of them. -/
def premisesVisibleFrom? (r : Ref) (seen : List Ref) : List Premise → Option (List Ref)
  | [] => none
  | p :: ps => if r = p.ref then some seen else premisesVisibleFrom? r (seen ++ [p.ref]) ps

/-- What a part of the lines sees, `seen` being visible in front of them. -/
def Lines.visibleFrom? (r : Ref) (seen : List Ref) : Lines → Option (List Ref)
  | .nil => none
  | .step id _ rest =>
    if r = .step id then some seen else rest.visibleFrom? r (seen ++ [.step id])
  | .subproof id premises body rest =>
    if r = .subproof id then some seen
    else
      match premisesVisibleFrom? r seen premises with
      | some visible => some visible
      | none =>
        match body.visibleFrom? r (seen ++ premises.map Premise.ref) with
        | some visible => some visible
        | none => rest.visibleFrom? r (seen ++ [.subproof id])

namespace Derivation

/-- Everything that may be cited from the place of a reference; nothing if it leads nowhere. -/
def visibleFrom (d : Derivation) (r : Ref) : List Ref :=
  match premisesVisibleFrom? r [] d.root.premises with
  | some visible => visible
  | none => (d.root.lines.visibleFrom? r d.root.premiseRefs).getD []

/-- May a line cite `dep`? -/
def canCite (d : Derivation) (line dep : Ref) : Bool :=
  d.contains dep && dep != line && (d.visibleFrom line).contains dep

end Derivation

end Deduction
