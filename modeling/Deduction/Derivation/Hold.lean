import Deduction.Derivation.Edit

set_option autoImplicit false

/-! # Changes of a line

The content of a line is changed while the line is held. Only one line is held at a time: as long as
it is, structural edits and changes of other lines are not allowed, and the content of the held line
can be assigned to. A change of a line that does not exist just does nothing. -/

namespace Deduction

namespace Lines

/-- Changes the content of one step. -/
def modifyStep (id : Int) (change : Step → Step) : Lines → Lines
  | .nil => .nil
  | .step i content rest =>
    .step i (if i = id then change content else content) (rest.modifyStep id change)
  | .subproof i premises body rest =>
    .subproof i premises (body.modifyStep id change) (rest.modifyStep id change)

end Lines

/-- Cites a reference if it is not cited, and ceases to cite it if it is. -/
def toggled (refs : List Ref) (r : Ref) : List Ref :=
  if r ∈ refs then refs.filter (· ≠ r) else refs ++ [r]

/-- Is a reference among those that a step cites? -/
def Step.cites (s : Step) (dep : Ref) : Bool :=
  if dep.isSubproof then s.subproofDeps.contains dep else s.lineDeps.contains dep

/-- Cites a reference if it is not cited, and ceases to cite it if it is. Subproofs are cited apart
    from lines. -/
def Step.toggle (s : Step) (dep : Ref) : Step :=
  if dep.isSubproof then { s with subproofDeps := toggled s.subproofDeps dep }
  else { s with lineDeps := toggled s.lineDeps dep }

namespace Derivation

/-! ## Contents -/

/-- Changes the content of one step. -/
def modifyStep (d : Derivation) (id : Int) (change : Step → Step) : Derivation :=
  { d with root := { d.root with lines := d.root.lines.modifyStep id change } }

/-- Gives one premise a formula. -/
def setFormula (d : Derivation) (id : Int) (formula : Option Formula) : Derivation :=
  let change (premises : List Premise) :=
    premises.map fun p => if p.id = id then { p with formula } else p
  { d with root := ⟨change d.root.premises, d.root.lines.mapPremises change⟩ }

/-- Assigns a formula to the held line. -/
def assignFormula (d : Derivation) (formula : Option Formula) : Derivation :=
  match d.held with
  | some (.premise id) => d.setFormula id formula
  | some (.step id) => d.modifyStep id fun content => { content with conclusion := formula }
  | _ => d

/-- Changes the held step. -/
def modifyHeldStep (d : Derivation) (change : Step → Step) : Derivation :=
  match d.held with
  | some (.step id) => d.modifyStep id change
  | _ => d

/-- Assigns a rule to the held step. -/
def assignRule (d : Derivation) (rule : Value) : Derivation :=
  d.modifyHeldStep fun content => { content with rule }

/-! ## Holding a line -/

variable {α : Type}

/-- Holds a line while `body` runs, and releases it then. -/
def hold (d : Derivation) (r : Ref) (body : Derivation → α × Derivation) : Edited (Option α) :=
  if d.held.isSome then .error .held
  else
    let (result, after) := body { d with held := some r }
    .ok (some result, { after with held := none })

/-- Holds a premise while `body` runs. Nothing happens if there is no such premise. -/
def withPremise (d : Derivation) (r : Ref) (body : Derivation → α × Derivation) :
    Edited (Option α) :=
  if (d.premise? r).isSome then d.hold r body else .ok (none, d)

/-- Holds a step while `body` runs. Nothing happens if there is no such step. -/
def withStep (d : Derivation) (r : Ref) (body : Derivation → α × Derivation) :
    Edited (Option α) :=
  if (d.step? r).isSome then d.hold r body else .ok (none, d)

/-- Did a change take place? -/
def Edited.happened (e : Edited (Option Unit)) : Edited Bool :=
  e.map fun (result, d) => (result.isSome, d)

/-- Gives a premise a formula. -/
def setPremise (d : Derivation) (r : Ref) (formula : Option Formula) : Edited Bool :=
  Edited.happened (d.withPremise r fun d => ((), d.assignFormula formula))

/-- Gives a step a conclusion. -/
def setConclusion (d : Derivation) (r : Ref) (formula : Option Formula) : Edited Bool :=
  Edited.happened (d.withStep r fun d => ((), d.assignFormula formula))

/-- Gives a step a rule. -/
def setRule (d : Derivation) (r : Ref) (rule : Value) : Edited Bool :=
  Edited.happened (d.withStep r fun d => ((), d.assignRule rule))

/-- Cites `dep` from a step if it is not cited, and ceases to cite it if it is. The result says
    whether it is cited now. -/
def toggleDependency (d : Derivation) (r dep : Ref) : Edited (Option Bool) :=
  d.withStep r fun d =>
    ((d.step? r).all fun content => !content.cites dep,
      d.modifyHeldStep fun content => content.toggle dep)

end Derivation

end Deduction
