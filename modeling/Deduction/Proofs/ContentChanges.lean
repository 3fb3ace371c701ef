import Deduction.Proofs.Reachable

set_option autoImplicit false

/-! # Changes of contents

A change of contents leaves every part in its place, so that all that goes by places only, such as the
order of the document and visibility, is the same before and after it.

Two derivations differ in the content of one line only if they are the same once that line is blank.
This is so before and after an operation that is about the content of one line. While operations run
on a line that is held it is so at every step, as all others are not allowed then. -/

namespace Deduction

/-! ## Contents of lines -/

/-- The premise with another formula, which may depend on its number. -/
def Premise.mapFormula (onFormula : Int → Option Formula → Option Formula) (p : Premise) :
    Premise :=
  { p with formula := onFormula p.id p.formula }

namespace Lines

/-- Changes formulas of premises and contents of steps, depending on their numbers. -/
def mapContents (onFormula : Int → Option Formula → Option Formula) (onStep : Int → Step → Step) :
    Lines → Lines
  | .nil => .nil
  | .step id content rest => .step id (onStep id content) (rest.mapContents onFormula onStep)
  | .subproof id premises body rest =>
    .subproof id (premises.map (Premise.mapFormula onFormula)) (body.mapContents onFormula onStep)
      (rest.mapContents onFormula onStep)

end Lines

/-- Changes the contents of premises and lines. -/
def Scope.mapContents (onFormula : Int → Option Formula → Option Formula)
    (onStep : Int → Step → Step) (s : Scope) : Scope :=
  ⟨s.premises.map (Premise.mapFormula onFormula), s.lines.mapContents onFormula onStep⟩

section

variable (onFormula onFormula' : Int → Option Formula → Option Formula)
  (onStep onStep' : Int → Step → Step)

@[simp] theorem Premise.ref_mapFormula (p : Premise) : (p.mapFormula onFormula).ref = p.ref := rfl

theorem Premise.mapFormula_same : Premise.mapFormula (fun _ f => f) = fun p => p := rfl

theorem Premise.map_ref_mapFormula (premises : List Premise) :
    (premises.map (Premise.mapFormula onFormula)).map Premise.ref = premises.map Premise.ref := by
  simp

theorem find?_mapFormula (id : Int) (premises : List Premise) :
    (premises.map (Premise.mapFormula onFormula)).find? (·.id == id) =
      (premises.find? (·.id == id)).map (Premise.mapFormula onFormula) := by
  rw [List.find?_map]
  rfl

theorem premisesVisibleFrom?_mapFormula (r : Ref) (seen : List Ref) (premises : List Premise) :
    premisesVisibleFrom? r seen (premises.map (Premise.mapFormula onFormula)) =
      premisesVisibleFrom? r seen premises := by
  induction premises generalizing seen with
  | nil => rfl
  | cons p ps ih =>
      rw [List.map_cons, premisesVisibleFrom?, premisesVisibleFrom?, ih, Premise.ref_mapFormula]

namespace Lines

theorem walk_mapContents (depth : Nat) (L : Lines) :
    (L.mapContents onFormula onStep).walk depth = L.walk depth := by
  induction L generalizing depth with
  | nil => rfl
  | step id content rest ih => rw [mapContents, walk, walk, ih]
  | subproof id premises body rest ihbody ihrest =>
      rw [mapContents, walk, walk, ihbody, ihrest, List.map_map]
      rfl

theorem visibleFrom?_mapContents (r : Ref) (seen : List Ref) (L : Lines) :
    (L.mapContents onFormula onStep).visibleFrom? r seen = L.visibleFrom? r seen := by
  induction L generalizing seen with
  | nil => rfl
  | step id content rest ih => rw [mapContents, visibleFrom?, visibleFrom?, ih]
  | subproof id premises body rest ihbody ihrest =>
      rw [mapContents, visibleFrom?, visibleFrom?, premisesVisibleFrom?_mapFormula,
        Premise.map_ref_mapFormula, ihbody, ihrest]

theorem findStep?_mapContents (id : Int) (L : Lines) :
    (L.mapContents onFormula onStep).findStep? id = (L.findStep? id).map (onStep id) := by
  induction L with
  | nil => rfl
  | step i content rest ih =>
      rw [mapContents, findStep?, findStep?, ih]
      split
      · next hi => rw [hi, Option.map_some]
      · rfl
  | subproof i premises body rest ihbody ihrest =>
      rw [mapContents, findStep?, findStep?, ihbody, ihrest]
      cases body.findStep? id <;> rfl

theorem findPremise?_mapContents (id : Int) (L : Lines) :
    (L.mapContents onFormula onStep).findPremise? id =
      (L.findPremise? id).map (Premise.mapFormula onFormula) := by
  induction L with
  | nil => rfl
  | step i content rest ih => exact ih
  | subproof i premises body rest ihbody ihrest =>
      rw [mapContents, findPremise?, findPremise?, find?_mapFormula, ihbody, ihrest]
      cases premises.find? (·.id == id) <;> cases body.findPremise? id <;> rfl

theorem mapContents_mapContents (L : Lines) :
    (L.mapContents onFormula onStep).mapContents onFormula' onStep' =
      L.mapContents (fun id f => onFormula' id (onFormula id f))
        (fun id content => onStep' id (onStep id content)) := by
  induction L with
  | nil => rfl
  | step id content rest ih => rw [mapContents, mapContents, mapContents, ih]
  | subproof id premises body rest ihbody ihrest =>
      rw [mapContents, mapContents, mapContents, ihbody, ihrest, List.map_map]
      rfl

theorem modifyStep_eq_mapContents (id : Int) (change : Step → Step) (L : Lines) :
    L.modifyStep id change =
      L.mapContents (fun _ f => f) fun i content => if i = id then change content else content := by
  induction L with
  | nil => rfl
  | step i content rest ih => rw [modifyStep, mapContents, ih]
  | subproof i premises body rest ihbody ihrest =>
      rw [modifyStep, mapContents, ihbody, ihrest, Premise.mapFormula_same, List.map_id']

theorem mapPremises_mapFormula (L : Lines) :
    L.mapPremises (fun premises => premises.map (Premise.mapFormula onFormula)) =
      L.mapContents onFormula fun _ content => content := by
  induction L with
  | nil => rfl
  | step i content rest ih => rw [mapPremises, mapContents, ih]
  | subproof i premises body rest ihbody ihrest => rw [mapPremises, mapContents, ihbody, ihrest]

end Lines

theorem Scope.walk_mapContents (depth : Nat) (s : Scope) :
    (s.mapContents onFormula onStep).walk depth = s.walk depth := by
  simp only [Scope.walk, mapContents, Lines.walk_mapContents, List.map_map]
  rfl

end

/-- Does an operation assign to the line that is held? -/
def Operation.assigns : Operation → Bool
  | .assignFormula _ | .assignStep _ => true
  | .addPremise .. | .addPremiseBeside .. | .prependStep .. | .addStep .. | .addStepBeside ..
  | .addSubproof .. | .addSubproofBeside .. | .removeLine .. | .removeSubproof .. | .setPremise ..
  | .setConclusion .. | .setRule .. | .toggleDependency .. | .withPremise .. | .withStep .. => false

/-! ## Contents of a derivation -/

namespace Derivation

/-- Changes formulas of premises and contents of steps, depending on their numbers. -/
def mapContents (onFormula : Int → Option Formula → Option Formula) (onStep : Int → Step → Step)
    (d : Derivation) : Derivation :=
  { d with root := d.root.mapContents onFormula onStep }

section

variable (onFormula onFormula' : Int → Option Formula → Option Formula)
  (onStep onStep' : Int → Step → Step) (d : Derivation)

@[simp] theorem walk_mapContents : (d.mapContents onFormula onStep).walk = d.walk :=
  d.root.walk_mapContents onFormula onStep 0

@[simp] theorem refs_mapContents : (d.mapContents onFormula onStep).refs = d.refs :=
  congrArg (List.map Prod.snd) (d.walk_mapContents onFormula onStep)

@[simp] theorem visibleFrom_mapContents :
    (d.mapContents onFormula onStep).visibleFrom = d.visibleFrom := by
  funext r
  simp only [visibleFrom, mapContents, Scope.mapContents, Scope.premiseRefs,
    premisesVisibleFrom?_mapFormula, Lines.visibleFrom?_mapContents, Premise.map_ref_mapFormula]

@[simp] theorem canCite_mapContents : (d.mapContents onFormula onStep).canCite = d.canCite := by
  funext line dep
  simp only [canCite, contains, refs_mapContents, visibleFrom_mapContents]

theorem step?_mapContents (id : Int) :
    (d.mapContents onFormula onStep).step? (.step id) = (d.step? (.step id)).map (onStep id) :=
  d.root.lines.findStep?_mapContents onFormula onStep id

theorem premise?_mapContents (r : Ref) :
    (d.mapContents onFormula onStep).premise? r =
      (d.premise? r).map (Premise.mapFormula onFormula) := by
  cases r with
  | premise id =>
      simp only [premise?, mapContents, Scope.mapContents, find?_mapFormula,
        Lines.findPremise?_mapContents]
      cases d.root.premises.find? (·.id == id) <;> rfl
  | step id => rfl
  | subproof id => rfl

theorem mapContents_mapContents :
    (d.mapContents onFormula onStep).mapContents onFormula' onStep' =
      d.mapContents (fun id f => onFormula' id (onFormula id f))
        (fun id content => onStep' id (onStep id content)) := by
  simp only [mapContents, Scope.mapContents, Lines.mapContents_mapContents, List.map_map]
  rfl

end

/-! ## One line apart -/

/-- The derivation with one line blank. -/
def blanked (d : Derivation) (r : Ref) : Derivation :=
  d.mapContents (fun id formula => if r = .premise id then none else formula)
    (fun id content => if r = .step id then .blank else content)

variable {d : Derivation} {r x : Ref}

theorem step?_blanked (hx : x ≠ r) : (d.blanked r).step? x = d.step? x := by
  cases x with
  | step id =>
      rw [blanked, step?_mapContents]
      simp [hx.symm]
  | premise id => rfl
  | subproof id => rfl

theorem formulaOf_blanked (hx : x ≠ r) : (d.blanked r).formulaOf x = d.formulaOf x := by
  cases x with
  | premise id =>
      rw [formulaOf, formulaOf, blanked, premise?_mapContents]
      cases hp : d.premise? (.premise id) with
      | none => rfl
      | some p =>
          have hid : p.ref = .premise id := (mem_of_premise? hp).2
          show (if r = p.ref then none else p.formula) = p.formula
          rw [hid, if_neg hx.symm]
  | step id => rw [formulaOf, formulaOf, step?_blanked hx]
  | subproof id => rfl

/-- A change of one line is not seen once that line is blank. -/
theorem blanked_mapContents {onFormula : Int → Option Formula → Option Formula}
    {onStep : Int → Step → Step} (hformula : ∀ id f, r ≠ .premise id → onFormula id f = f)
    (hstep : ∀ id content, r ≠ .step id → onStep id content = content) :
    (d.mapContents onFormula onStep).blanked r = d.blanked r := by
  rw [blanked, mapContents_mapContents, blanked]
  congr 1
  · funext id f
    split
    · rfl
    · next hr => exact hformula id f hr
  · funext id content
    split
    · rfl
    · next hr => exact hstep id content hr

/-! ## Assignments to the held line -/

theorem modifyStep_eq_mapContents (d : Derivation) (id : Int) (change : Step → Step) :
    d.modifyStep id change =
      d.mapContents (fun _ f => f) fun i content => if i = id then change content else content := by
  simp only [modifyStep, mapContents, Scope.mapContents, Lines.modifyStep_eq_mapContents,
    Premise.mapFormula_same, List.map_id']

theorem setFormula_eq_mapContents (d : Derivation) (id : Int) (formula : Option Formula) :
    d.setFormula id formula =
      d.mapContents (fun i f => if i = id then formula else f) fun _ content => content := by
  have hpremise : (fun p : Premise => if p.id = id then { p with formula } else p) =
      Premise.mapFormula fun i f => if i = id then formula else f := by
    funext p
    by_cases hp : p.id = id <;> simp [Premise.mapFormula, hp]
  simp only [setFormula, hpremise, mapContents, Scope.mapContents, Lines.mapPremises_mapFormula]

theorem blanked_modifyStep (d : Derivation) (id : Int) (change : Step → Step) :
    (d.modifyStep id change).blanked (.step id) = d.blanked (.step id) := by
  rw [modifyStep_eq_mapContents]
  refine blanked_mapContents (fun _ _ _ => rfl) fun i content hi => if_neg ?_
  rintro rfl
  exact hi rfl

theorem blanked_setFormula (d : Derivation) (id : Int) (formula : Option Formula) :
    (d.setFormula id formula).blanked (.premise id) = d.blanked (.premise id) := by
  rw [setFormula_eq_mapContents]
  refine blanked_mapContents (fun i f hi => if_neg ?_) fun _ _ _ => rfl
  rintro rfl
  exact hi rfl

theorem blanked_assignFormula (h : d.held = some r) (formula : Option Formula) :
    (d.assignFormula formula).blanked r = d.blanked r := by
  unfold assignFormula
  rw [h]
  cases r with
  | premise id => exact blanked_setFormula d id formula
  | step id => exact blanked_modifyStep d id _
  | subproof id => rfl

theorem blanked_modifyHeldStep (h : d.held = some r) (change : Step → Step) :
    (d.modifyHeldStep change).blanked r = d.blanked r := by
  unfold modifyHeldStep
  rw [h]
  cases r with
  | step id => exact blanked_modifyStep d id change
  | premise id => rfl
  | subproof id => rfl

/-! ## Operations on a held line -/

theorem after_structural_of_held {α : Type} (h : d.held = some r) (refused : α)
    (change : Option (α × Derivation)) : (d.structural refused change).after d = d := by
  simp [structural, h, Edited.after]

theorem after_withPremise_of_held {α : Type} (h : d.held = some r) (p : Ref)
    (body : Derivation → α × Derivation) : (d.withPremise p body).after d = d := by
  unfold withPremise
  split
  · simp [hold, h, Edited.after]
  · rfl

theorem after_withStep_of_held {α : Type} (h : d.held = some r) (s : Ref)
    (body : Derivation → α × Derivation) : (d.withStep s body).after d = d := by
  unfold withStep
  split
  · simp [hold, h, Edited.after]
  · rfl

/-- While a line is held, an operation that is no assignment to it changes nothing. -/
theorem perform_of_held (h : d.held = some r) {op : Operation} (hop : op.assigns = false) :
    d.perform op = d := by
  cases op with
  | assignFormula formula => cases hop
  | assignStep content => cases hop
  | setPremise p formula => rw [perform, setPremise, after_happened, after_withPremise_of_held h]
  | setConclusion s formula => rw [perform, setConclusion, after_happened, after_withStep_of_held h]
  | setRule s rule => rw [perform, setRule, after_happened, after_withStep_of_held h]
  | toggleDependency s dep => exact after_withStep_of_held h _ _
  | withPremise p body => exact after_withPremise_of_held h _ _
  | withStep s body => exact after_withStep_of_held h _ _
  | _ =>
      -- insertions and removals are not allowed
      exact after_structural_of_held h _ _

/-- While a line is held, an operation changes nothing but its content. -/
theorem blanked_perform_of_held (h : d.held = some r) (op : Operation) :
    (d.perform op).blanked r = d.blanked r := by
  cases hop : op.assigns with
  | false => rw [perform_of_held h hop]
  | true =>
      cases op with
      | assignFormula formula => exact blanked_assignFormula h formula
      | assignStep content => exact blanked_modifyHeldStep h _
      | _ => cases hop

theorem blanked_performAll_of_held (h : d.held = some r) (ops : List Operation) :
    (d.performAll ops).blanked r = d.blanked r := by
  induction ops generalizing d with
  | nil => rfl
  | cons op ops ih =>
      have hstep := blanked_perform_of_held h op
      have hheld : (d.perform op).held = some r := (congrArg held hstep).trans h
      rw [performAll, ih hheld, hstep]

/-- Blanking a line and releasing it do not depend on each other. -/
theorem blanked_release {d₁ : Derivation} (hfree : d.held = none)
    (h : d₁.blanked r = { d with held := some r }.blanked r) :
    { d₁ with held := none }.blanked r = d.blanked r := by
  calc { d₁ with held := none }.blanked r
      = { d₁.blanked r with held := none } := rfl
    _ = { { d with held := some r }.blanked r with held := none } := by rw [h]
    _ = d.blanked r := by rw [← hfree]; rfl

theorem blanked_after_hold {α : Type} {body : Derivation → α × Derivation}
    (hbody : ∀ d₁ : Derivation, d₁.held = some r → (body d₁).2.blanked r = d₁.blanked r) :
    ((d.hold r body).after d).blanked r = d.blanked r := by
  unfold hold
  split
  · rfl
  · next hfree => exact blanked_release (by simpa using hfree) (hbody _ rfl)

theorem blanked_after_withPremise {α : Type} {body : Derivation → α × Derivation}
    (hbody : ∀ d₁ : Derivation, d₁.held = some r → (body d₁).2.blanked r = d₁.blanked r) :
    ((d.withPremise r body).after d).blanked r = d.blanked r := by
  unfold withPremise
  split
  · exact blanked_after_hold hbody
  · rfl

theorem blanked_after_withStep {α : Type} {body : Derivation → α × Derivation}
    (hbody : ∀ d₁ : Derivation, d₁.held = some r → (body d₁).2.blanked r = d₁.blanked r) :
    ((d.withStep r body).after d).blanked r = d.blanked r := by
  unfold withStep
  split
  · exact blanked_after_hold hbody
  · rfl

/-- The line that an operation gives a content to; none for insertions and removals. -/
def edited? (d : Derivation) : Operation → Option Ref
  | .setPremise r _ | .setConclusion r _ | .setRule r _ | .toggleDependency r _
  | .withPremise r _ | .withStep r _ => some r
  | .assignFormula _ | .assignStep _ => d.held
  | .addPremise .. | .addPremiseBeside .. | .prependStep .. | .addStep .. | .addStepBeside ..
  | .addSubproof .. | .addSubproofBeside .. | .removeLine .. | .removeSubproof .. => none

/-- An operation on the content of one line leaves all else as it is. -/
theorem blanked_perform {op : Operation} (h : d.edited? op = some r) :
    (d.perform op).blanked r = d.blanked r := by
  cases op with
  | setPremise p formula =>
      obtain rfl := Option.some.inj h
      rw [perform, setPremise, after_happened]
      exact blanked_after_withPremise fun d₁ hheld => blanked_assignFormula hheld formula
  | setConclusion s formula =>
      obtain rfl := Option.some.inj h
      rw [perform, setConclusion, after_happened]
      exact blanked_after_withStep fun d₁ hheld => blanked_assignFormula hheld formula
  | setRule s rule =>
      obtain rfl := Option.some.inj h
      rw [perform, setRule, after_happened]
      exact blanked_after_withStep fun d₁ hheld => blanked_modifyHeldStep hheld _
  | toggleDependency s dep =>
      obtain rfl := Option.some.inj h
      exact blanked_after_withStep fun d₁ hheld => blanked_modifyHeldStep hheld _
  | withPremise p body =>
      obtain rfl := Option.some.inj h
      exact blanked_after_withPremise fun d₁ hheld => blanked_performAll_of_held hheld body
  | withStep s body =>
      obtain rfl := Option.some.inj h
      exact blanked_after_withStep fun d₁ hheld => blanked_performAll_of_held hheld body
  | assignFormula formula => exact blanked_assignFormula h formula
  | assignStep content => exact blanked_modifyHeldStep h _
  | _ => exact absurd h (by simp [edited?])

end Derivation

end Deduction
