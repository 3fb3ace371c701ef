import Deduction.Proofs.ContentChanges
import Deduction.Proofs.ReloadedVerdicts
import Deduction.Proofs.Survivors

set_option autoImplicit false

/-! # Verdicts are local

The check of a step reads the step itself, which of the parts that it cites may be cited from it, and
the formulas of the lines that it cites; for the texts of its messages it also reads the numbers of
lines. So it finds the same after a change of a line that the step does not cite, and an error of the
same kind, or none, after an insertion or removal that does not touch what the step cites. -/

namespace Deduction

theorem Step.cites_of_mem_lineDeps {s : Step} {dep : Ref} (h : dep ∈ s.lineDeps)
    (hkind : dep.isLine = true) : s.cites dep = true := by
  have hnot : dep.isSubproof = false := by
    cases dep with
    | premise id => rfl
    | step id => rfl
    | subproof id => exact absurd hkind (by simp [Ref.isLine])
  simp [Step.cites, hnot, h]

theorem Step.cites_of_mem_subproofDeps {s : Step} {dep : Ref} (h : dep ∈ s.subproofDeps)
    (hkind : dep.isSubproof = true) : s.cites dep = true := by
  simp [Step.cites, hkind, h]

namespace Derivation

variable {d d' : Derivation} {r : Ref} {j : Int}

/-! ## What the check of a step reads -/

/-- Two derivations are the same as far as the check of a step reads them, the numbers of lines
    apart. -/
structure SameReading (r : Ref) (d d' : Derivation) : Prop where
  step : d'.step? r = d.step? r
  canCite : ∀ dep, d.Cites r dep → d'.canCite r dep = d.canCite r dep
  formulaOf : ∀ dep, d.Cites r dep → d'.formulaOf dep = d.formulaOf dep

namespace SameReading

variable (h : SameReading r d d') {content : Step} (hcontent : d.step? r = some content)

include h hcontent

theorem badDependency? : d'.badDependency? r content = d.badDependency? r content := by
  have hfind (ofKind : Ref → Bool) (deps : List Ref)
      (hcites : ∀ dep ∈ deps, ofKind dep = true → content.cites dep = true) :
      (Ref.sorted deps).find? (fun dep => !ofKind dep || !d'.canCite r dep) =
        (Ref.sorted deps).find? fun dep => !ofKind dep || !d.canCite r dep := by
    apply List.find?_congr
    intro dep hdep
    -- a reference of the wrong kind is bad wherever it leads
    cases hkind : ofKind dep with
    | false => rfl
    | true =>
        have hcited := hcites dep (Ref.mem_sorted.1 hdep) hkind
        rw [h.canCite dep ⟨content, hcontent, hcited⟩]
  unfold Derivation.badDependency?
  dsimp only
  rw [hfind Ref.isLine content.lineDeps fun _ => Step.cites_of_mem_lineDeps,
    hfind Ref.isSubproof content.subproofDeps fun _ => Step.cites_of_mem_subproofDeps]

theorem citedFormulas? : d'.citedFormulas? content = d.citedFormulas? content := by
  have hformula : ∀ dep ∈ Ref.sorted content.lineDeps, d'.formulaOf dep = d.formulaOf dep := by
    intro dep hdep
    cases hkind : dep.isLine with
    | true =>
        have hcited := Step.cites_of_mem_lineDeps (Ref.mem_sorted.1 hdep) hkind
        exact h.formulaOf dep ⟨content, hcontent, hcited⟩
    | false =>
        cases dep with
        | premise id => exact absurd hkind (by simp [Ref.isLine])
        | step id => exact absurd hkind (by simp [Ref.isLine])
        | subproof id => rfl
  have hmap := mapM_map_eq (g := id) hformula
  rwa [List.map_id] at hmap

end SameReading

/-- The error of a step that cites what it may not cite. -/
def badCitation (d : Derivation) (r dep : Ref) : VerificationError :=
  ⟨.badDependency, d.describe dep ++ " cannot be cited from " ++ d.describe r⟩

theorem SameReading.verifyStep (h : SameReading r d d') {content : Step}
    (hcontent : d.step? r = some content) (conclusion : Formula) (rule : Rule) :
    d'.verifyStep r content conclusion rule = d.verifyStep r content conclusion rule ∨
      ∃ dep, d.verifyStep r content conclusion rule = .ok (some (d.badCitation r dep)) ∧
        d'.verifyStep r content conclusion rule = .ok (some (d'.badCitation r dep)) := by
  simp only [Derivation.verifyStep, h.badDependency? hcontent, h.citedFormulas? hcontent]
  cases d.badDependency? r content with
  | none => exact .inl rfl
  | some dep => exact .inr ⟨dep, rfl, rfl⟩

/-- The check finds the same, apart from the way in which a bad citation is described. -/
theorem SameReading.verifyLine (h : SameReading (.step j) d d') (catalog : Catalog) :
    d'.verifyLine catalog (some (.step j)) = d.verifyLine catalog (some (.step j)) ∨
      ∃ dep, d.verifyLine catalog (some (.step j)) = .ok (some (d.badCitation (.step j) dep)) ∧
        d'.verifyLine catalog (some (.step j)) = .ok (some (d'.badCitation (.step j) dep)) := by
  simp only [Derivation.verifyLine, h.step]
  cases hcontent : d.step? (.step j) with
  | none => exact .inl rfl
  | some content =>
      dsimp only
      cases content.conclusion with
      | none => exact .inl rfl
      | some conclusion =>
          dsimp only
          split
          · exact .inl rfl
          · cases catalog.cited? content.rule with
            | error e => exact .inl rfl
            | ok found =>
                cases found with
                | none => exact .inl rfl
                | some rule => exact h.verifyStep hcontent conclusion rule

/-! ## Changes of one line -/

theorem SameReading.of_blanked (h : d'.blanked r = d.blanked r) (hr : r ≠ .step j)
    (hcites : ¬ d.Cites (.step j) r) : SameReading (.step j) d d' where
  step := by rw [← step?_blanked hr.symm, h, step?_blanked hr.symm]
  canCite dep _ := by
    have hsame : (d'.blanked r).canCite = (d.blanked r).canCite := by rw [h]
    simp only [blanked, canCite_mapContents] at hsame
    rw [hsame]
  formulaOf dep hdep := by
    have hne : dep ≠ r := by
      rintro rfl
      exact hcites hdep
    rw [← formulaOf_blanked hne, h, formulaOf_blanked hne]

theorem Agrees.formulaOf (h : d.Agrees d') (hr : r ∈ d.refs) (hr' : r ∈ d'.refs) :
    d'.formulaOf r = d.formulaOf r := by
  cases r with
  | premise id => rw [Derivation.formulaOf, Derivation.formulaOf, h.premise _ hr hr']
  | step id => rw [Derivation.formulaOf, Derivation.formulaOf, h.step _ hr hr']
  | subproof id => rfl

theorem Agrees.canCite (h : d.Agrees d') (hd : d.WellFormed) (hd' : d'.WellFormed) {dep : Ref}
    (hr : r ∈ d.refs) (hr' : r ∈ d'.refs) (hdep : dep ∈ d.refs) (hdep' : dep ∈ d'.refs) :
    d'.canCite r dep = d.canCite r dep := by
  rw [Bool.eq_iff_iff, canCite_iff_visible hd', canCite_iff_visible hd]
  exact h.mem_visibleFrom hd hd' hr hr' hdep hdep'

end Derivation

end Deduction
