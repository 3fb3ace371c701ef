import Deduction.Derivation.Hold
import Deduction.Derivation.Verdict
import Deduction.Proofs.Reachable
import Deduction.Proofs.RuleSoundness
import Deduction.Proofs.Visibility
import Mathlib

set_option autoImplicit false

/-! # Verified steps follow from what they see

A step that is verified, together with the steps that it relies on, holds wherever the premises hold
that are visible from it. The argument goes along the document: what a step cites stands before it and
sees no more than the step does, and the rule leads from true formulas to a true one. -/

namespace Deduction

/-! ## What a verdict says -/

theorem Catalog.mem_rules_of_cited? {catalog : Catalog} {v : Value} {rule : Rule}
    (h : catalog.cited? v = .ok (some rule)) : rule ∈ catalog.rules := by
  unfold Catalog.cited? at h
  split at h
  · exact List.mem_of_find?_eq_some (Except.ok.inj h)
  · split at h
    · exact absurd h (by simp)
    · exact absurd h (by simp)

theorem mem_of_mapM_eq_some {α β : Type} {fn : α → Option β} {xs : List α} {ys : List β}
    (h : xs.mapM fn = some ys) {y : β} (hy : y ∈ ys) : ∃ x ∈ xs, fn x = some y := by
  induction xs generalizing ys with
  | nil =>
      obtain rfl : ([] : List β) = ys := by simpa using h
      exact absurd hy (by simp)
  | cons x xs ih =>
      rw [List.mapM_cons] at h
      obtain ⟨y', hy', h⟩ := Option.bind_eq_some_iff.1 h
      obtain ⟨ys', hys', h⟩ := Option.bind_eq_some_iff.1 h
      obtain rfl := Option.some.inj h
      rcases List.mem_cons.1 hy with rfl | hy
      · exact ⟨x, List.mem_cons_self .., hy'⟩
      · obtain ⟨x', hx', hfn⟩ := ih hys' hy
        exact ⟨x', List.mem_cons_of_mem _ hx', hfn⟩

theorem Step.mem_of_cites {s : Step} {dep : Ref} (h : s.cites dep = true) :
    dep ∈ s.lineDeps ++ s.subproofDeps := by
  unfold Step.cites at h
  split at h
  · exact List.mem_append.2 (Or.inr (List.contains_iff_mem.1 h))
  · exact List.mem_append.2 (Or.inl (List.contains_iff_mem.1 h))

namespace Derivation

variable {d : Derivation}

/-- Does a step rely on a part directly? -/
def Cites (d : Derivation) (r dep : Ref) : Prop :=
  ∃ content, d.step? r = some content ∧ content.cites dep = true

/-- There is no bad dependency if all that a step cites is of the right kind and may be cited. -/
theorem badDependency?_eq_none_iff {r : Ref} {content : Step} :
    d.badDependency? r content = none ↔
      (∀ dep ∈ content.lineDeps, dep.isLine = true ∧ d.canCite r dep = true) ∧
        ∀ dep ∈ content.subproofDeps, dep.isSubproof = true ∧ d.canCite r dep = true := by
  have hgood (ofKind : Ref → Bool) (deps : List Ref) :
      (Ref.sorted deps).find? (fun dep => !ofKind dep || !d.canCite r dep) = none ↔
        ∀ dep ∈ deps, ofKind dep = true ∧ d.canCite r dep = true := by
    simp only [List.find?_eq_none, Ref.mem_sorted, Bool.or_eq_true, Bool.not_eq_true', not_or,
      Bool.not_eq_false]
  rw [← hgood, ← hgood]
  unfold badDependency?
  dsimp only
  split
  · next hfound => simp [hfound]
  · next hnone => simp [hnone]

/-- The rule of a verified step leads from the formulas of lines that it may cite to its
    conclusion. -/
theorem verifyStep_eq_none {r : Ref} {content : Step} {conclusion : Formula} {rule : Rule}
    (h : d.verifyStep r content conclusion rule = .ok none) :
    ∃ premises, d.citedFormulas? content = some premises ∧
      rule.applies conclusion premises = .ok true ∧
      ∀ dep ∈ content.lineDeps, dep.isLine = true ∧ dep ∈ d.visibleFrom r := by
  unfold verifyStep at h
  split at h
  · exact absurd (pure_eq_ok.1 h) (by simp)
  · next hnone =>
      split at h
      · exact absurd (pure_eq_ok.1 h) (by simp)
      · split at h
        · exact absurd (pure_eq_ok.1 h) (by simp)
        · split at h
          · exact absurd (pure_eq_ok.1 h) (by simp)
          · next premises hpremises =>
              obtain ⟨applies, happlies, h⟩ := bind_eq_ok.1 h
              cases applies with
              | false => exact absurd (pure_eq_ok.1 h) (by simp)
              | true =>
                  refine ⟨premises, hpremises, mapError_eq_ok.1 happlies, fun dep hdep => ?_⟩
                  obtain ⟨hline, hcite⟩ := (badDependency?_eq_none_iff.1 hnone).1 dep hdep
                  simp only [canCite, Bool.and_eq_true, List.contains_iff_mem] at hcite
                  exact ⟨hline, hcite.2⟩

theorem verifyLine_step_eq_none {catalog : Catalog} {id : Int}
    (h : d.verifyLine catalog (some (.step id)) = .ok none) :
    ∃ content conclusion rule, d.step? (.step id) = some content ∧
      content.conclusion = some conclusion ∧ rule ∈ catalog.rules ∧
      d.verifyStep (.step id) content conclusion rule = .ok none := by
  unfold verifyLine at h
  dsimp only at h
  split at h
  · exact absurd h (by simp)
  · next content hcontent =>
      split at h
      · exact absurd h (by simp)
      · next conclusion hconclusion =>
          split at h
          · exact absurd h (by simp)
          · obtain ⟨found, hfound, h⟩ := bind_eq_ok.1 h
            cases found with
            | none => exact absurd (pure_eq_ok.1 h) (by simp)
            | some rule =>
                exact ⟨content, conclusion, rule, hcontent, hconclusion,
                  Catalog.mem_rules_of_cited? hfound, h⟩

/-! ## Soundness -/

/-- A step that is verified with sound rules, and so are the steps that it relies on, holds under
    every interpretation of the premises that are visible from it. -/
theorem holds_of_verified {catalog : Catalog} (hsound : ∀ rule ∈ catalog.rules, rule.Sound)
    (hd : d.WellFormed) (hholes : ∀ r f, d.formulaOf r = some f → f.hasHoles = false)
    (I : Interpretation) {j : Int}
    (hverified : ∀ k, Relation.ReflTransGen d.Cites (.step j) (.step k) →
      d.verifyLine catalog (some (.step k)) = .ok none)
    (hpremises : ∀ p f, .premise p ∈ d.visibleFrom (.step j) → d.formulaOf (.premise p) = some f →
      f.Holds I) : ∃ f, d.formulaOf (.step j) = some f ∧ f.Holds I := by
  -- along the document: what is cited comes before
  induction hn : d.refs.idxOf (.step j) using Nat.strongRecOn generalizing j with
  | ind n ih =>
      obtain ⟨content, conclusion, rule, hcontent, hconclusion, hrule, hstep⟩ :=
        verifyLine_step_eq_none (hverified j .refl)
      obtain ⟨premises, hcited, happlies, hvisible⟩ := verifyStep_eq_none hstep
      have hformula : d.formulaOf (.step j) = some conclusion := by
        simp [formulaOf, hcontent, hconclusion]
      have hcitedHolds : ∀ f ∈ premises, f.Holds I := by
        intro f hf
        obtain ⟨dep, hdep, hdepFormula⟩ := mem_of_mapM_eq_some hcited hf
        have hmem := Ref.mem_sorted.1 hdep
        obtain ⟨hline, hdepVisible⟩ := hvisible dep hmem
        cases dep with
        | premise p => exact hpremises p f hdepVisible hdepFormula
        | step k =>
            have hcites : d.Cites (.step j) (.step k) :=
              ⟨content, hcontent, by simpa [Step.cites, Ref.isSubproof] using hmem⟩
            have hearlier := idxOf_lt_of_visible hd hdepVisible
            rw [hn] at hearlier
            obtain ⟨f', hf', hholds⟩ := ih _ hearlier
              (fun i hi => hverified i (Relation.ReflTransGen.head hcites hi))
              (fun p g hp => hpremises p g (visibleFrom_subset hd hdepVisible hp)) rfl
            obtain rfl : f' = f := Option.some.inj (hf'.symm.trans hdepFormula)
            exact hholds
        | subproof s => exact absurd hline (by simp [Ref.isLine])
      have hcitedHoles : ∀ f ∈ premises, f.hasHoles = false := by
        intro f hf
        obtain ⟨dep, -, hdepFormula⟩ := mem_of_mapM_eq_some hcited hf
        exact hholes dep f hdepFormula
      refine ⟨conclusion, hformula, ?_⟩
      exact (Rule.holds_iff_of_applies (hsound rule hrule) hcitedHoles (hholes _ _ hformula)
        happlies I).1 hcitedHolds

/-- No formula has holes or quantifiers, and each name has one number of arguments throughout. -/
structure Propositional (d : Derivation) (arity : String → Nat) : Prop where
  no_holes : ∀ r f, d.formulaOf r = some f → f.hasHoles = false
  no_quantifiers : ∀ r f, d.formulaOf r = some f → f.hasQuantifiers = false
  arities : ∀ r f name count, d.formulaOf r = some f → f.Uses name count → count = arity name

/-- The environment has a table of the right size for each name in use. -/
def Tabulated (d : Derivation) (arity : String → Nat) (env : Environment) : Prop :=
  ∀ r f name, d.formulaOf r = some f → f.Uses name (arity name) →
    ∃ table, env.get? name = some table ∧ table.length = rowCount (arity name)

theorem evaluate_of_formulaOf {arity : String → Nat} (hd : d.Propositional arity)
    {env : Environment} (henv : d.Tabulated arity env) {r : Ref} {f : Formula}
    (hf : d.formulaOf r = some f) : f.evaluate env = .ok (f.truth env.interpretation []) := by
  refine Formula.evaluate_of_tables (hd.no_quantifiers r f hf) (hd.no_holes r f hf) ?_
  intro name count huses
  obtain rfl := hd.arities r f name count hf huses
  obtain ⟨table, htable, hlength⟩ := henv r f name hf huses
  exact ⟨table, htable, Nat.le_of_eq hlength.symm⟩

/-- Every catalog that passes the truth-table check, and the built-in one does, verifies only steps
    that follow: whatever operations led to a derivation, if a step and all steps that it relies on
    are verified, then its conclusion is true in every environment in which the premises are that are
    visible from it. -/
theorem evaluate_of_verified :
    Catalog.build { checkTruthTables := true } = .ok Catalog.builtin ∧
      ∀ (definition : Catalog.Definition) (catalog : Catalog) (d : Derivation)
        (arity : String → Nat) (env : Environment) (j : Int),
        definition.checkTruthTables = true → Catalog.build definition = .ok catalog →
        Reachable d → d.Propositional arity → d.Tabulated arity env →
        (∀ k, Relation.ReflTransGen d.Cites (.step j) (.step k) →
          d.verifyLine catalog (some (.step k)) = .ok none) →
        (∀ p f, .premise p ∈ d.visibleFrom (.step j) → d.formulaOf (.premise p) = some f →
          f.evaluate env = .ok true) →
        ∃ f, d.formulaOf (.step j) = some f ∧ f.evaluate env = .ok true := by
  refine ⟨Catalog.build_builtin, ?_⟩
  intro definition catalog d arity env j hcheck hbuild hreachable hd henv hverified hpremises
  have hholds : ∀ p f, .premise p ∈ d.visibleFrom (.step j) → d.formulaOf (.premise p) = some f →
      f.Holds env.interpretation := by
    intro p f hp hf
    have hvalue := hpremises p f hp hf
    rw [evaluate_of_formulaOf hd henv hf] at hvalue
    exact Except.ok.inj hvalue
  obtain ⟨f, hf, htrue⟩ :=
    holds_of_verified (fun rule hrule => Catalog.sound_of_build hcheck hbuild hrule)
      hreachable.wellFormed hd.no_holes env.interpretation hverified hholds
  refine ⟨f, hf, ?_⟩
  rw [evaluate_of_formulaOf hd henv hf, htrue]

/-- A step in a subproof, from a premise of the outermost scope and a step that relies on the
    assumption of the subproof. -/
theorem evaluate_of_verified_distribution :
    let p := Formula.var "P"
    let q := Formula.var "Q"
    let r := Formula.var "R"
    let d := (Derivation.ofPremise (some (.or q r))).performAll [
      .addSubproof none true,
      .addPremise (some (.neg (.neg p))) (some (.subproof 2)),
      .addStep ⟨some p, .text "DOUBLE_NEGATION", [.premise 3], []⟩ (some (.subproof 2)),
      .addStep ⟨some (.or (.and p q) (.and p r)), .text "DISTRIBUTION", [.premise 1, .step 4], []⟩
        (some (.subproof 2))]
    let env : Environment := [("P", [true]), ("Q", [false]), ("R", [true])]
    d.verifyLine Catalog.builtin (some (.step 5)) = .ok none ∧
      ∃ f, d.formulaOf (.step 5) = some f ∧ f.evaluate env = .ok true := by
  intro p q r d env
  have hfirst : d.verifyLine Catalog.builtin (some (.step 4)) = .ok none := by cbv
  have hsecond : d.verifyLine Catalog.builtin (some (.step 5)) = .ok none := by cbv
  have hcited : ∀ x, Relation.ReflTransGen d.Cites (.step 5) x →
      x ∈ [Ref.step 5, .step 4, .premise 1, .premise 3] := by
    intro x hx
    induction hx with
    | refl => exact List.mem_cons_self ..
    | tail _ hcites ih =>
        obtain ⟨content, hcontent, hdep⟩ := hcites
        have hclosed : ∀ y ∈ [Ref.step 5, .step 4, .premise 1, .premise 3],
            ∀ content ∈ (d.step? y).toList, ∀ x ∈ content.lineDeps ++ content.subproofDeps,
              x ∈ [Ref.step 5, .step 4, .premise 1, .premise 3] := by decide
        exact hclosed _ ih content (by simp [hcontent]) _ (Step.mem_of_cites hdep)
  have hplain : ∀ x f, d.formulaOf x = some f → f.hasHoles = false ∧ f.hasQuantifiers = false ∧
      (∀ g ∈ f.subformulas, g.argumentCount = 0) ∧ ∀ name ∈ f.freeNames, name ∈ ["P", "Q", "R"] := by
    intro x f hf
    have hall : ∀ x ∈ d.refs, ∀ f ∈ (d.formulaOf x).toList, f.hasHoles = false ∧
        f.hasQuantifiers = false ∧ (∀ g ∈ f.subformulas, g.argumentCount = 0) ∧
        ∀ name ∈ f.freeNames, name ∈ ["P", "Q", "R"] := by decide
    exact hall x (mem_refs_of_formulaOf hf) f (by simp [hf])
  refine ⟨hsecond, evaluate_of_verified.2 { checkTruthTables := true } Catalog.builtin d (fun _ => 0)
    env 5 rfl Catalog.build_builtin ((Reachable.ofPremise _).performAll _) ⟨?_, ?_, ?_⟩ ?_ ?_ ?_⟩
  · exact fun x f hf => (hplain x f hf).1
  · exact fun x f hf => (hplain x f hf).2.1
  · rintro x f name count hf ⟨args, hmem, rfl⟩
    exact (hplain x f hf).2.2.1 _ hmem
  · intro x f name hf huses
    obtain ⟨-, hquant, -, hnames⟩ := hplain x f hf
    have htables : ∀ name ∈ ["P", "Q", "R"], ∃ table, env.get? name = some table ∧
        table.length = rowCount 0 := by
      simp [env, Assoc.get?, rowCount]
    exact htables name (hnames name (Formula.mem_freeNames_of_uses hquant huses))
  · intro k hk
    have hmem := hcited _ hk
    simp only [List.mem_cons, Ref.step.injEq, reduceCtorEq, List.not_mem_nil, or_false] at hmem
    rcases hmem with rfl | rfl
    · exact hsecond
    · exact hfirst
  · intro k f hk hf
    have hall : ∀ x ∈ d.visibleFrom (.step 5), ∀ g ∈ (d.formulaOf x).toList,
        g.evaluate env = .ok true := by decide
    exact hall _ hk f (by simp [hf])

end Derivation

end Deduction
