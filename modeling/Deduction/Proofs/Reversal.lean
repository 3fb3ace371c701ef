import Deduction.Proofs.PlainRules
import Deduction.Proofs.SubstitutionRule

set_option autoImplicit false

/-! # Steps that can be taken back

The clauses of a rule may be read in both directions. So a step from one premise that a rule without
applied names licenses can be taken back by the same rule: the same substitution serves, with the
direction turned round.

The rule of substitution replaces every occurrence of one side of an equivalence. Where the other
side stood already, the two kinds of its occurrences cannot be told apart afterwards, and the step
back would replace both. Such a step overwrites its premise, and cannot be taken back. All other
steps of the built-in rules can. -/

namespace Deduction

namespace Rule

/-! ## Plain rules -/

theorem declares_singleton_iff {rule : Rule} {p conclusion : Formula} :
    rule.Declares conclusion [p] ↔ ∃ c ∈ rule.clauses, ∃ (direction : Direction)
      (σ : String → Formula), (c.source direction).substitute σ = p ∧
        (c.target direction).substitute σ = conclusion := by
  constructor
  · rintro ⟨-, c, hc, direction, parts, ordering, σ, hlength, hparts, hperm, hmap, htarget⟩
    obtain ⟨part, rfl⟩ := List.length_eq_one_iff.1 hlength
    obtain rfl := List.perm_singleton.1 hperm
    obtain rfl : part = c.source direction := hparts
    exact ⟨c, hc, direction, σ, List.singleton_inj.1 hmap, htarget⟩
  · rintro ⟨c, hc, direction, σ, rfl, htarget⟩
    exact ⟨by simp, c, hc, direction, [c.source direction], _, σ, rfl, rfl, List.Perm.refl _, rfl,
      htarget⟩

/-- A step from one premise is declared together with the step back. -/
theorem Declares.back {rule : Rule} {p conclusion : Formula}
    (h : rule.Declares conclusion [p]) : rule.Declares p [conclusion] := by
  obtain ⟨c, hc, direction, σ, hsource, htarget⟩ := declares_singleton_iff.1 h
  cases direction with
  | forward => exact declares_singleton_iff.2 ⟨c, hc, .backward, σ, htarget, hsource⟩
  | backward => exact declares_singleton_iff.2 ⟨c, hc, .forward, σ, htarget, hsource⟩

theorem Plain.licenses_back {rule : Rule} (hrule : rule.Plain) {p conclusion : Formula}
    (h : rule.Licenses conclusion [p]) : rule.Licenses p [conclusion] :=
  hrule.licenses_iff_declares.2 (hrule.licenses_iff_declares.1 h).back

end Rule

namespace Equivalences

/-! ## The rule of substitution -/

/-- Replacing `old` by `new` makes `g` of `f`, which is something else, and `new` occurs in `f`
    already, apart from what is replaced. -/
def Merges (old new f g : Formula) : Prop :=
  f.replace? old new [] = some g ∧ f ≠ g ∧ (f.abstract [old] []).occursFree new [] = true

/-- The step replaces one side of the equivalence in its premise by the other where that other side
    occurs already. -/
def Overwrites (p conclusion : Formula) : Prop :=
  ∃ a b f g, p = .and (.iff a b) f ∧ conclusion = .and (.iff a b) g ∧
    (Merges a b f g ∨ Merges b a f g)

variable {a b f g : Formula}

/-- What was merged is not replaced back, neither way. -/
theorem Merges.not_back {old new : Formula} (hnew : new.hasHoles = false)
    (h : Merges old new f g) :
    ¬ (g.replace? new old [] = some f ∨ g.replace? old new [] = some f) := by
  obtain ⟨hreplace, hne, hoccurs⟩ := h
  rw [Formula.replaced_back_iff hnew hreplace, hoccurs]
  simpa using hne

/-- What was not merged is replaced back, one way or the other. -/
theorem back_of_not_merges {old new : Formula} (hnew : new.hasHoles = false)
    (hreplace : f.replace? old new [] = some g) (h : ¬ Merges old new f g) :
    g.replace? new old [] = some f ∨ g.replace? old new [] = some f := by
  rw [Formula.replaced_back_iff hnew hreplace]
  by_cases heq : f = g
  · exact .inl heq
  · exact .inr (Bool.eq_false_iff.2 fun hoccurs => h ⟨hreplace, heq, hoccurs⟩)

theorem overwrites_conjunction_iff :
    Overwrites (.and (.iff a b) f) (.and (.iff a b) g) ↔ Merges a b f g ∨ Merges b a f g := by
  constructor
  · rintro ⟨a', b', f', g', hp, hconclusion, hmerges⟩
    obtain ⟨-, hiff, rfl⟩ := Formula.binary.inj hp
    obtain ⟨-, -, rfl⟩ := Formula.binary.inj hconclusion
    obtain ⟨-, rfl, rfl⟩ := Formula.binary.inj hiff
    exact hmerges
  · intro hmerges
    exact ⟨a, b, f, g, rfl, rfl, hmerges⟩

theorem licenses_conjunction_iff (hf : (Formula.and (.iff a b) f).hasHoles = false)
    (hg : (Formula.and (.iff a b) g).hasHoles = false) :
    biconditionalSubstitution.Licenses (.and (.iff a b) g) [.and (.iff a b) f] ↔
      f.replace? a b [] = some g ∨ f.replace? b a [] = some g := by
  rw [licenses_singleton_iff_substitutes hf hg]
  constructor
  · rintro ⟨e, f', hp, a', b', g', rfl, hconclusion, hreplace⟩
    obtain ⟨-, hiff, rfl⟩ := Formula.binary.inj hp
    obtain ⟨-, -, rfl⟩ := Formula.binary.inj hconclusion
    obtain ⟨-, rfl, rfl⟩ := Formula.binary.inj hiff
    exact hreplace
  · intro hreplace
    exact ⟨_, f, rfl, a, b, g, rfl, rfl, hreplace⟩

/-- A step of the rule of substitution can be taken back exactly if it does not overwrite. -/
theorem licenses_back_iff {p conclusion : Formula} (hp : p.hasHoles = false)
    (hconclusion : conclusion.hasHoles = false)
    (h : biconditionalSubstitution.Licenses conclusion [p]) :
    biconditionalSubstitution.Licenses p [conclusion] ↔ ¬ Overwrites p conclusion := by
  obtain ⟨e, f, rfl, a, b, g, rfl, rfl, hreplace⟩ :=
    (licenses_singleton_iff_substitutes hp hconclusion).1 h
  rw [licenses_conjunction_iff hconclusion hp, overwrites_conjunction_iff]
  obtain ⟨ha, hb⟩ : a.hasHoles = false ∧ b.hasHoles = false := by
    simp only [Formula.hasHoles_binary, Bool.or_eq_false_iff] at hp
    exact hp.1
  constructor
  · rintro hback (hmerges | hmerges)
    · exact hmerges.not_back hb hback.symm
    · exact hmerges.not_back ha hback
  · intro hnot
    rcases hreplace with hreplace | hreplace
    · exact (back_of_not_merges hb hreplace fun h => hnot (.inl h)).symm
    · exact back_of_not_merges ha hreplace fun h => hnot (.inr h)

/-! ## The built-in rules -/

/-- The only built-in rule with an applied name is the rule of substitution. -/
theorem plain_of_ne {rule : Rule} (hrule : rule ∈ rules) (hne : rule ≠ biconditionalSubstitution) :
    rule.Plain := by
  have hcheck : ∀ rule ∈ rules, rule = biconditionalSubstitution ∨ rule.Plain := by decide
  exact (hcheck rule hrule).resolve_left hne

/-- A step from one premise that a built-in rule licenses can be taken back by the same rule, unless
    it is a substitution that overwrites. Then it cannot. -/
theorem applies_back_iff {rule : Rule} (hrule : rule ∈ Catalog.builtin.rules)
    {p conclusion : Formula} (hp : p.hasHoles = false) (hconclusion : conclusion.hasHoles = false) :
    ∃ there back, rule.applies conclusion [p] = .ok there ∧ rule.applies p [conclusion] = .ok back ∧
      (there = true →
        (back = true ↔ ¬ (rule = biconditionalSubstitution ∧ Overwrites p conclusion))) := by
  have huniform : rule.Uniform := uniform hrule
  have hdecides : rule.Decides conclusion [p] := huniform.decides (by simpa using hp) hconclusion
  have hdecides' : rule.Decides p [conclusion] := huniform.decides (by simpa using hconclusion) hp
  obtain ⟨there, hthere, hiff⟩ := hdecides.exists_applies_eq_ok
  obtain ⟨back, hback, hiff'⟩ := hdecides'.exists_applies_eq_ok
  refine ⟨there, back, hthere, hback, fun h => hiff'.trans ?_⟩
  by_cases hsubstitution : rule = biconditionalSubstitution
  · subst hsubstitution
    rw [licenses_back_iff hp hconclusion (hiff.1 h)]
    simp
  · have hlicenses := (plain_of_ne hrule hsubstitution).licenses_back (hiff.1 h)
    simp [hsubstitution, hlicenses]

/-- From `(P <-> Q) & (P & R)` there is a step to `(P <-> Q) & (Q & R)`, and one back. From
    `(P <-> Q) & (P & Q)` there is a step to `(P <-> Q) & (Q & Q)`, and none back. -/
theorem applies_back_iff_merged :
    let p := Formula.var "P"
    let q := Formula.var "Q"
    let r := Formula.var "R"
    let rule := biconditionalSubstitution
    let given (f : Formula) := Formula.and (.iff p q) f
    rule ∈ Catalog.builtin.rules ∧
      rule.applies (given (.and q r)) [given (.and p r)] = .ok true ∧
      rule.applies (given (.and p r)) [given (.and q r)] = .ok true ∧
      rule.applies (given (.and q q)) [given (.and p q)] = .ok true ∧
      rule.applies (given (.and p q)) [given (.and q q)] = .ok false := by
  intro p q r rule given
  have hrule : rule ∈ Catalog.builtin.rules := by decide
  have hapart : rule.applies (given (.and q r)) [given (.and p r)] = .ok true := by decide +kernel
  have hmerged : rule.applies (given (.and q q)) [given (.and p q)] = .ok true := by decide +kernel
  refine ⟨hrule, hapart, ?_, hmerged, ?_⟩
  · have hnot : ¬ Overwrites (given (.and p r)) (given (.and q r)) := by
      rw [overwrites_conjunction_iff]
      rintro (⟨-, -, hoccurs⟩ | ⟨hreplace, -⟩)
      · exact absurd hoccurs (by decide)
      · exact absurd hreplace (by decide)
    obtain ⟨there, back, hthere, hback, hiff⟩ := applies_back_iff hrule
      (show (given (.and p r)).hasHoles = false from rfl)
      (show (given (.and q r)).hasHoles = false from rfl)
    have hyes : there = true := Except.ok.inj (hthere.symm.trans hapart)
    rw [hback, (hiff hyes).2 fun h => hnot h.2]
  · have hoverwrites : Overwrites (given (.and p q)) (given (.and q q)) :=
      overwrites_conjunction_iff.2 (.inl ⟨by decide, by decide, by decide⟩)
    obtain ⟨there, back, hthere, hback, hiff⟩ := applies_back_iff hrule
      (show (given (.and p q)).hasHoles = false from rfl)
      (show (given (.and q q)).hasHoles = false from rfl)
    have hyes : there = true := Except.ok.inj (hthere.symm.trans hmerged)
    rw [hback, Bool.eq_false_iff.2 fun h => (hiff hyes).1 h ⟨rfl, hoverwrites⟩]

/-- Not all steps of the built-in rules can be taken back. -/
theorem substitution_not_taken_back :
    ¬ ∀ rule ∈ Catalog.builtin.rules, ∀ p conclusion : Formula,
      p.hasHoles = false → conclusion.hasHoles = false →
        (rule.applies conclusion [p] = .ok true ↔ rule.applies p [conclusion] = .ok true) := by
  intro h
  let given (f : Formula) := Formula.and (.iff (.var "P") (.var "Q")) f
  have hboth := h biconditionalSubstitution (by decide)
    (given (.and (.var "P") (.var "Q"))) (given (.and (.var "Q") (.var "Q"))) rfl rfl
  have hthere : biconditionalSubstitution.applies (given (.and (.var "Q") (.var "Q")))
      [given (.and (.var "P") (.var "Q"))] = .ok true := by decide +kernel
  have hback : biconditionalSubstitution.applies (given (.and (.var "P") (.var "Q")))
      [given (.and (.var "Q") (.var "Q"))] = .ok false := by decide +kernel
  exact absurd (hback.symm.trans (hboth.1 hthere)) (by simp)

end Equivalences

end Deduction
