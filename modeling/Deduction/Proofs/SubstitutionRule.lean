import Deduction.Proofs.Replacement
import Deduction.Proofs.RuleResults
import Mathlib.Data.List.Permutation

set_option autoImplicit false

/-! # The rule of substitution

The rule of substitution has one clause, `(phi <-> psi) & S(phi)` for `(phi <-> psi) & S(psi)`.
Matching its source with `(A <-> B) & X` binds `S` to the context in which `A` occurs in `X`. The
target then has one instance at most: `(A <-> B) & Y`, where `Y` is `X` with `A` replaced by `B`
throughout. Read backwards, the clause replaces `B` by `A`. Two premises are matched with the two
parts of the source, in either order. -/

namespace Deduction

/-! ## Matching connectives -/

/-- A connective matches only the same connective. -/
theorem exists_binary_of_matchAll {op : Connective} {l r p : Formula}
    {pairs : List (Formula × Formula)} {b b' : Bindings}
    (h : matchAll ((.binary op l r, p) :: pairs) b = .ok (some b')) :
    ∃ f g, p = .binary op f g := by
  unfold matchAll at h
  split at h
  · exact absurd h (by simp)
  · next s hs =>
      obtain ⟨s₁, hs₁, -⟩ := Option.bind_eq_some_iff.1 hs
      cases p <;> simp only [Formula.matchShape, reduceCtorEq] at hs₁
      next op' f g =>
        split at hs₁
        · next hop => exact ⟨f, g, by rw [hop]⟩
        · exact absurd hs₁ (by simp)

theorem matchOne_and_eq_some_iff {l r p : Formula} {b b' : Bindings} :
    matchOne (.and l r) p b = .ok (some b') ↔
      ∃ f g, p = .and f g ∧ matchAll [(l, f), (r, g)] b = .ok (some b') := by
  have hand (f g : Formula) : matchOne (.and l r) (.and f g) b = matchAll [(l, f), (r, g)] b := by
    simp [matchOne, matchAll, matchShapes, Formula.matchShape]
  constructor
  · intro h
    obtain ⟨f, g, rfl⟩ := exists_binary_of_matchAll h
    exact ⟨f, g, rfl, (hand f g).symm.trans h⟩
  · rintro ⟨f, g, rfl, h⟩
    exact (hand f g).trans h

namespace Equivalences

/-! ## Matching the clause -/

/-- The bindings of the two sides of an equivalence. -/
def sides (a b : Formula) : Bindings := [("phi", .formula a), ("psi", .formula b)]

/-- The bindings of the two sides and of the context. -/
def sidesAround (a b : Formula) (c : Context) : Bindings := sides a b ++ [("S", .context c)]

/-- Matching the source binds `S` to the context of the side that stands in it. -/
theorem matchAll_source {name : String} {a b old f : Formula}
    (hold : (sides a b).get? name = some (.formula old)) :
    matchAll [(.iff phi psi, .iff a b), (inContext (.var name), f)] [] =
      .ok (some (sidesAround a b (.ofTargets f [old]))) := by
  have hshapes : matchShapes [(.iff phi psi, .iff a b), (inContext (.var name), f)] ⟨[], []⟩ =
      some ⟨sides a b, [⟨"S", [.var name], f⟩]⟩ := by
    simp [matchShapes, Formula.matchShape, phi, psi, inContext, MatchState.bind, MatchState.defer,
      sides, Assoc.get?, Assoc.put]
  have hground : groundArgs (sides a b) [.var name] = .ok (some [old]) := by
    simp [groundArgs, Formula.instantiateList, Formula.instantiate, hold, bind, Except.bind, pure,
      Except.pure]
  have hround : settleRound (sides a b) [⟨"S", [.var name], f⟩] =
      .ok (some (sidesAround a b (.ofTargets f [old]), [])) := by
    refine bind_eq_ok.2 ⟨.holds (sidesAround a b (.ofTargets f [old])), ?_, rfl⟩
    exact bind_eq_ok.2 ⟨some [old], hground, rfl⟩
  unfold matchAll
  rw [hshapes]
  dsimp only
  rw [settleAll, hround]
  simp [settleAll]

/-- The target has an instance exactly if the context can be filled with the other side. -/
theorem instantiate_target {name : String} {a b new conclusion : Formula} {c : Context}
    (hc : c.arity = 1) (hnew : (sidesAround a b c).get? name = some (.formula new)) :
    (Formula.and (.iff phi psi) (inContext (.var name))).instantiate (sidesAround a b c) =
        .ok conclusion ↔
      ∃ g, conclusion = .and (.iff a b) g ∧ c.fill [new] = .ok g := by
  have hiff : (Formula.iff phi psi).instantiate (sidesAround a b c) = .ok (.iff a b) := rfl
  have harg : Formula.instantiateList (sidesAround a b c) [.var name] = .ok [new] := by
    simp [Formula.instantiateList, Formula.instantiate, hnew, bind, Except.bind, pure, Except.pure]
  have hcontext : (inContext (.var name)).instantiate (sidesAround a b c) =
      (c.fill [new]).mapError .fill := by
    have hname : (sidesAround a b c).get? "S" = some (.context c) := rfl
    simp [inContext, Formula.instantiate, hname, hc, harg, bind, Except.bind]
  rw [Formula.instantiate_binary_eq_ok]
  constructor
  · rintro ⟨e, he, g, hg, rfl⟩
    obtain rfl : Formula.iff a b = e := Except.ok.inj (hiff.symm.trans he)
    exact ⟨g, rfl, mapError_eq_ok.1 (hcontext.symm.trans hg)⟩
  · rintro ⟨g, rfl, hg⟩
    exact ⟨_, hiff, g, hcontext.trans (mapError_eq_ok.2 hg), rfl⟩

/-- One direction of the clause: the side `old` of the equivalence is replaced by the side `new`. -/
theorem exists_match_iff_replace? {source target : String} {old new : Formula → Formula → Formula}
    (hold : ∀ a b, (sides a b).get? source = some (.formula (old a b)))
    (hnew : ∀ a b c, (sidesAround a b c).get? target = some (.formula (new a b)))
    {e f conclusion : Formula} (hf : f.hasHoles = false) (hconclusion : conclusion.hasHoles = false) :
    (∃ b b', matchAll [(.iff phi psi, e), (inContext (.var source), f)] [] = .ok (some b) ∧
        matchOne (.and (.iff phi psi) (inContext (.var target))) conclusion b = .ok (some b')) ↔
      ∃ a b g, e = .iff a b ∧ conclusion = .and (.iff a b) g ∧
        f.replace? (old a b) (new a b) [] = some g := by
  have hstep (a b : Formula) :
      (∃ b', matchOne (.and (.iff phi psi) (inContext (.var target))) conclusion
          (sidesAround a b (.ofTargets f [old a b])) = .ok (some b')) ↔
        ∃ g, conclusion = .and (.iff a b) g ∧ f.replace? (old a b) (new a b) [] = some g := by
    have hnames : ∀ name count,
        (Formula.and (.iff phi psi) (inContext (.var target))).Uses name count →
          name ∈ (sidesAround a b (.ofTargets f [old a b])).names := by
      have htarget := Assoc.mem_names_iff.2 ⟨_, hnew a b (.ofTargets f [old a b])⟩
      intro name count huses
      simp only [Formula.uses_binary, phi, psi, inContext, Formula.uses_app, List.mem_singleton,
        List.not_mem_nil, false_and, exists_false, or_false, exists_eq_left] at huses
      rcases huses with (⟨rfl, -⟩ | ⟨rfl, -⟩) | ⟨rfl, -⟩ | ⟨rfl, -⟩
      · exact List.mem_cons_self ..
      · exact List.mem_cons_of_mem _ (List.mem_cons_self ..)
      · exact List.mem_cons_of_mem _ (List.mem_cons_of_mem _ (List.mem_cons_self ..))
      · exact htarget
    rw [exists_matchOne_iff_instantiate hconclusion hnames, instantiate_target rfl (hnew a b _)]
    simp only [Context.fill_ofTargets_iff_replace? hf]
  constructor
  · rintro ⟨found, b', hfound, hb'⟩
    obtain ⟨a, b, rfl⟩ := exists_binary_of_matchAll hfound
    obtain rfl : sidesAround a b (.ofTargets f [old a b]) = found :=
      Option.some.inj (Except.ok.inj ((matchAll_source (hold a b)).symm.trans hfound))
    obtain ⟨g, hg, hreplace⟩ := (hstep a b).1 ⟨b', hb'⟩
    exact ⟨a, b, g, rfl, hg, hreplace⟩
  · rintro ⟨a, b, g, rfl, hg, hreplace⟩
    obtain ⟨b', hb'⟩ := (hstep a b).2 ⟨g, hg, hreplace⟩
    exact ⟨_, b', matchAll_source (hold a b), hb'⟩

/-! ## Steps -/

/-- The first formula is an equivalence, and the conclusion is the conjunction of it and of `f` with
    one of its sides replaced by the other throughout. -/
def Substitutes (e f conclusion : Formula) : Prop :=
  ∃ a b g, e = .iff a b ∧ conclusion = .and (.iff a b) g ∧
    (f.replace? a b [] = some g ∨ f.replace? b a [] = some g)

/-- The part of the source that stands for a context. -/
def contextPart : Direction → Formula
  | .forward => inContext phi
  | .backward => inContext psi

/-- The clause in either direction. -/
theorem exists_match_iff_substitutes {e f conclusion : Formula} (hf : f.hasHoles = false)
    (hconclusion : conclusion.hasHoles = false) :
    (∃ d ∈ biconditionalSubstitution.directedClauses, ∃ b b',
        matchAll [(.iff phi psi, e), (contextPart d.direction, f)] [] = .ok (some b) ∧
          matchOne d.target conclusion b = .ok (some b')) ↔
      Substitutes e f conclusion := by
  have hforward :
      (∃ b b', matchAll [(.iff phi psi, e), (inContext phi, f)] [] = .ok (some b) ∧
          matchOne (.and (.iff phi psi) (inContext psi)) conclusion b = .ok (some b')) ↔
        ∃ a b g, e = .iff a b ∧ conclusion = .and (.iff a b) g ∧ f.replace? a b [] = some g :=
    exists_match_iff_replace? (fun _ _ => rfl) (fun _ _ _ => rfl) hf hconclusion
  have hbackward :
      (∃ b b', matchAll [(.iff phi psi, e), (inContext psi, f)] [] = .ok (some b) ∧
          matchOne (.and (.iff phi psi) (inContext phi)) conclusion b = .ok (some b')) ↔
        ∃ a b g, e = .iff a b ∧ conclusion = .and (.iff a b) g ∧ f.replace? b a [] = some g :=
    exists_match_iff_replace? (fun _ _ => rfl) (fun _ _ _ => rfl) hf hconclusion
  have hclauses : biconditionalSubstitution.directedClauses =
      biconditionalSubstitution.clauses.flatMap fun c => [⟨0, c, .forward⟩, ⟨0, c, .backward⟩] := rfl
  unfold Substitutes
  simp only [and_or_left, exists_or]
  rw [← hforward, ← hbackward, hclauses]
  simp [biconditionalSubstitution, contextPart, Rule.DirectedClause.target, Clause.target]

/-- A step from one premise, a conjunction. -/
theorem licenses_singleton_iff_substitutes {p conclusion : Formula} (hp : p.hasHoles = false)
    (hconclusion : conclusion.hasHoles = false) :
    biconditionalSubstitution.Licenses conclusion [p] ↔
      ∃ e f, p = .and e f ∧ Substitutes e f conclusion := by
  have hsource : ∀ d ∈ biconditionalSubstitution.directedClauses,
      d.source = .and (.iff phi psi) (contextPart d.direction) := by decide
  rw [Rule.licenses_singleton_iff]
  constructor
  · rintro ⟨d, hd, b, b', hb, hb'⟩
    rw [hsource d hd] at hb
    obtain ⟨e, f, rfl, hparts⟩ := matchOne_and_eq_some_iff.1 hb
    simp only [Formula.hasHoles_binary, Bool.or_eq_false_iff] at hp
    refine ⟨e, f, rfl, (exists_match_iff_substitutes hp.2 hconclusion).1 ?_⟩
    exact ⟨d, hd, b, b', hparts, hb'⟩
  · rintro ⟨e, f, rfl, h⟩
    simp only [Formula.hasHoles_binary, Bool.or_eq_false_iff] at hp
    obtain ⟨d, hd, b, b', hb, hb'⟩ := (exists_match_iff_substitutes hp.2 hconclusion).2 h
    refine ⟨d, hd, b, b', ?_, hb'⟩
    rw [hsource d hd]
    exact matchOne_and_eq_some_iff.2 ⟨e, f, rfl, hb⟩

/-- A step from two premises. Either may be the equivalence. -/
theorem licenses_pair_iff_substitutes {p q conclusion : Formula} (hp : p.hasHoles = false)
    (hq : q.hasHoles = false) (hconclusion : conclusion.hasHoles = false) :
    biconditionalSubstitution.Licenses conclusion [p, q] ↔
      Substitutes p q conclusion ∨ Substitutes q p conclusion := by
  have hsource : ∀ d ∈ biconditionalSubstitution.directedClauses,
      d.source.splitConjuncts 2 = some [.iff phi psi, contextPart d.direction] := by decide
  constructor
  · rintro ⟨-, d, hd, parts, ordering, b', hparts, hperm, h⟩
    obtain rfl : [.iff phi psi, contextPart d.direction] = parts :=
      Option.some.inj ((hsource d hd).symm.trans hparts)
    obtain ⟨b, hb, hb'⟩ := Rule.matchStep_eq_some_iff.1 h
    rcases List.perm_pair.1 hperm with rfl | rfl
    · exact .inl ((exists_match_iff_substitutes hq hconclusion).1 ⟨d, hd, b, b', hb, hb'⟩)
    · exact .inr ((exists_match_iff_substitutes hp hconclusion).1 ⟨d, hd, b, b', hb, hb'⟩)
  · rintro (h | h)
    · obtain ⟨d, hd, b, b', hb, hb'⟩ := (exists_match_iff_substitutes hq hconclusion).2 h
      exact ⟨by simp, d, hd, _, [p, q], b', hsource d hd, List.Perm.refl _,
        Rule.matchStep_eq_some_iff.2 ⟨b, hb, hb'⟩⟩
    · obtain ⟨d, hd, b, b', hb, hb'⟩ := (exists_match_iff_substitutes hp hconclusion).2 h
      exact ⟨by simp, d, hd, _, [q, p], b', hsource d hd, List.Perm.swap p q [],
        Rule.matchStep_eq_some_iff.2 ⟨b, hb, hb'⟩⟩

/-- The rule of substitution always has an answer. From one premise it says yes exactly if the premise
    is a conjunction of an equivalence and a formula, and the conclusion is that equivalence and the
    formula with one side replaced by the other throughout. From two premises it says yes exactly if
    they are such an equivalence and formula, in either order. -/
theorem substitution_applies_iff {conclusion : Formula}
    (hconclusion : conclusion.hasHoles = false) :
    (∀ p : Formula, p.hasHoles = false → ∃ answer,
      biconditionalSubstitution.applies conclusion [p] = .ok answer ∧
        (answer = true ↔ ∃ e f, p = .and e f ∧ Substitutes e f conclusion)) ∧
    ∀ p q : Formula, p.hasHoles = false → q.hasHoles = false → ∃ answer,
      biconditionalSubstitution.applies conclusion [p, q] = .ok answer ∧
        (answer = true ↔ Substitutes p q conclusion ∨ Substitutes q p conclusion) := by
  have huniform : biconditionalSubstitution.Uniform := uniform (by decide)
  refine ⟨fun p hp => ?_, fun p q hp hq => ?_⟩
  · have hdecides : biconditionalSubstitution.Decides conclusion [p] :=
      huniform.decides (by simpa using hp) hconclusion
    obtain ⟨answer, hanswer, hiff⟩ := hdecides.exists_applies_eq_ok
    exact ⟨answer, hanswer, hiff.trans (licenses_singleton_iff_substitutes hp hconclusion)⟩
  · have hdecides : biconditionalSubstitution.Decides conclusion [p, q] :=
      huniform.decides (by simp [hp, hq]) hconclusion
    obtain ⟨answer, hanswer, hiff⟩ := hdecides.exists_applies_eq_ok
    exact ⟨answer, hanswer, hiff.trans (licenses_pair_iff_substitutes hp hq hconclusion)⟩

/-- In `forall y, (P & exists P, P)` only the first `P` is replaced. The equivalence may come second,
    or as part of a single premise. Replacing `P` by `y` there would capture `y`. -/
theorem substitution_applies_iff_bound :
    let p := Formula.var "P"
    let q := Formula.var "Q"
    let y := Formula.var "y"
    let below (f : Formula) := Formula.quant .all "y" (.and f (.quant .ex "P" p))
    let replaced := Formula.and (.iff p q) (below q)
    let captured := Formula.and (.iff p y) (below y)
    biconditionalSubstitution.applies replaced [.and (.iff p q) (below p)] = .ok true ∧
      biconditionalSubstitution.applies replaced [below p, .iff p q] = .ok true ∧
      biconditionalSubstitution.applies captured [.iff p y, below p] = .ok false := by
  intro p q y below replaced captured
  have hreplaced : Substitutes (.iff p q) (below p) replaced :=
    ⟨p, q, below q, rfl, rfl, .inl (by decide)⟩
  have hcaptured : ¬ (Substitutes (.iff p y) (below p) captured ∨
      Substitutes (below p) (.iff p y) captured) := by
    have hundefined : (below p).replace? p y [] = none := by decide
    have hunchanged : (below p).replace? y p [] = some (below p) := by decide
    rintro (⟨a, b, g, he, hconclusion, hreplace⟩ | ⟨a, b, g, he, -⟩)
    · obtain ⟨-, rfl, rfl⟩ := Formula.binary.inj he
      obtain ⟨-, -, rfl⟩ := Formula.binary.inj hconclusion
      rcases hreplace with hreplace | hreplace
      · exact absurd (hundefined.symm.trans hreplace) (by simp)
      · exact absurd (hunchanged.symm.trans hreplace) (by decide)
    · exact absurd he (by simp [below])
  have hholes : replaced.hasHoles = false := rfl
  have hholes' : captured.hasHoles = false := rfl
  obtain ⟨hone, htwo⟩ := substitution_applies_iff hholes
  obtain ⟨-, htwo'⟩ := substitution_applies_iff hholes'
  refine ⟨?_, ?_, ?_⟩
  · obtain ⟨answer, hanswer, hiff⟩ := hone (.and (.iff p q) (below p)) rfl
    rw [hanswer, hiff.2 ⟨_, _, rfl, hreplaced⟩]
  · obtain ⟨answer, hanswer, hiff⟩ := htwo (below p) (.iff p q) rfl rfl
    rw [hanswer, hiff.2 (.inr hreplaced)]
  · obtain ⟨answer, hanswer, hiff⟩ := htwo' (.iff p y) (below p) rfl rfl
    rw [hanswer, Bool.eq_false_iff.2 fun h => hcaptured (hiff.1 h)]

end Equivalences

end Deduction
