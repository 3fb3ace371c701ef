import Deduction.Proofs.PremiseOrder

set_option autoImplicit false

/-! # What a rule makes of a formula

A rule can be used in two ways. It can be asked whether it licenses a step to a given conclusion, and
it can be asked for all formulas that it makes of a given one. The first matches the target side of a
clause with the conclusion, the second builds the instance of the target side. Once all names of the
target are bound the two agree: what is put off is settled by filling the contexts that are bound, as
in the instance. So the formulas that a rule makes are those to which it licenses a step, unless a
name of the target does not occur in the source. Such a name is open to any formula in a step, and
leaves the instance undefined. -/

namespace Deduction

/-! ## Patterns whose names are bound -/

/-- An occurrence that gives its formula under what is bound is settled, and nothing more is bound. -/
theorem Deferred.settle_of_instantiate {d : Deferred} (hargs : d.args ≠ []) {b : Bindings}
    (h : d.pattern.instantiate b = .ok d.candidate) : d.settle b = .ok (.holds b) := by
  rcases Formula.instantiate_app_eq_ok.1 h with ⟨hnil, -⟩ | ⟨c, values, -, hname, harity, hv, hfill⟩
  · exact absurd hnil hargs
  · have hlength : c.arity = values.length := by rw [harity, Formula.length_instantiateList hv]
    have hground : groundArgs b d.args = .ok (some values) := by rw [groundArgs, hv]
    refine bind_eq_ok.2 ⟨some values, hground, ?_⟩
    simp [hname, hlength, hfill, pure, Except.pure]

theorem settleRound_of_instances {ds : List Deferred} {b : Bindings}
    (hargs : ∀ d ∈ ds, d.args ≠ []) (h : ∀ d ∈ ds, d.pattern.instantiate b = .ok d.candidate) :
    settleRound b ds = .ok (some (b, [])) := by
  induction ds with
  | nil => rfl
  | cons d ds ih =>
      obtain ⟨hd, hds⟩ := List.forall_mem_cons.1 hargs
      obtain ⟨hinst, hinsts⟩ := List.forall_mem_cons.1 h
      exact bind_eq_ok.2 ⟨_, Deferred.settle_of_instantiate hd hinst, ih hds hinsts⟩

/-- Occurrences that give their formulas under what is bound are settled in one round. -/
theorem settleAll_of_instances {ds : List Deferred} {b : Bindings}
    (hargs : ∀ d ∈ ds, d.args ≠ []) (h : ∀ d ∈ ds, d.pattern.instantiate b = .ok d.candidate) :
    settleAll b ds = .ok (some b) := by
  cases ds with
  | nil => rw [settleAll]; rfl
  | cons d ds =>
      rw [settleAll, settleRound_of_instances hargs h]
      simp [settleAll]

/-- A comparison binds names and never changes what they are bound to. -/
theorem extends_of_matchShapes {pairs : List (Formula × Formula)} {s s' : MatchState}
    (hpairs : ∀ pair ∈ pairs, pair.2.hasHoles = false) (h : matchShapes pairs s = some s') :
    s.bindings.Extends s'.bindings := by
  refine matchShapes_preserves (fun t => s.bindings.Extends t.bindings) hpairs ?_ h
    (Assoc.Extends.refl _)
  intro pair _ name args g t t' _ _ happ ht
  rcases Formula.matchShape_app happ with ⟨-, hnone, rfl⟩ | ⟨-, -, rfl⟩ | ⟨-, rfl⟩
  · exact ht.trans (Assoc.extends_put hnone _)
  · exact ht
  · exact ht

/-- A pattern matches its instance under the bindings that the matching starts from. -/
theorem exists_matchOne_of_instantiate {p f : Formula} {b : Bindings} (hf : f.hasHoles = false)
    (h : p.instantiate b = .ok f) : ∃ b', matchOne p f b = .ok (some b') := by
  have hpairs : ∀ pair ∈ [(p, f)], pair.2.hasHoles = false := by simpa using hf
  have hstart : MatchState.Solves ⟨b, []⟩ b := ⟨Assoc.Extends.refl b, by simp⟩
  have hinst : ∀ pair ∈ [(p, f)], pair.1.instantiate b = .ok pair.2 := by simpa using h
  obtain ⟨s, hs, -, hdeferred⟩ := exists_matchShapes_of_instances hstart hinst
  have hext : b.Extends s.bindings := extends_of_matchShapes hpairs hs
  have hsettle : settleAll s.bindings s.deferred = .ok (some s.bindings) := by
    refine settleAll_of_instances (fun d hd => ?_) fun d hd => ?_
    · exact (deferred_of_matchShapes hpairs hs d hd).1.1
    · exact Formula.instantiate_mono hext (hdeferred d hd)
  exact ⟨s.bindings, by rw [matchOne, matchAll, hs]; exact hsettle⟩

/-- A pattern whose names are all bound matches its instance and nothing else. -/
theorem exists_matchOne_iff_instantiate {p f : Formula} {b : Bindings} (hf : f.hasHoles = false)
    (hp : ∀ name count, p.Uses name count → name ∈ b.names) :
    (∃ b', matchOne p f b = .ok (some b')) ↔ p.instantiate b = .ok f := by
  refine ⟨?_, exists_matchOne_of_instantiate hf⟩
  rintro ⟨b', h⟩
  obtain ⟨hext, hinst⟩ := matchAll_spec (by simpa using hf) h
  refine Formula.instantiate_of_agree ?_ (hinst _ (List.mem_singleton_self _))
  intro name args bound hmem hbound
  obtain ⟨bound', hbound'⟩ := Assoc.mem_names_iff.1 (hp name _ ⟨args, hmem, rfl⟩)
  rw [hbound', ← hext name bound' hbound', hbound]

namespace Rule

variable {rule : Rule} {d : DirectedClause} {f conclusion : Formula}

/-! ## Steps from one premise -/

/-- A step is matched in two halves: the parts with the premises, then the target with the
    conclusion. -/
theorem matchStep_eq_some_iff {parts premises : List Formula} {target : Formula} {b' : Bindings} :
    matchStep parts premises target conclusion = .ok (some b') ↔
      ∃ b, matchAll (parts.zip premises) [] = .ok (some b) ∧
        matchOne target conclusion b = .ok (some b') := by
  unfold matchStep
  rw [bind_eq_ok]
  constructor
  · rintro ⟨found, hfound, h⟩
    cases found with
    | none => exact absurd h (by simp [pure, Except.pure])
    | some b => exact ⟨b, hfound, h⟩
  · rintro ⟨b, hb, hb'⟩
    exact ⟨some b, hb, hb'⟩

/-- A step from one premise is licensed by matching the source of a clause with the premise, and
    then its target with the conclusion. -/
theorem licenses_singleton_iff :
    rule.Licenses conclusion [f] ↔ ∃ d ∈ rule.directedClauses, ∃ b b',
      matchOne d.source f [] = .ok (some b) ∧ matchOne d.target conclusion b = .ok (some b') := by
  constructor
  · rintro ⟨-, d, hd, parts, ordering, b', hparts, hperm, h⟩
    obtain rfl : [d.source] = parts :=
      Option.some.inj ((d.source.splitConjuncts_one).symm.trans hparts)
    obtain rfl := List.perm_singleton.1 hperm
    obtain ⟨b, hb, hb'⟩ := matchStep_eq_some_iff.1 h
    exact ⟨d, hd, b, b', hb, hb'⟩
  · rintro ⟨d, hd, b, b', hb, hb'⟩
    refine ⟨by simp, d, hd, [d.source], [f], b', d.source.splitConjuncts_one, List.Perm.refl _, ?_⟩
    exact matchStep_eq_some_iff.2 ⟨b, hb, hb'⟩

/-! ## The results of a clause -/

/-- What a clause makes of a formula is the instance of its target under the bindings that match its
    source with the formula. -/
theorem DirectedClause.result_eq_some_iff {g : Formula} :
    d.result f = .ok (some g) ↔
      ∃ b, matchOne d.source f [] = .ok (some b) ∧ d.target.instantiate b = .ok g := by
  unfold DirectedClause.result
  rw [bind_eq_ok]
  constructor
  · rintro ⟨found, hfound, h⟩
    cases found with
    | none => exact absurd h (by simp [pure, Except.pure])
    | some b =>
        refine ⟨b, hfound, ?_⟩
        simp only at h
        split at h <;> simp_all [pure, Except.pure]
  · rintro ⟨b, hb, hg⟩
    exact ⟨some b, hb, by simp [hg, pure, Except.pure]⟩

variable {arity : String → Nat}

/-- A clause that uses each name with one number of arguments does not fail for good. -/
theorem DirectedClause.exists_result_eq_ok (hsource : d.source.UniformIn arity)
    (htarget : d.target.UniformIn arity) (hf : f.hasHoles = false) :
    ∃ found, d.result f = .ok found := by
  have hpairs : ∀ pair ∈ [(d.source, f)], pair.2.hasHoles = false := by simpa using hf
  have hempty : Bindings.Obey [] (Binding.FromUse (OwnCount arity)) := by
    intro name bound h
    cases h
  unfold DirectedClause.result
  cases hmatch : matchOne d.source f [] with
  | error e =>
      refine absurd (explained_of_matchAll hempty hpairs ?_ hmatch) (e.not_explained_ownCount arity)
      simpa using hsource.usesAmong
  | ok found =>
      cases found with
      | none => exact ⟨none, rfl⟩
      | some b =>
          have hb : b.Obey (Binding.FromUse (OwnCount arity)) :=
            hempty.matchAll hpairs (by simpa using hsource.usesAmong.grants) hmatch
          cases hinst : d.target.instantiate b with
          | ok g => exact ⟨some g, by simp [hinst, bind, Except.bind, pure, Except.pure]⟩
          | error e =>
              -- only an unbound or a captured name is left to stand in the way of the instance
              have hexplained : e.Explained (OwnCount arity) (OwnCount arity) :=
                Formula.explained_of_instantiate hb htarget hinst
              rcases e with name | conflict | _ | ⟨body, as⟩
              · exact ⟨none, by simp [hinst, bind, Except.bind, pure, Except.pure]⟩
              · exact absurd hexplained
                  ((MatchError.arity conflict).not_explained_ownCount arity)
              · exact absurd hexplained id
              · exact ⟨none, by simp [hinst, bind, Except.bind, pure, Except.pure]⟩

/-! ## The results of a rule -/

/-- A result is added unless it was found already. -/
theorem mem_add_result {found : List Formula} {g h : Formula} :
    g ∈ (if found.contains h then found else found ++ [h]) ↔ g ∈ found ∨ g = h := by
  split
  · next hold =>
      have hmem : h ∈ found := by simpa using hold
      exact ⟨.inl, fun hg => hg.elim id fun he => he ▸ hmem⟩
  · simp

theorem nodup_add_result {found : List Formula} (hfound : found.Nodup) (h : Formula) :
    (if found.contains h then found else found ++ [h]).Nodup := by
  split
  · exact hfound
  · next hnew =>
      have hmem : h ∉ found := by simpa using hnew
      have hapart : ∀ g ∈ found, g ≠ h := fun g hg he => hmem (he ▸ hg)
      simpa [List.nodup_append, hfound] using hapart

/-- The results of clauses that do not fail, behind those found already: each once, and no others. -/
theorem collectResults_spec {ds : List DirectedClause} (hds : ∀ d ∈ ds, ∃ r, d.result f = .ok r)
    (found : List Formula) :
    ∃ results, collectResults f ds found = .ok results ∧ (found.Nodup → results.Nodup) ∧
      ∀ g, g ∈ results ↔ g ∈ found ∨ ∃ d ∈ ds, d.result f = .ok (some g) := by
  induction ds generalizing found with
  | nil => exact ⟨found, rfl, id, by simp⟩
  | cons d ds ih =>
      obtain ⟨⟨r, hr⟩, hds⟩ := List.forall_mem_cons.1 hds
      cases r with
      | none =>
          obtain ⟨results, hresults, hnodup, hmem⟩ := ih hds found
          refine ⟨results, bind_eq_ok.2 ⟨none, hr, hresults⟩, hnodup, fun g => ?_⟩
          simp [hmem, hr]
      | some h =>
          obtain ⟨results, hresults, hnodup, hmem⟩ :=
            ih hds (if found.contains h then found else found ++ [h])
          refine ⟨results, bind_eq_ok.2 ⟨some h, hr, hresults⟩, fun hfound => ?_, fun g => ?_⟩
          · exact hnodup (nodup_add_result hfound h)
          · rw [hmem, mem_add_result]
            simp [hr, or_assoc, eq_comm]

end Rule

/-- Both sides use the same names, alone or with arguments, free or bound. -/
def Clause.SameNames (c : Clause) : Prop :=
  ∀ name, (∃ count, c.lhs.Uses name count) ↔ ∃ count, c.rhs.Uses name count

namespace Rule

variable {rule : Rule} {d : DirectedClause} {f conclusion : Formula}

def SameNames (rule : Rule) : Prop := ∀ c ∈ rule.clauses, c.SameNames

theorem SameNames.uses_source (hrule : rule.SameNames) (hd : d ∈ rule.directedClauses)
    {name : String} {count : Nat} (h : d.target.Uses name count) :
    ∃ count, d.source.Uses name count := by
  have hclause := hrule d.clause (clause_mem_of_mem_directedClauses hd) name
  unfold DirectedClause.source DirectedClause.target at *
  cases hdirection : d.direction with
  | forward =>
      rw [hdirection] at h
      exact hclause.2 ⟨count, h⟩
  | backward =>
      rw [hdirection] at h
      exact hclause.1 ⟨count, h⟩

/-- What a clause makes of a formula, the rule licenses as a step from it. -/
theorem licenses_of_result (hd : d ∈ rule.directedClauses) (hconclusion : conclusion.hasHoles = false)
    (h : d.result f = .ok (some conclusion)) : rule.Licenses conclusion [f] := by
  obtain ⟨b, hb, hinst⟩ := DirectedClause.result_eq_some_iff.1 h
  obtain ⟨b', hb'⟩ := exists_matchOne_of_instantiate hconclusion hinst
  exact licenses_singleton_iff.2 ⟨d, hd, b, b', hb, hb'⟩

/-- If both sides of each clause have the same names, a step from a formula leads to something that a
    clause makes of it. -/
theorem SameNames.exists_result (hrule : rule.SameNames) (hf : f.hasHoles = false)
    (hconclusion : conclusion.hasHoles = false) (h : rule.Licenses conclusion [f]) :
    ∃ d ∈ rule.directedClauses, d.result f = .ok (some conclusion) := by
  obtain ⟨d, hd, b, b', hb, hb'⟩ := licenses_singleton_iff.1 h
  -- matching the source binds all names of the source, and so all names of the target
  obtain ⟨-, hinst⟩ := matchAll_spec (by simpa using hf) hb
  have hnames : ∀ name count, d.target.Uses name count → name ∈ b.names := by
    intro name count huses
    obtain ⟨count', huses'⟩ := hrule.uses_source hd huses
    exact Formula.mem_names_of_instantiate (hinst _ (List.mem_singleton_self _)) huses'
  have hresult := (exists_matchOne_iff_instantiate hconclusion hnames).1 ⟨b', hb'⟩
  exact ⟨d, hd, DirectedClause.result_eq_some_iff.2 ⟨b, hb, hresult⟩⟩

/-- A rule that uses each name of a clause with one number of arguments has a list of results for
    every formula, and none of them is in it twice. It licenses a step to each of them; and if the
    sides of each clause have the same names, to nothing else. -/
theorem mem_results_iff_applies (hrule : rule.Uniform) (hf : f.hasHoles = false) :
    ∃ results, rule.results f = .ok results ∧ results.Nodup ∧
      ∀ conclusion, conclusion.hasHoles = false → ∃ answer,
        rule.applies conclusion [f] = .ok answer ∧ (conclusion ∈ results → answer = true) ∧
          (rule.SameNames → (conclusion ∈ results ↔ answer = true)) := by
  have hok : ∀ d ∈ rule.directedClauses, ∃ r, d.result f = .ok r := by
    intro d hd
    obtain ⟨arity, hlhs, hrhs⟩ := hrule d.clause (clause_mem_of_mem_directedClauses hd)
    obtain ⟨hsource, htarget⟩ := d.sides (·.UniformIn arity) hlhs hrhs
    exact DirectedClause.exists_result_eq_ok hsource htarget hf
  obtain ⟨results, hresults, hnodup, hmem⟩ := collectResults_spec hok []
  refine ⟨results, hresults, hnodup List.nodup_nil, fun conclusion hconclusion => ?_⟩
  have hdecides : rule.Decides conclusion [f] := hrule.decides (by simpa using hf) hconclusion
  obtain ⟨answer, hanswer, hiff⟩ := hdecides.exists_applies_eq_ok
  have hgenerated : conclusion ∈ results ↔
      ∃ d ∈ rule.directedClauses, d.result f = .ok (some conclusion) := by simp [hmem]
  have hchecked : conclusion ∈ results → answer = true := by
    intro h
    obtain ⟨d, hd, hresult⟩ := hgenerated.1 h
    exact hiff.2 (licenses_of_result hd hconclusion hresult)
  refine ⟨answer, hanswer, hchecked, fun hnames => ⟨hchecked, fun h => ?_⟩⟩
  exact hgenerated.2 (hnames.exists_result hf hconclusion (hiff.1 h))

/-- A context around a context, below quantifiers. Of `forall y, (P & ~P)` the rule makes one formula.
    Of `forall y, (P & (z & exists z, (P & Q)))` it makes none, because the inner context has `z` as a
    free name that the outer one binds; and so it licenses no step at all from there. -/
theorem mem_results_iff_applies_nested :
    let around (f : Formula) := Formula.app "S" [f]
    let phi := Formula.var "phi"
    let rule : Rule := ⟨"R", [⟨.quant .all "y" (.and phi (around phi)),
      .quant .ex "y" (.or (around (around phi)) phi)⟩]⟩
    let p := Formula.var "P"
    let formula := Formula.quant .all "y" (.and p (.neg p))
    let conclusion := Formula.quant .ex "y" (.or (.neg (.neg p)) p)
    let captured := Formula.quant .all "y"
      (.and p (.and (.var "z") (.quant .ex "z" (.and p (.var "Q")))))
    rule.Uniform ∧ rule.SameNames ∧
      rule.results formula = .ok [conclusion] ∧ rule.applies conclusion [formula] = .ok true ∧
      rule.results captured = .ok [] ∧
      ∀ other, other.hasHoles = false → rule.applies other [captured] = .ok false := by
  intro around phi rule p formula conclusion captured
  have huniform : rule.Uniform := by
    have hcheck : ∀ c ∈ rule.clauses,
        (∀ f ∈ c.lhs.subformulas, f.rootUniformIn Equivalences.arity = true) ∧
          ∀ f ∈ c.rhs.subformulas, f.rootUniformIn Equivalences.arity = true := by decide
    intro c hc
    obtain ⟨hlhs, hrhs⟩ := hcheck c hc
    exact ⟨_, Formula.uniformIn_of_subformulas hlhs, Formula.uniformIn_of_subformulas hrhs⟩
  have hnames : rule.SameNames := by
    intro c hc name
    obtain rfl := List.mem_singleton.1 hc
    simpa [around, phi, Formula.uses_quant, Formula.uses_binary, Formula.uses_app, exists_or]
      using Or.inr
  have hformula : rule.results formula = .ok [conclusion] := by decide +kernel
  have hcaptured : rule.results captured = .ok [] := by decide +kernel
  refine ⟨huniform, hnames, hformula, ?_, hcaptured, fun other hother => ?_⟩
  · obtain ⟨results, hresults, -, hsteps⟩ := mem_results_iff_applies (f := formula) huniform rfl
    obtain ⟨answer, hanswer, hchecked, -⟩ := hsteps conclusion rfl
    obtain rfl : [conclusion] = results := Except.ok.inj (hformula.symm.trans hresults)
    rw [hanswer, hchecked (List.mem_singleton_self _)]
  · obtain ⟨results, hresults, -, hsteps⟩ := mem_results_iff_applies (f := captured) huniform rfl
    obtain ⟨answer, hanswer, -, hiff⟩ := hsteps other hother
    obtain rfl : [] = results := Except.ok.inj (hcaptured.symm.trans hresults)
    have hno : answer ≠ true := fun h => absurd ((hiff hnames).2 h) (by simp)
    rw [hanswer, Bool.eq_false_iff.2 hno]

end Rule

end Deduction
