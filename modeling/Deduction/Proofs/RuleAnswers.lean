import Deduction.Proofs.PlainRules
import Deduction.Proofs.RuleResults

set_option autoImplicit false

/-! # Answers of rules

A match that a rule has found can be checked without matching. It names a clause and a direction, and
under its bindings the target of the clause becomes the conclusion, and the source the conjunction of
the premises in some order. The bindings are found in two halves: the parts of the source get their
instances in the first one, and keep them in the second, which binds further names only.

A rule has an answer to give unless matching fails for good. It never does if each clause uses each name
with one number of arguments. What stands in the way of an instance is then an unbound or a captured
name, and this only means that the clause does not match. -/

namespace Deduction

/-! ## Matches are certificates -/

/-- The instance of a conjunction is the conjunction of the instances. -/
theorem Formula.instantiate_foldl_and {b : Bindings} {parts values : List Formula}
    (h : List.Forall₂ (fun p f => p.instantiate b = .ok f) parts values) {first f : Formula}
    (hfirst : first.instantiate b = .ok f) :
    (parts.foldl .and first).instantiate b = .ok (values.foldl .and f) := by
  induction h generalizing first f with
  | nil => exact hfirst
  | cons hpart _ ih => exact ih (instantiate_binary_eq_ok.2 ⟨f, hfirst, _, hpart, rfl⟩)

namespace Rule

section

variable {rule : Rule} {d : DirectedClause} {conclusion : Formula} {premises : List Formula}
  {m : Match}

/-- Under the bindings of a match the target of the clause is the conclusion, and its source is the
    conjunction of the premises in some order. -/
theorem DirectedClause.instances_of_find (hpremises : ∀ f ∈ premises, f.hasHoles = false)
    (hconclusion : conclusion.hasHoles = false) (h : d.find conclusion premises = .ok (some m)) :
    d.target.instantiate m.bindings = .ok conclusion ∧
      ∃ first rest, (first :: rest).Perm premises ∧
        d.source.instantiate m.bindings = .ok (rest.foldl .and first) := by
  obtain ⟨parts, ordering, hparts, hperm, -, -, hstep⟩ := d.matchStep_of_find h
  obtain ⟨-, hconjunction⟩ := Formula.splitConjuncts_eq_some_iff.1 hparts
  have hlength := Formula.length_of_splitConjuncts hparts hperm
  obtain ⟨hinst, htarget⟩ :=
    matchStep_spec (fun f hf => hpremises f (hperm.mem_iff.1 hf)) hconclusion hstep
  refine ⟨htarget, ?_⟩
  have hparts' : List.Forall₂ (fun p f => p.instantiate m.bindings = .ok f) parts ordering :=
    List.forall₂_iff_zip.2 ⟨hlength, fun hmem => hinst _ hmem⟩
  cases hparts' with
  | nil => exact absurd hconjunction id
  | cons hfirst hrest =>
      refine ⟨_, _, hperm, ?_⟩
      rw [← hconjunction]
      exact Formula.instantiate_foldl_and hrest hfirst

/-- A match is a certificate of the step, whatever the rule. The clause that it names is there; its
    target becomes the conclusion under the bindings of the match, and its source becomes the
    conjunction of the premises in some order, nested to the left. -/
theorem findMatch_certifies (hpremises : ∀ f ∈ premises, f.hasHoles = false)
    (hconclusion : conclusion.hasHoles = false)
    (h : rule.findMatch conclusion premises = .ok (some m)) :
    rule.instantiate? m.clause m.direction m.bindings = some (.ok conclusion) ∧
      ∃ c first rest, rule.clauses[m.clause]? = some c ∧ (first :: rest).Perm premises ∧
        (c.source m.direction).instantiate m.bindings = .ok (rest.foldl .and first) := by
  obtain ⟨d, hd, hfind⟩ := exists_find_of_findMatch h
  obtain ⟨-, -, -, -, hclause, hdirection, -⟩ := d.matchStep_of_find hfind
  obtain ⟨htarget, first, rest, hperm, hsource⟩ := d.instances_of_find hpremises hconclusion hfind
  have hget : rule.clauses[m.clause]? = some d.clause := by
    rw [hclause]
    exact getElem?_of_mem_directedClauses hd
  rw [hdirection]
  refine ⟨?_, d.clause, first, rest, hget, hperm, hsource⟩
  rw [instantiate?, elementAt?_natCast, hget]
  exact congrArg some htarget

end

/-- The premises match in the other order. The context of `S` is found in the first half and that of
    `T` in the second, and `psi` stands in the target alone. -/
theorem findMatch_certifies_contexts :
    let phi := Formula.var "phi"
    let clause : Clause := ⟨.and phi (.implies phi (.app "S" [phi])),
      .or (.app "T" [.app "S" [phi]]) (.var "psi")⟩
    let rule : Rule := ⟨"R", [clause]⟩
    let p := Formula.var "P"
    let q := Formula.quant .all "x" (.and (.var "x") p)
    let conclusion := Formula.or (.neg q) (.var "R")
    let m : Match := ⟨0, .forward, [("phi", .formula p),
      ("S", .context ⟨1, .quant .all "x" (.and (.var "x") (.hole 0))⟩),
      ("psi", .formula (.var "R")), ("T", .context ⟨1, .neg (.hole 0)⟩)]⟩
    rule.findMatch conclusion [.implies p q, p] = .ok (some m) ∧
      rule.instantiate? 0 .forward m.bindings = some (.ok conclusion) ∧
      ∃ first rest, (first :: rest).Perm [.implies p q, p] ∧
        clause.lhs.instantiate m.bindings = .ok (rest.foldl .and first) := by
  intro phi clause rule p q conclusion m
  have hmatch : rule.findMatch conclusion [.implies p q, p] = .ok (some m) := by decide +kernel
  obtain ⟨htarget, c, first, rest, hc, hperm, hsource⟩ :=
    findMatch_certifies (by decide) (by decide) hmatch
  obtain rfl : clause = c := Option.some.inj hc
  exact ⟨hmatch, htarget, first, rest, hperm, hsource⟩

/-! ## Rules that always have an answer -/

theorem Uniform.exists_result_eq_ok {rule : Rule} (hrule : rule.Uniform) {f : Formula}
    (hf : f.hasHoles = false) : ∀ d ∈ rule.directedClauses, ∃ r, d.result f = .ok r := by
  intro d hd
  obtain ⟨arity, hlhs, hrhs⟩ := hrule d.clause (clause_mem_of_mem_directedClauses hd)
  obtain ⟨hsource, htarget⟩ := d.sides (·.UniformIn arity) hlhs hrhs
  exact DirectedClause.exists_result_eq_ok hsource htarget hf

/-- The built-in rules use each name of a clause with one number of arguments, free or bound. A rule
    that does so never fails for good. It has an answer for every step, with a match for what it
    licenses and for nothing else. And it has a list of results for every formula: the instances of the
    target of a clause under the bindings that turn its source into the formula. -/
theorem exists_answers_of_uniform :
    (∀ rule ∈ Equivalences.rules, rule.Uniform) ∧
    ∀ rule : Rule, rule.Uniform →
      (∀ conclusion premises, conclusion.hasHoles = false →
        (∀ f ∈ premises, f.hasHoles = false) →
        ∃ found, rule.findMatch conclusion premises = .ok found ∧
          rule.applies conclusion premises = .ok found.isSome ∧
          (found.isSome = true ↔ rule.Licenses conclusion premises)) ∧
      ∀ f, f.hasHoles = false →
        ∃ results, rule.results f = .ok results ∧
          ∀ g, g ∈ results ↔ ∃ d ∈ rule.directedClauses, ∃ b,
            matchOne d.source f [] = .ok (some b) ∧ d.target.instantiate b = .ok g := by
  refine ⟨fun rule hrule => Equivalences.uniform hrule, fun rule hrule => ⟨?_, ?_⟩⟩
  · intro conclusion premises hconclusion hpremises
    obtain ⟨found, hfound, hiff⟩ := (hrule.decides hpremises hconclusion).exists_findMatch_eq_ok
    exact ⟨found, hfound, bind_eq_ok.2 ⟨found, hfound, rfl⟩, hiff⟩
  · intro f hf
    obtain ⟨results, hresults, -, hmem⟩ := collectResults_spec (hrule.exists_result_eq_ok hf) []
    refine ⟨results, hresults, fun g => ?_⟩
    simp only [hmem, List.not_mem_nil, false_or, DirectedClause.result_eq_some_iff]

/-- Instances that do not exist. The rule makes nothing of `forall y, (P & ~P)`, as `psi` is not bound,
    though a step from there may have any formula in its place. And there is no step from
    `forall y, (P & (z & exists z, (P & Q)))` to the formula in which the context, put into itself,
    has captured `z`. -/
theorem exists_answers_of_uniform_captured :
    let around (f : Formula) := Formula.app "S" [f]
    let phi := Formula.var "phi"
    let rule : Rule := ⟨"R", [⟨.quant .all "y" (.and phi (around phi)),
      .quant .ex "y" (.or (around (around phi)) (.var "psi"))⟩]⟩
    let p := Formula.var "P"
    let q := Formula.var "Q"
    let below (f : Formula) := Formula.and (.var "z") (.quant .ex "z" (.and f q))
    let negated := Formula.quant .all "y" (.and p (.neg p))
    let doubled := Formula.quant .ex "y" (.or (.neg (.neg p)) q)
    let single := Formula.quant .all "y" (.and p (below p))
    let capturing := Formula.quant .ex "y" (.or (below (below p)) q)
    rule.Uniform ∧ (∃ m, rule.findMatch doubled [negated] = .ok (some m)) ∧
      rule.results negated = .ok [] ∧ rule.findMatch capturing [single] = .ok none := by
  intro around phi rule p q below negated doubled single capturing
  have huniform : rule.Uniform := uniform_of_subformulas Equivalences.arity (by decide)
  obtain ⟨hsteps, hresults⟩ := exists_answers_of_uniform.2 rule huniform
  refine ⟨huniform, ?_, ?_, ?_⟩
  · obtain ⟨found, hfound, happlies, -⟩ := hsteps doubled [negated] rfl (by decide)
    have hyes : rule.applies doubled [negated] = .ok true := by decide +kernel
    have hsome : found.isSome = true := Except.ok.inj (happlies.symm.trans hyes)
    obtain ⟨m, rfl⟩ := Option.isSome_iff_exists.1 hsome
    exact ⟨m, hfound⟩
  · obtain ⟨results, hresults, hmem⟩ := hresults negated rfl
    have hnone : ∀ d ∈ rule.directedClauses, d.result negated = .ok none := by decide +kernel
    have hempty : results = [] := by
      refine List.eq_nil_iff_forall_not_mem.2 fun g hg => ?_
      obtain ⟨d, hd, b, hb, hinst⟩ := (hmem g).1 hg
      have hresult := DirectedClause.result_eq_some_iff.2 ⟨b, hb, hinst⟩
      rw [hnone d hd] at hresult
      cases hresult
    rw [hresults, hempty]
  · obtain ⟨found, hfound, happlies, -⟩ := hsteps capturing [single] rfl (by decide)
    have hno : rule.applies capturing [single] = .ok false := by decide +kernel
    have hnone : found.isSome = false := Except.ok.inj (happlies.symm.trans hno)
    obtain rfl : found = none := by simpa using hnone
    exact hfound

end Rule

end Deduction
