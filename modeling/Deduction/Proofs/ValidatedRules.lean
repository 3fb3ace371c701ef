import Deduction.Proofs.ReloadedVerdicts

set_option autoImplicit false

/-! # Rules with a checked number of arguments

A catalog may be built so that every clause of its rules uses each free name with one number of
arguments. Matching goes by all names of a clause, also by those that its quantifiers bind. So the
check leaves out a name that is bound where it is used: it may be used with two numbers of
arguments, and then matching can fail for good, and a line that cites the rule gets no verdict.

This is the only way in which it can fail. A line has a verdict in all other cases, unless a list or
a record is cited as a rule. -/

namespace Deduction

/-! ## Conflicts in clauses -/

namespace Clause

/-- Does a side of the clause use the name with that number of arguments? -/
def Uses (c : Clause) (name : String) (count : Nat) : Prop :=
  c.lhs.Uses name count ∨ c.rhs.Uses name count

/-- Does a side of the clause use it so inside an argument? -/
def UsesInside (c : Clause) (name : String) (count : Nat) : Prop :=
  c.lhs.UsesInside name count ∨ c.rhs.UsesInside name count

/-- Does a quantifier of the clause bind the name where it is used so? -/
def BindsUse (c : Clause) (name : String) (count : Nat) : Prop :=
  c.lhs.BindsUse name count ∨ c.rhs.BindsUse name count

/-- The name of the conflict has two uses in the clause, with different numbers of arguments. The
    second is inside an argument, and a quantifier binds the name at one of them. -/
def HidesConflict (c : Clause) (conflict : ArityConflict) : Prop :=
  ∃ first second : Nat, first ≠ second ∧ conflict.second = second ∧ c.Uses conflict.name first ∧
    c.UsesInside conflict.name second ∧
    (c.BindsUse conflict.name first ∨ c.BindsUse conflict.name second)

variable {c : Clause}

theorem UsesInside.uses {name : String} {count : Nat} (h : c.UsesInside name count) :
    c.Uses name count :=
  h.imp Formula.UsesInside.uses Formula.UsesInside.uses

/-- The inference of arities sees every conflict that no quantifier hides. -/
theorem hidesConflict_of_between {arities : Arities}
    (harities : Rule.clauseArities c.lhs c.rhs = .ok arities) {conflict : ArityConflict}
    (h : conflict.Between c.Uses c.UsesInside) : c.HidesConflict conflict := by
  obtain ⟨first, second, hne, hfirst, hsecond, hcount⟩ := h
  refine ⟨first, second, hne, hcount, hfirst, hsecond, ?_⟩
  rcases get?_clauseArities harities hfirst with hget | hbinds
  · rcases get?_clauseArities harities hsecond.uses with hget' | hbinds
    · rw [hget] at hget'
      exact absurd (Int.ofNat.inj (Option.some.inj hget')) hne
    · exact .inr hbinds
  · exact .inl hbinds

end Clause

namespace Rule

/-- A rule has no answer only if there is a conflict in one of its clauses. -/
theorem exists_explained_of_applies {rule : Rule} {conclusion : Formula} {premises : List Formula}
    (hpremises : ∀ f ∈ premises, f.hasHoles = false) (hconclusion : conclusion.hasHoles = false)
    {e : MatchError} (h : rule.applies conclusion premises = .error e) :
    ∃ c ∈ rule.clauses, e.Explained c.Uses c.UsesInside := by
  rcases bind_eq_error.1 h with h | ⟨found, -, h⟩
  · unfold findMatch at h
    split at h
    · cases h
    · obtain ⟨d, hd, h⟩ := exists_of_findSomeM?_eq_error h
      refine ⟨d.clause, clause_mem_of_mem_directedClauses hd, ?_⟩
      unfold DirectedClause.find at h
      split at h
      · cases h
      · next parts hparts =>
          obtain ⟨ordering, hordering, h⟩ := exists_of_findSomeM?_eq_error h
          rcases bind_eq_error.1 h with h | ⟨found, -, h⟩
          · obtain ⟨hsource, htarget⟩ :=
              d.sides (·.UsesAmong d.clause.Uses d.clause.UsesInside)
                ⟨fun _ _ => .inl, fun _ _ => .inl⟩ ⟨fun _ _ => .inr, fun _ _ => .inr⟩
            refine explained_of_matchStep (fun p hp => ?_) htarget (fun f hf => ?_) hconclusion h
            · exact hsource.of_mem (Formula.mem_subformulas_of_splitConjuncts hparts p hp)
            · exact hpremises f ((mem_orderings.1 hordering).mem_iff.1 hf)
          · cases h
  · cases h

theorem exists_clauseArities_of_validate {rule : Rule} (h : rule.validate = .ok ()) {c : Clause}
    (hc : c ∈ rule.clauses) : ∃ arities, clauseArities c.lhs c.rhs = .ok arities := by
  obtain ⟨arities, harities, -⟩ := bind_eq_ok.1 (forM_eq_ok.1 h c hc)
  exact ⟨arities, harities⟩

/-- A rule that passed the check has no answer only if a clause hides a conflict. -/
theorem exists_hidesConflict_of_applies {rule : Rule} (hrule : rule.validate = .ok ())
    {conclusion : Formula} {premises : List Formula}
    (hpremises : ∀ f ∈ premises, f.hasHoles = false) (hconclusion : conclusion.hasHoles = false)
    {e : MatchError} (h : rule.applies conclusion premises = .error e) :
    ∃ conflict, e = .arity conflict ∧ ∃ c ∈ rule.clauses, c.HidesConflict conflict := by
  obtain ⟨c, hc, hexplained⟩ := exists_explained_of_applies hpremises hconclusion h
  obtain ⟨arities, harities⟩ := exists_clauseArities_of_validate hrule hc
  cases e with
  | noArgument => exact absurd hexplained id
  | arity conflict =>
      exact ⟨conflict, rfl, c, hc, Clause.hidesConflict_of_between harities hexplained⟩

end Rule

/-! ## Checked catalogs -/

namespace Catalog

theorem validate_of_acceptRule {rule accepted : Rule} (h : acceptRule true rule = .ok accepted) :
    accepted.validate = .ok () := by
  obtain ⟨_, hvalidate, h⟩ := bind_eq_ok.1 h
  rw [← pure_eq_ok.1 h]
  exact mapError_eq_ok.1 hvalidate

/-- Every rule of a catalog that was built with the check passed it. -/
theorem validate_of_build {definition : Definition} {catalog : Catalog}
    (hvalidate : definition.validate = true) (h : build definition = .ok catalog) :
    ∀ rule ∈ catalog.rules, rule.validate = .ok () := by
  obtain ⟨rules, hrules, h⟩ := bind_eq_ok.1 h
  have hcatalog : catalog.rules = rules := by
    obtain ⟨_, -, h⟩ := bind_eq_ok.1 h
    split at h
    · obtain ⟨_, -, h⟩ := bind_eq_ok.1 h
      rw [← pure_eq_ok.1 h]
    · rw [← pure_eq_ok.1 h]
  rw [hcatalog]
  intro rule hrule
  unfold Definition.rules at hrules
  rw [hvalidate] at hrules
  split at hrules
  · obtain ⟨source, -, haccept⟩ := (mem_of_mapM_eq_ok hrules).2 rule hrule
    exact validate_of_acceptRule haccept
  · obtain ⟨table, -, hread⟩ := (mem_of_mapM_eq_ok hrules).2 rule hrule
    obtain ⟨source, -, haccept⟩ := bind_eq_ok.1 hread
    exact validate_of_acceptRule haccept

end Catalog

/-! ## Verdicts -/

namespace Derivation

variable {d : Derivation} {catalog : Catalog}

/-- With a catalog that was built with the check, and formulas without holes, every line can be
    verified unless it is a step that cites a list or a record as its rule, or a rule of which a
    clause hides a conflict. -/
theorem verifyLine_of_validated {definition : Catalog.Definition}
    (hvalidate : definition.validate = true) (hbuild : Catalog.build definition = .ok catalog)
    (hholes : ∀ r g, d.formulaOf r = some g → g.hasHoles = false) (line : Option Ref) :
    (∃ error, d.verifyLine catalog line = .ok error) ∨
      ∃ id content, line = some (.step id) ∧ d.step? (.step id) = some content ∧
        (content.rule.isCollection = true ∧
            d.verifyLine catalog line = .error (.notAKey content.rule) ∨
          ∃ rule conflict, catalog.cited? content.rule = .ok (some rule) ∧
            d.verifyLine catalog line = .error (.matching (.arity conflict)) ∧
            ∃ c ∈ rule.clauses, c.HidesConflict conflict) := by
  cases hline : d.verifyLine catalog line with
  | ok error => exact .inl ⟨error, rfl⟩
  | error e =>
      obtain ⟨id, content, conclusion, hid, hcontent, hformula, hcases⟩ := verifyLine_eq_error hline
      refine .inr ⟨id, content, hid, hcontent, hcases.imp ?_ ?_⟩
      · rintro ⟨hcollection, rfl⟩
        exact ⟨hcollection, rfl⟩
      · rintro ⟨rule, premises, e', hcited, hpremises, happlies, rfl⟩
        have hrule : rule.validate = .ok () :=
          Catalog.validate_of_build hvalidate hbuild rule (Catalog.mem_rules_of_cited? hcited)
        obtain ⟨conflict, rfl, hhides⟩ := Rule.exists_hidesConflict_of_applies hrule
          (hasHoles_of_cited hholes hpremises) (hholes _ conclusion hformula) happlies
        exact ⟨rule, conflict, hcited, rfl, hhides⟩

/-- The rule is accepted, for `x` is bound wherever it is used. But matching binds `x` to a formula
    at its first use, and the second one is with an argument. -/
theorem verifyLine_of_validated_bound :
    let definition : Catalog.Definition :=
      { tables := some [("R", [("forall x (x & S(x(x)))", "^|^")])] }
    let x := Formula.var "x"
    let c : Clause := ⟨.quant .all "x" (.and x (.app "S" [.app "x" [x]])), .top⟩
    let catalog : Catalog := ⟨[⟨"R", [c]⟩], [("Equivalence", ["R"])]⟩
    let d := (Derivation.ofPremise (some (.quant .all "x" (.and (.var "B") (.var "C"))))).perform
      (.addStep ⟨some (.var "A"), .text "R", [.premise 1], []⟩ none)
    definition.validate = true ∧ Catalog.build definition = .ok catalog ∧ Reachable d ∧
      d.verifyLine catalog (some (.step 2)) = .error (.matching (.arity ⟨"x", 0, 1⟩)) ∧
      c.HidesConflict ⟨"x", 0, 1⟩ := by
  intro definition x c catalog d
  have hbuild : Catalog.build definition = .ok catalog := by cbv
  have herror :
      d.verifyLine catalog (some (.step 2)) = .error (.matching (.arity ⟨"x", 0, 1⟩)) := by
    cbv
  have hclosed : ∀ r ∈ d.refs, ∀ g ∈ (d.formulaOf r).toList, g.hasHoles = false := by decide
  have hholes : ∀ r g, d.formulaOf r = some g → g.hasHoles = false :=
    fun r g hg => hclosed r (mem_refs_of_formulaOf hg) g (Option.mem_toList.2 hg)
  refine ⟨rfl, hbuild, (Reachable.ofPremise _).performed _, herror, ?_⟩
  have hcases := verifyLine_of_validated rfl hbuild hholes (some (.step 2))
  rw [herror] at hcases
  obtain ⟨_, h⟩ | ⟨_, _, ⟨rfl⟩, ⟨rfl⟩, ⟨_, h⟩ | ⟨_, _, ⟨rfl⟩, ⟨rfl⟩, c', hc', hhides⟩⟩ := hcases
  · cases h
  · cases h
  · rwa [List.mem_singleton.1 hc'] at hhides

end Derivation

end Deduction
